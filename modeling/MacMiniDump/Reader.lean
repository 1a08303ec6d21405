import MacMiniDump.MachO

/-!
# Reading a Mach-O file

The header, then as many commands as it counts, each as long as its `cmdsize` says; together they
fill the `sizeofcmds` bytes after the header. Written commands are read back as they were
(`parseCommands_flatMap`).
-/

namespace MacMiniDump

def u16At (l : List UInt8) (p : ℕ) : UInt16 := read16 (readAt l p 2)

def u32At (l : List UInt8) (p : ℕ) : UInt32 := read32 (readAt l p 4)

def u64At (l : List UInt8) (p : ℕ) : UInt64 := read64 (readAt l p 8)

theorem readAt_append_right {a b : List UInt8} {p n : ℕ} (h : a.length ≤ p) :
    readAt (a ++ b) p n = readAt b (p - a.length) n := by
  rw [readAt, readAt, List.drop_append, List.drop_of_length_le h, List.nil_append]

theorem readAt_zero_self {a : List UInt8} {n : ℕ} (h : a.length = n) : readAt a 0 n = a := by
  rw [readAt, List.drop_zero, List.take_of_length_le h.le]

inductive LoadCommand
  | note (nc : NoteCommand)
  | thread (tc : ThreadCommand)
  | segment (sc : SegmentCommand64)
  | unknown (cmd cmdsize : UInt32) (data : List UInt8)
  deriving DecidableEq, Repr

def LoadCommand.bytes : LoadCommand → List UInt8
  | .note nc => nc.bytes
  | .thread tc => tc.bytes
  | .segment sc => sc.bytes
  | .unknown cmd cmdsize data => le32 cmd ++ le32 cmdsize ++ data

/-- The name in a field of 16 bytes, which a NUL may end early. -/
def OwnerName.ofField (field : List UInt8) : OwnerName where
  chars := (cstr field).take 16
  noNul h := zero_notMem_cstr field (List.mem_of_mem_take h)
  fits := List.length_take_le _ _

theorem OwnerName.ofField_field (o : OwnerName) : OwnerName.ofField o.field = o := by
  refine OwnerName.ext' ?_
  have h := o.take_cstr_field []
  rwa [List.append_nil] at h

def NoteCommand.decode (l : List UInt8) : NoteCommand where
  cmd := u32At l 0
  cmdsize := u32At l 4
  dataOwner := OwnerName.ofField (readAt l 8 16)
  offset := u64At l 24
  size := u64At l 32

def ThreadCommand.decode (l : List UInt8) : ThreadCommand where
  cmd := u32At l 0
  cmdsize := u32At l 4
  states := l.drop 8

def SegmentCommand64.decode (l : List UInt8) : SegmentCommand64 where
  cmd := u32At l 0
  cmdsize := u32At l 4
  segname := Vector.ofFn fun i => (readAt l 8 16).getD i 0
  vmaddr := u64At l 24
  vmsize := u64At l 32
  fileoff := u64At l 40
  filesize := u64At l 48
  maxprot := u32At l 56
  initprot := u32At l 60
  nsects := u32At l 64
  flags := u32At l 68

def MachHeader64.decode (l : List UInt8) : MachHeader64 where
  magic := u32At l 0
  cputype := u32At l 4
  cpusubtype := u32At l 8
  filetype := u32At l 12
  ncmds := u32At l 16
  sizeofcmds := u32At l 20
  flags := u32At l 24
  reserved := u32At l 28

/-- A command from its `cmdsize` bytes; the fixed ones must have their size. -/
def LoadCommand.decode (c : List UInt8) : Option LoadCommand :=
  let cmd := u32At c 0
  if cmd = LC_NOTE then
    if c.length = NoteCommand.sizeOf.toNat then some (.note (.decode c)) else none
  else if cmd = LC_THREAD then some (.thread (.decode c))
  else if cmd = LC_SEGMENT_64 then
    if c.length = SegmentCommand64.sizeOf.toNat then some (.segment (.decode c)) else none
  else some (.unknown cmd (u32At c 4) (c.drop 8))

/-- `n` commands and what is left after them. -/
def parseCommands : ℕ → List UInt8 → Option (List LoadCommand × List UInt8)
  | 0, l => some ([], l)
  | n + 1, l =>
    let cmdsize := (u32At l 4).toNat
    if 8 ≤ cmdsize ∧ cmdsize ≤ l.length then
      match LoadCommand.decode (l.take cmdsize), parseCommands n (l.drop cmdsize) with
      | some c, some (cs, rest) => some (c :: cs, rest)
      | _, _ => none
    else none

/-- A file of the right magic whose commands fill `sizeofcmds` bytes. -/
def parseMachO (file : List UInt8) : Option (MachHeader64 × List LoadCommand) :=
  let header := MachHeader64.decode (file.take 32)
  if file.length < 32 + header.sizeofcmds.toNat ∨ header.magic ≠ MH_MAGIC_64 then none
  else
    match parseCommands header.ncmds.toNat (readAt file 32 header.sizeofcmds.toNat) with
    | some (cs, []) => some (header, cs)
    | _ => none

section RoundTrip

theorem NoteCommand.decode_bytes (nc : NoteCommand) : NoteCommand.decode nc.bytes = nc := by
  simp (disch := simp) only [decode, bytes, u32At, u64At, readAt_append_left, readAt_append_right,
    readAt_zero_self, length_le32, length_le64, List.length_append, OwnerName.length_field]
  simp [readAt_zero_self, OwnerName.ofField_field]

theorem ThreadCommand.decode_bytes (tc : ThreadCommand) : ThreadCommand.decode tc.bytes = tc := by
  have hs : tc.bytes.drop 8 = tc.states := List.drop_left' (by simp)
  rw [decode, hs]
  simp (disch := simp) only [bytes, u32At, readAt_append_left, readAt_append_right,
    readAt_zero_self, length_le32]
  simp [readAt_zero_self]

theorem SegmentCommand64.decode_bytes (sc : SegmentCommand64) :
    SegmentCommand64.decode sc.bytes = sc := by
  have hname : readAt sc.bytes 8 16 = sc.segname.toList := by
    simp (disch := simp) only [bytes, readAt_append_left, readAt_append_right]
    simp [readAt_zero_self]
  have hvec : (Vector.ofFn fun i : Fin 16 => (readAt sc.bytes 8 16).getD i 0) = sc.segname := by
    rw [hname]
    ext i hi
    simp
  rw [decode, hvec]
  simp (disch := simp) only [bytes, u32At, u64At, readAt_append_left, readAt_append_right,
    readAt_zero_self, length_le32, length_le64, List.length_append, Vector.length_toList]
  simp [readAt_zero_self]

theorem MachHeader64.decode_bytes (h : MachHeader64) : MachHeader64.decode h.bytes = h := by
  simp (disch := simp) only [decode, bytes, u32At, readAt_append_left, readAt_append_right,
    readAt_zero_self, length_le32, List.length_append]
  simp [readAt_zero_self]

/-- A command that carries its own kind, and its own size where it is not a fixed one. -/
def LoadCommand.WellFormed : LoadCommand → Prop
  | .note nc => nc.cmd = LC_NOTE ∧ nc.cmdsize = NoteCommand.sizeOf
  | .thread tc => tc.cmd = LC_THREAD ∧ tc.cmdsize.toNat = 8 + tc.states.length
  | .segment sc => sc.cmd = LC_SEGMENT_64 ∧ sc.cmdsize = SegmentCommand64.sizeOf
  | .unknown _ _ _ => False

theorem LoadCommand.decode_bytes {c : LoadCommand} (h : c.WellFormed) :
    LoadCommand.decode c.bytes = some c := by
  rcases c with nc | tc | sc | _
  · have hd := NoteCommand.decode_bytes nc
    have hc : u32At nc.bytes 0 = LC_NOTE := (congrArg NoteCommand.cmd hd).trans h.1
    simp [LoadCommand.decode, LoadCommand.bytes, hc, hd, NoteCommand.sizeOf]
  · have hd := ThreadCommand.decode_bytes tc
    have hc : u32At tc.bytes 0 = LC_THREAD := (congrArg ThreadCommand.cmd hd).trans h.1
    simp [LoadCommand.decode, LoadCommand.bytes, hc, hd, LC_THREAD, LC_NOTE]
  · have hd := SegmentCommand64.decode_bytes sc
    have hc : u32At sc.bytes 0 = LC_SEGMENT_64 := (congrArg SegmentCommand64.cmd hd).trans h.1
    simp [LoadCommand.decode, LoadCommand.bytes, hc, hd, SegmentCommand64.sizeOf, LC_THREAD,
      LC_NOTE, LC_SEGMENT_64]
  · exact h.elim

theorem LoadCommand.cmdsize_bytes {c : LoadCommand} (h : c.WellFormed) :
    (u32At c.bytes 4).toNat = c.bytes.length ∧ 8 ≤ c.bytes.length := by
  rcases c with nc | tc | sc | _
  · have hc := congrArg NoteCommand.cmdsize (NoteCommand.decode_bytes nc)
    simp only [NoteCommand.decode] at hc
    simp only [LoadCommand.bytes, hc, h.2, NoteCommand.length_bytes]
    exact ⟨rfl, by omega⟩
  · have hc := congrArg ThreadCommand.cmdsize (ThreadCommand.decode_bytes tc)
    simp only [ThreadCommand.decode] at hc
    simp only [LoadCommand.bytes, hc, h.2, ThreadCommand.length_bytes]
    exact ⟨trivial, by omega⟩
  · have hc := congrArg SegmentCommand64.cmdsize (SegmentCommand64.decode_bytes sc)
    simp only [SegmentCommand64.decode] at hc
    simp only [LoadCommand.bytes, hc, h.2, SegmentCommand64.length_bytes]
    exact ⟨rfl, by omega⟩
  · exact h.elim

/-- Commands written one after another are read back. -/
theorem parseCommands_flatMap :
    ∀ (cs : List LoadCommand) (rest : List UInt8), (∀ c ∈ cs, c.WellFormed) →
      parseCommands cs.length (cs.flatMap LoadCommand.bytes ++ rest) = some (cs, rest)
  | [], rest, _ => rfl
  | c :: cs, rest, h => by
    have hc : c.WellFormed := h c List.mem_cons_self
    obtain ⟨hs, h8⟩ := LoadCommand.cmdsize_bytes hc
    have ih := parseCommands_flatMap cs rest fun c' hc' => h c' (List.mem_cons_of_mem _ hc')
    rw [List.length_cons, List.flatMap_cons, List.append_assoc, parseCommands]
    have h4 : u32At (c.bytes ++ (cs.flatMap LoadCommand.bytes ++ rest)) 4 = u32At c.bytes 4 := by
      rw [u32At, u32At, readAt_append_left (by omega)]
    simp only [h4, hs]
    rw [if_pos ⟨h8, by simp⟩, List.take_left, List.drop_left, LoadCommand.decode_bytes hc, ih]

end RoundTrip

end MacMiniDump
