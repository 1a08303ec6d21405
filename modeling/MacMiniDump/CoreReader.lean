import MacMiniDump.AllImageInfos
import MacMiniDump.ProcessMetadata
import MacMiniDump.StreamStart
import MacMiniDump.ThreadIds

/-!
# Reading a core file

What a reader finds in a core file that it knows nothing else about: notes by their owners, threads
with their registers and ids, and the payloads decoded. Each part is read back from what was written
of it (`findNote_eq`, `readRegisters_threadCommandOf`, `readThreadIds_payload`).
-/

namespace MacMiniDump

open MachOCoreDumpBuilder

/-- Where the payload of the note is, and the payload, if the command is a note of the owner and all
of it is in the file. -/
def readNote (file owner : List UInt8) : LoadCommand → Option (UInt64 × List UInt8)
  | .note nc =>
    let payload := readAt file nc.offset.toNat nc.size.toNat
    if nc.dataOwner.chars = cstr owner ∧ payload.length = nc.size.toNat then
      some (nc.offset, payload)
    else none
  | _ => none

def findNote (file : List UInt8) (cs : List LoadCommand) (owner : List UInt8) :
    Option (UInt64 × List UInt8) :=
  cs.findSome? (readNote file owner)

section Notes

variable {b : MachOCoreDumpBuilder} {file : List UInt8}

/-- A note is found in a file that has everything in its place. -/
theorem findNote_eq (h : WellPlaced b file) (hd : b.DistinctOwners) {owner : List UInt8} {k : ℕ}
    {n : Note} (hk : b.noteCmds[k]? = some n) (howner : n.cmd.dataOwner.chars = cstr owner) :
    findNote file b.loadCommands owner = some (b.noteOffset k, n.content) := by
  obtain ⟨hlt, hget⟩ := List.getElem?_eq_some_iff.1 hk
  have hplaced : k < (b.placedNotes.map LoadCommand.note).length := by
    simpa [placedNotes] using hlt
  have hat : (b.placedNotes.map LoadCommand.note)[k]
      = .note (n.cmd.withOffset (b.noteOffset k)) := by
    simp [placedNotes, hget]
  obtain ⟨hsize, hdata⟩ := h.noteData k n hk
  have hdata' : readAt file (b.noteOffset k).toNat n.cmd.size.toNat = n.content := by
    rw [hsize]
    exact hdata
  have hsplit := List.take_append_drop k (b.placedNotes.map LoadCommand.note)
  rw [List.drop_eq_getElem_cons hplaced, hat] at hsplit
  rw [findNote, List.findSome?_eq_some_iff]
  refine ⟨(b.placedNotes.map LoadCommand.note).take k, .note (n.cmd.withOffset (b.noteOffset k)),
    (b.placedNotes.map LoadCommand.note).drop (k + 1)
      ++ (b.threadCmds.map .thread ++ b.placedSegments.map .segment), ?_, ?_, ?_⟩
  · have hall := congrArg
      (· ++ (b.threadCmds.map LoadCommand.thread ++ b.placedSegments.map .segment)) hsplit
    simpa only [loadCommands, List.append_assoc, List.cons_append] using hall.symm
  · have hholds : (n.cmd.withOffset (b.noteOffset k)).dataOwner.chars = cstr owner
        ∧ (readAt file (b.noteOffset k).toNat n.cmd.size.toNat).length = n.cmd.size.toNat :=
      ⟨howner, by rw [hdata', hsize]⟩
    exact (if_pos hholds).trans (congrArg (fun d => some (b.noteOffset k, d)) hdata')
  · intro x hx
    obtain ⟨j, hj, rfl⟩ := List.getElem_of_mem hx
    rw [List.length_take, List.length_map] at hj
    have hjk : j < k := lt_of_lt_of_le hj (min_le_left _ _)
    have hne := List.pairwise_iff_getElem.1 hd j k (hjk.trans hlt) hlt hjk
    have hother : ¬ b.noteCmds[j].cmd.dataOwner.chars = cstr owner := by
      intro heq
      rw [hget] at hne
      exact hne (OwnerName.ext' (heq.trans howner.symm))
    rw [List.getElem_take, List.getElem_map]
    simp only [placedNotes, List.getElem_mapIdx, readNote, NoteCommand.withOffset]
    exact if_neg fun hc => hother hc.1

end Notes

def GPR.decode (arch : Arch) (l : List UInt8) : GPR arch where
  kind := u32At l 0
  nWordCount := u32At l 4
  gpr := Vector.ofFn fun i => (readAt l 8 arch.gprSize).getD i 0

def EXC.decode (arch : Arch) (l : List UInt8) : EXC arch where
  kind := u32At l 0
  nWordCount := u32At l 4
  exc := Vector.ofFn fun i => (readAt l 8 arch.excSize).getD i 0

def threadCommands (cs : List LoadCommand) : List ThreadCommand :=
  cs.filterMap fun
    | .thread tc => some tc
    | _ => none

/-- The register sets of a command that has just the two. -/
def readRegisters (arch : Arch) (tc : ThreadCommand) : Option (GPR arch × EXC arch) :=
  let gpr := GPR.decode arch (tc.states.take (8 + arch.gprSize))
  let exc := EXC.decode arch (tc.states.drop (8 + arch.gprSize))
  if tc.states.length = 16 + arch.gprSize + arch.excSize ∧ gpr.kind = arch.gprKind
      ∧ exc.kind = arch.excKind then
    some (gpr, exc)
  else none

section Threads

variable {arch : Arch}

theorem ofFn_getD {n : ℕ} {v : Vector UInt8 n} {l : List UInt8} (h : l = v.toList) :
    (Vector.ofFn fun i : Fin n => l.getD i 0) = v := by
  rw [h]
  ext i hi
  simp

theorem GPR.decode_bytes (gpr : GPR arch) : GPR.decode arch gpr.bytes = gpr := by
  have hregs : readAt gpr.bytes 8 arch.gprSize = gpr.gpr.toList := by
    simp (disch := simp) only [bytes, readAt_append_right]
    simp [readAt_zero_self]
  rw [decode, ofFn_getD hregs]
  simp (disch := simp) only [bytes, u32At, readAt_append_left, readAt_append_right,
    readAt_zero_self, length_le32]
  simp [readAt_zero_self]

theorem EXC.decode_bytes (exc : EXC arch) : EXC.decode arch exc.bytes = exc := by
  have hregs : readAt exc.bytes 8 arch.excSize = exc.exc.toList := by
    simp (disch := simp) only [bytes, readAt_append_right]
    simp [readAt_zero_self]
  rw [decode, ofFn_getD hregs]
  simp (disch := simp) only [bytes, u32At, readAt_append_left, readAt_append_right,
    readAt_zero_self, length_le32]
  simp [readAt_zero_self]

/-- The kinds of the registers of a thread are those of its architecture. -/
theorem TargetThread.kind_registers {thread : TargetThread arch}
    {crash : Option (CrashContext arch)}
    {gpr : GPR arch} {exc : EXC arch} (h : thread.registers crash = some (gpr, exc)) :
    gpr.kind = arch.gprKind ∧ exc.kind = arch.excKind := by
  obtain ⟨states, -, heq⟩ := Option.map_eq_some_iff.1 h
  obtain ⟨rfl, rfl⟩ := Prod.mk.inj heq
  exact ⟨rfl, rfl⟩

theorem readRegisters_threadCommandOf {gpr : GPR arch} {exc : EXC arch}
    (hgpr : gpr.kind = arch.gprKind) (hexc : exc.kind = arch.excKind) :
    readRegisters arch (threadCommandOf gpr exc) = some (gpr, exc) := by
  have hstates : (threadCommandOf gpr exc).states = gpr.bytes ++ exc.bytes :=
    (threadCommand_gpr_exc gpr exc).2
  have hlen : (gpr.bytes ++ exc.bytes).length = 16 + arch.gprSize + arch.excSize := by
    rw [List.length_append, gpr.length_bytes, exc.length_bytes]
    omega
  unfold readRegisters
  simp only [hstates, List.take_left' gpr.length_bytes, List.drop_left' gpr.length_bytes,
    GPR.decode_bytes, EXC.decode_bytes, hgpr, hexc, hlen, and_self, if_true]

theorem mapM_readRegisters (crash : Option (CrashContext arch)) :
    ∀ threads : List (TargetThread arch),
      (threads.filterMap fun t => (t.registers crash).map fun r => threadCommandOf r.1 r.2).mapM
          (readRegisters arch)
        = some (threads.filterMap fun t => t.registers crash)
  | [] => rfl
  | thread :: threads => by
    have ih := mapM_readRegisters crash threads
    rcases hreg : thread.registers crash with _ | ⟨gpr, exc⟩
    · simpa [hreg] using ih
    · obtain ⟨hgpr, hexc⟩ := TargetThread.kind_registers hreg
      simp [hreg, readRegisters_threadCommandOf hgpr hexc, ih]

theorem threadCommands_loadCommands (b : MachOCoreDumpBuilder) :
    threadCommands b.loadCommands = b.threadCmds := by
  simp [threadCommands, loadCommands, List.filterMap_append, List.filterMap_map]

end Threads

def AddrableBitsInfo.decode (l : List UInt8) : AddrableBitsInfo where
  version := u32At l 0
  nBits := u32At l 4
  unused := u64At l 8

def MainBinSpec.decode (l : List UInt8) : MainBinSpec where
  version := u32At l 0
  type := u32At l 4
  address := u64At l 8
  slide := u64At l 16
  uuid := Vector.ofFn fun i => (readAt l 24 16).getD i 0
  log2_pagesize := u32At l 40
  platform := u32At l 44

theorem AddrableBitsInfo.decode_bytes (info : AddrableBitsInfo) : decode info.bytes = info := by
  simp (disch := simp) only [decode, bytes, u32At, u64At, readAt_append_left, readAt_append_right,
    readAt_zero_self, length_le32, List.length_append]
  simp [readAt_zero_self]

theorem MainBinSpec.decode_bytes (spec : MainBinSpec) : decode spec.bytes = spec := by
  have huuid : readAt spec.bytes 24 16 = spec.uuid.toList := by
    simp (disch := simp) only [bytes, readAt_append_left, readAt_append_right]
    simp [readAt_zero_self]
  rw [decode, ofFn_getD huuid]
  simp (disch := simp) only [bytes, u32At, u64At, readAt_append_left, readAt_append_right,
    readAt_zero_self, length_le32, length_le64, List.length_append, Vector.length_toList]
  simp [readAt_zero_self]

/-- The id in the object of a thread. -/
def readThreadObject : Json → Option UInt64
  | .object [(key, .number q)] =>
    if key = Json.units "thread_id".toList ∧ q.den = 1 ∧ 0 ≤ q.num ∧ q.num < 2 ^ 64 then
      some (UInt64.ofNat q.num.toNat)
    else none
  | _ => none

/-- The ids in the process metadata. -/
def readThreadIds (payload : List UInt8) : Option (List UInt64) :=
  match (String.fromUTF8? ⟨payload.toArray⟩).bind fun text => Json.parse text.toList with
  | some (.object [(key, .array threads)]) =>
    if key = Json.units "threads".toList then threads.mapM readThreadObject else none
  | _ => none

theorem readThreadObject_threadObject (id : UInt64) :
    readThreadObject (threadObject id) = some id := by
  have hlt : id.toNat < 18446744073709551616 := id.toNat_lt
  simp [readThreadObject, threadObject, hlt]

theorem mapM_readThreadObject :
    ∀ ids : List UInt64, (ids.map threadObject).mapM readThreadObject = some ids
  | [] => rfl
  | id :: ids => by
    rw [List.map_cons, List.mapM_cons, readThreadObject_threadObject, mapM_readThreadObject ids]
    rfl

theorem fromUTF8?_toByteArray (s : String) : String.fromUTF8? s.toByteArray = some s := by
  rw [String.fromUTF8?, dif_pos s.isValidUTF8]
  rfl

/-- The ids are read back from the payload made of them. -/
theorem readThreadIds_payload (ids : List UInt64) :
    readThreadIds (createProcessMetadataPayload ids) = some ids := by
  obtain ⟨s, hs, htext⟩ : Json.Encodes (createProcessMetadataPayload ids) (threadsObject ids) := by
    rw [createProcessMetadataPayload_eq]
    exact Json.encodes_ascii (isText_threadsText ids) (ascii_threadsText ids)
  have hbytes : (⟨(createProcessMetadataPayload ids).toArray⟩ : ByteArray) = s.toByteArray := by
    rw [← hs]
  have hparse : (String.fromUTF8? ⟨(createProcessMetadataPayload ids).toArray⟩).bind
      (fun text => Json.parse text.toList) = some (threadsObject ids) := by
    rw [hbytes, fromUTF8?_toByteArray]
    exact htext.parse_eq
  unfold readThreadIds
  rw [hparse]
  simp only [threadsObject, if_true]
  exact mapM_readThreadObject ids

end MacMiniDump
