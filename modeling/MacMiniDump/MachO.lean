import MacMiniDump.Lib.Bytes

/-!
# The structures of a Mach-O core file

The header and the load commands as `mach-o/loader.h` declares them, and the bytes each is written
as. The owner of a note fills a field of 16 bytes, with no terminator when it has all 16.
-/

namespace MacMiniDump

/-- The two architectures the library is built for. -/
inductive Arch
  | x86_64
  | arm64
  deriving DecidableEq, Repr

def MH_MAGIC_64 : UInt32 := 0xFEEDFACF
def MH_CORE : UInt32 := 4
def MH_EXECUTE : UInt32 := 2
def LC_THREAD : UInt32 := 4
def LC_SEGMENT_64 : UInt32 := 0x19
def LC_UUID : UInt32 := 0x1b
def LC_NOTE : UInt32 := 0x31

def Arch.cputype : Arch → UInt32
  | .x86_64 => 0x1000007
  | .arm64 => 0x100000C

def Arch.cpusubtype : Arch → UInt32
  | .x86_64 => 3
  | .arm64 => 0

/-- `mach_header_64` -/
structure MachHeader64 where
  magic : UInt32
  cputype : UInt32
  cpusubtype : UInt32
  filetype : UInt32
  ncmds : UInt32
  sizeofcmds : UInt32
  flags : UInt32
  reserved : UInt32
  deriving DecidableEq, Repr

namespace MachHeader64

/-- `sizeof (mach_header_64)` -/
def sizeOf : UInt64 := 32

def bytes (h : MachHeader64) : List UInt8 :=
  le32 h.magic ++ le32 h.cputype ++ le32 h.cpusubtype ++ le32 h.filetype ++ le32 h.ncmds
    ++ le32 h.sizeofcmds ++ le32 h.flags ++ le32 h.reserved

@[simp] theorem length_bytes (h : MachHeader64) : h.bytes.length = 32 := by simp [bytes]

end MachHeader64

/-- A C string that fits a field of 16 bytes. -/
structure OwnerName where
  chars : List UInt8
  noNul : 0 ∉ chars
  fits : chars.length ≤ 16
  deriving DecidableEq, Repr

namespace OwnerName

theorem ext' {o o' : OwnerName} (h : o.chars = o'.chars) : o = o' := by
  cases o; cases o'; simpa using h

/-- The field, which `AddNoteCommand` clears before it copies the name there. -/
def field (o : OwnerName) : List UInt8 := o.chars ++ List.replicate (16 - o.chars.length) 0

@[simp] theorem length_field (o : OwnerName) : o.field.length = 16 := by
  have := o.fits
  simp only [field, List.length_append, List.length_replicate]
  omega

/-- A name is what the C string at its field starts with. -/
theorem take_cstr_field (o : OwnerName) (t : List UInt8) :
    (cstr (o.field ++ t)).take 16 = o.chars := by
  have hf := o.fits
  rw [field, List.append_assoc, cstr_append_of_zero_notMem o.noNul]
  rcases hf.lt_or_eq with hlt | heq
  · obtain ⟨n, hn⟩ : ∃ n, 16 - o.chars.length = n + 1 := ⟨15 - o.chars.length, by omega⟩
    rw [hn, List.replicate_succ, List.cons_append]
    simpa [cstr] using hf
  · simp [heq]

/-- With a terminator after the field, the C string there is the name. -/
theorem cstr_field_zero (o : OwnerName) (t : List UInt8) :
    cstr (o.field ++ 0 :: t) = o.chars := by
  rw [field, List.append_assoc, cstr_append_of_zero_notMem o.noNul]
  rcases Nat.eq_zero_or_pos (16 - o.chars.length) with h | h
  · simp [h, cstr]
  · obtain ⟨n, hn⟩ : ∃ n, 16 - o.chars.length = n + 1 := ⟨16 - o.chars.length - 1, by omega⟩
    rw [hn, List.replicate_succ, List.cons_append]
    simp [cstr]

end OwnerName

/-- `note_command` -/
structure NoteCommand where
  cmd : UInt32
  cmdsize : UInt32
  dataOwner : OwnerName
  offset : UInt64
  size : UInt64
  deriving DecidableEq, Repr

namespace NoteCommand

/-- `sizeof (note_command)` -/
def sizeOf : UInt32 := 40

def bytes (nc : NoteCommand) : List UInt8 :=
  le32 nc.cmd ++ le32 nc.cmdsize ++ nc.dataOwner.field ++ le64 nc.offset ++ le64 nc.size

@[simp] theorem length_bytes (nc : NoteCommand) : nc.bytes.length = 40 := by simp [bytes]

def withOffset (nc : NoteCommand) (offset : UInt64) : NoteCommand := { nc with offset := offset }

/-- What a `strcmp` on `data_owner` reads: the field, and the rest of the command past its end. -/
def ownerMemory (nc : NoteCommand) : List UInt8 :=
  nc.dataOwner.field ++ (le64 nc.offset ++ le64 nc.size)

theorem dataOwner_of_cstr_eq {nc nc' : NoteCommand}
    (h : cstr nc.ownerMemory = cstr nc'.ownerMemory) : nc.dataOwner = nc'.dataOwner := by
  refine OwnerName.ext' ?_
  rw [← nc.dataOwner.take_cstr_field (le64 nc.offset ++ le64 nc.size),
    ← nc'.dataOwner.take_cstr_field (le64 nc'.offset ++ le64 nc'.size)]
  exact congrArg (List.take 16) h

/-- Before `Build` has stored an offset, the zeros there end the name. -/
theorem cstr_ownerMemory {nc : NoteCommand} (h : nc.offset = 0) :
    cstr nc.ownerMemory = nc.dataOwner.chars := by
  rw [ownerMemory, h]
  exact nc.dataOwner.cstr_field_zero _

/-- A shorter name has its terminator in the field. -/
theorem cstr_ownerMemory_of_lt {nc : NoteCommand} (h : nc.dataOwner.chars.length < 16) :
    cstr nc.ownerMemory = nc.dataOwner.chars := by
  obtain ⟨n, hn⟩ : ∃ n, 16 - nc.dataOwner.chars.length = n + 1 :=
    ⟨15 - nc.dataOwner.chars.length, by omega⟩
  rw [ownerMemory, OwnerName.field, hn, List.replicate_succ, List.append_assoc, List.cons_append,
    cstr_append_zero nc.dataOwner.noNul]

theorem chars_of_cstr_eq {nc : NoteCommand} {o : OwnerName}
    (h : o.chars = cstr nc.ownerMemory) : o = nc.dataOwner := by
  refine OwnerName.ext' ?_
  rw [← nc.dataOwner.take_cstr_field (le64 nc.offset ++ le64 nc.size), ← ownerMemory, ← h,
    List.take_of_length_le o.fits]

end NoteCommand

/-- `thread_command`, with the thread states that follow it -/
structure ThreadCommand where
  cmd : UInt32
  cmdsize : UInt32
  states : List UInt8
  deriving DecidableEq, Repr

def ThreadCommand.bytes (tc : ThreadCommand) : List UInt8 :=
  le32 tc.cmd ++ le32 tc.cmdsize ++ tc.states

@[simp] theorem ThreadCommand.length_bytes (tc : ThreadCommand) :
    tc.bytes.length = 8 + tc.states.length := by
  simp only [bytes, List.length_append, length_le32]

/-- `segment_command_64`; the segments of a dump have no name and no sections -/
structure SegmentCommand64 where
  cmd : UInt32
  cmdsize : UInt32
  segname : Vector UInt8 16
  vmaddr : UInt64
  vmsize : UInt64
  fileoff : UInt64
  filesize : UInt64
  maxprot : UInt32
  initprot : UInt32
  nsects : UInt32
  flags : UInt32
  deriving DecidableEq, Repr

namespace SegmentCommand64

/-- `sizeof (segment_command_64)` -/
def sizeOf : UInt32 := 72

def bytes (sc : SegmentCommand64) : List UInt8 :=
  le32 sc.cmd ++ le32 sc.cmdsize ++ sc.segname.toList ++ le64 sc.vmaddr ++ le64 sc.vmsize
    ++ le64 sc.fileoff ++ le64 sc.filesize ++ le32 sc.maxprot ++ le32 sc.initprot
    ++ le32 sc.nsects ++ le32 sc.flags

@[simp] theorem length_bytes (sc : SegmentCommand64) : sc.bytes.length = 72 := by simp [bytes]

def withFileoff (sc : SegmentCommand64) (fileoff : UInt64) : SegmentCommand64 :=
  { sc with fileoff := fileoff }

end SegmentCommand64

end MacMiniDump
