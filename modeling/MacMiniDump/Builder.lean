import MacMiniDump.Lib.Loop
import MacMiniDump.DataAccess
import MacMiniDump.MachO

/-!
# `MachOCoreDumpBuilder`

The builder collects load commands, each note and segment with the provider of its payload, and
`build` writes the core file. The offset of a payload is looked up by its owner or its address
whenever it is needed, so it is recomputed in the loops that write the commands and again in those
that write the payloads.
-/

namespace MacMiniDump

def roundUp (number roundTo : UInt64) : UInt64 :=
  let quotient := number / roundTo
  let remainder := number % roundTo
  if remainder = 0 then number else (quotient + 1) * roundTo

structure Note where
  cmd : NoteCommand
  provider : Option DataProvider

structure Segment where
  cmd : SegmentCommand64
  provider : Option DataProvider

def Note.withOffset (nc : Note) (offset : UInt64) : Note :=
  { nc with cmd := nc.cmd.withOffset offset }

def Segment.withFileoff (sc : Segment) (fileoff : UInt64) : Segment :=
  { sc with cmd := sc.cmd.withFileoff fileoff }

structure MachOCoreDumpBuilder where
  loadCommandsFinalized : Bool
  header : MachHeader64
  noteCmds : List Note
  threadCmds : List ThreadCommand
  segmentCmds : List Segment
  /-- the ranges written so far, kept in a debug build only -/
  writtenRanges : List (UInt64 × UInt64)

/-- An argument of `AddThreadCommand`: its bytes and its alignment. -/
structure ThreadState where
  bytes : List UInt8
  align : ℕ

/-- Padding up to a multiple of `align`. -/
def padTo (align : ℕ) (l : List UInt8) : List UInt8 :=
  l ++ List.replicate ((align - l.length % align) % align) 0

/-- `alignof (ThreadStatesPacked<...>)` -/
def packedAlign : List ThreadState → ℕ
  | [] => 1
  | s :: rest => max s.align (packedAlign rest)

/-- A `ThreadStatesPacked<...>` in memory: the first state, then the rest at its own alignment;
the empty one still takes a byte. -/
def threadStatesPacked : List ThreadState → List UInt8
  | [] => [0]
  | s :: rest =>
    padTo (packedAlign (s :: rest)) (padTo (packedAlign rest) s.bytes ++ threadStatesPacked rest)

/-- `sizeof (ThreadCommandWithThreadStates<...>)`: the command takes 8 bytes of alignment 4. -/
def threadCommandSize (states : List ThreadState) : ℕ :=
  (padTo (max 4 (packedAlign states)) (padTo (packedAlign states) (List.replicate 8 0)
    ++ threadStatesPacked states)).length

/-- The bytes after the command that `AddThreadCommand` copies. -/
def threadCommandStates (states : List ThreadState) : List UInt8 :=
  ((padTo (max 4 (packedAlign states)) (padTo (packedAlign states) (List.replicate 8 0)
    ++ threadStatesPacked states)).take (threadCommandSize states - 8)).drop 8

namespace MachOCoreDumpBuilder

/-- The constructor. -/
def new (arch : Arch) : MachOCoreDumpBuilder where
  loadCommandsFinalized := false
  header :=
    { magic := MH_MAGIC_64, cputype := arch.cputype, cpusubtype := arch.cpusubtype
      filetype := MH_CORE, ncmds := 0, sizeofcmds := 0, flags := 0, reserved := 0 }
  noteCmds := []
  threadCmds := []
  segmentCmds := []
  writtenRanges := []

/-- The sizes of all load commands together. -/
def commandsSize (b : MachOCoreDumpBuilder) : ℕ :=
  (b.noteCmds.map (·.cmd.cmdsize.toNat)).sum + (b.threadCmds.map (·.cmdsize.toNat)).sum
    + (b.segmentCmds.map (·.cmd.cmdsize.toNat)).sum

def finalizeLoadCommands (b : MachOCoreDumpBuilder) : MachOCoreDumpBuilder :=
  if b.loadCommandsFinalized then b
  else { b with
    header := { b.header with
      ncmds := UInt32.ofNat (b.noteCmds.length + b.threadCmds.length + b.segmentCmds.length)
      sizeofcmds := UInt32.ofNat b.commandsSize }
    loadCommandsFinalized := true }

def addNoteCommand (owner : List UInt8) (dataProvider : Option DataProvider)
    (b : MachOCoreDumpBuilder) : Bool × MachOCoreDumpBuilder :=
  if b.loadCommandsFinalized then (false, b)
  else if h : (cstr owner).length ≤ 16 then
    let newCommand : NoteCommand :=
      { cmd := LC_NOTE, cmdsize := NoteCommand.sizeOf
        dataOwner := ⟨cstr owner, zero_notMem_cstr owner, h⟩
        offset := 0, size := (dataProvider.map (·.size)).getD 0 }
    (true, { b with noteCmds := b.noteCmds ++ [⟨newCommand, dataProvider⟩] })
  else (false, b)

def addThreadCommand (threadStates : List ThreadState) (b : MachOCoreDumpBuilder) :
    Bool × MachOCoreDumpBuilder :=
  let threadCmd : ThreadCommand :=
    { cmd := LC_THREAD, cmdsize := UInt32.ofNat (threadCommandSize threadStates - 8)
      states := threadCommandStates threadStates }
  (true, { b with threadCmds := b.threadCmds ++ [threadCmd] })

def addSegmentCommand (vmaddr : UInt64) (prot : UInt32) (dataProvider : Option DataProvider)
    (b : MachOCoreDumpBuilder) : Bool × MachOCoreDumpBuilder :=
  if b.loadCommandsFinalized then (false, b)
  else
    let size := (dataProvider.map (·.size)).getD 0
    let segCommand : SegmentCommand64 :=
      { cmd := LC_SEGMENT_64, cmdsize := SegmentCommand64.sizeOf
        segname := Vector.replicate 16 0, vmaddr := vmaddr, vmsize := size
        fileoff := 0, filesize := size, maxprot := prot, initprot := prot, nsects := 0, flags := 0 }
    (true, { b with segmentCmds := b.segmentCmds ++ [⟨segCommand, dataProvider⟩] })

/-- The loop of `AddDataProviderForNoteCommand`: the first note of that owner gets the provider,
`none` when there is no such note. -/
def attachDataProvider (debug : Bool) (ownerName : List UInt8)
    (dataProvider : Option DataProvider) :
    List Note → Except Fault (Option (List Note))
  | [] => .ok none
  | nc :: rest =>
    if cstr nc.cmd.ownerMemory = cstr ownerName then
      if debug && nc.provider.isSome then .error .assertion
      else
        match dataProvider with
        | none => .error .nullDereference
        | some p => .ok (some ({ cmd := { nc.cmd with size := p.size }, provider := some p }
            :: rest))
    else
      match attachDataProvider debug ownerName dataProvider rest with
      | .ok (some rest') => .ok (some (nc :: rest'))
      | r => r

def addDataProviderForNoteCommand (debug : Bool) (ownerName : List UInt8)
    (dataProvider : Option DataProvider) (b : MachOCoreDumpBuilder) :
    Except Fault (Bool × MachOCoreDumpBuilder) :=
  match attachDataProvider debug ownerName dataProvider b.noteCmds with
  | .ok (some noteCmds) => .ok (true, { b with noteCmds := noteCmds })
  | .ok none => .ok (false, b)
  | .error e => .error e

/-! ## Offsets -/

/-- The loop of `GetOffsetForNoteCommandPayload`. -/
def notePayloadOffset (debug : Bool) (ownerName : List UInt8) :
    UInt64 → List Note → Except Fault (Option UInt64)
  | _, [] => .ok none
  | payloadOffset, nc :: rest =>
    if cstr ownerName = cstr nc.cmd.ownerMemory then .ok (some payloadOffset)
    else if debug && nc.provider.isNone then .error .assertion
    else notePayloadOffset debug ownerName (payloadOffset + nc.cmd.size) rest

/-- The very first payload is aligned to a 16-byte boundary. -/
def firstPayloadOffset (b : MachOCoreDumpBuilder) : UInt64 :=
  roundUp (MachHeader64.sizeOf + b.header.sizeofcmds.toUInt64) 16

def getOffsetForNoteCommandPayload (debug : Bool) (b : MachOCoreDumpBuilder)
    (ownerName : List UInt8) : Except Fault (Option UInt64) :=
  if b.loadCommandsFinalized then
    notePayloadOffset debug ownerName b.firstPayloadOffset b.noteCmds
  else .ok none

/-- The loop of `GetOffsetForSegmentCommandPayload`. -/
def segmentPayloadOffset (debug : Bool) (vmaddr : UInt64) :
    UInt64 → List Segment → Except Fault (Option UInt64)
  | _, [] => .ok none
  | payloadOffset, sc :: rest =>
    if vmaddr = sc.cmd.vmaddr then .ok (some payloadOffset)
    else if debug && sc.provider.isNone then .error .assertion
    else segmentPayloadOffset debug vmaddr (payloadOffset + sc.cmd.filesize) rest

def getOffsetForSegmentCommandPayload (debug : Bool) (b : MachOCoreDumpBuilder)
    (vmaddr : UInt64) : Except Fault (Option UInt64) :=
  if b.loadCommandsFinalized then
    match b.noteCmds.getLast? with
    | none => .error .emptyBack
    | some lastNote =>
      match getOffsetForNoteCommandPayload debug b lastNote.cmd.ownerMemory with
      | .error e => .error e
      | .ok lastOffset =>
        -- the first segment payload goes to a 4K boundary
        segmentPayloadOffset debug vmaddr
          (roundUp (lastOffset.getD 0 + lastNote.cmd.size) 0x1000) b.segmentCmds
  else .ok none

def setNoteOffset (k : ℕ) (offset : UInt64) (b : MachOCoreDumpBuilder) : MachOCoreDumpBuilder :=
  { b with noteCmds := b.noteCmds.modify k (·.withOffset offset) }

def setSegmentFileoff (k : ℕ) (fileoff : UInt64) (b : MachOCoreDumpBuilder) :
    MachOCoreDumpBuilder :=
  { b with segmentCmds := b.segmentCmds.modify k (·.withFileoff fileoff) }

end MachOCoreDumpBuilder

/-! ## Writing -/

/-- A build in progress: the builder and the stream it writes to. -/
structure BuildState (σ : Type) where
  builder : MachOCoreDumpBuilder
  stream : σ

section Write

variable {σ : Type} [OStream σ] (debug : Bool)

/-- The check of a debug build: would the range overwrite one that was written? -/
def overwrites (writtenRanges : List (UInt64 × UInt64)) (start stop : UInt64) : Bool :=
  writtenRanges.any fun interval =>
    (start < interval.2 && start > interval.1) || (stop > interval.1 && stop < interval.2)

def writeToOStream (data : Option (List UInt8)) (size : UInt64) (st : BuildState σ) :
    Except Fault (Bool × BuildState σ) :=
  let start := OStream.getPosition st.stream
  let stop := start + size
  if debug && data.isNone && decide (size > 0) then .error .assertion
  else if data.any fun d => d.length < size.toNat then .error .overread
  else if debug && overwrites st.builder.writtenRanges start stop then .error .assertion
  else
    let writtenRanges :=
      if debug then st.builder.writtenRanges ++ [(start, stop)] else st.builder.writtenRanges
    let (ok, stream) := OStream.write (data.map (·.take size.toNat)) size st.stream
    .ok (ok, { builder := { st.builder with writtenRanges := writtenRanges }, stream := stream })

/-- The body of the loop over the note commands. -/
def writeNoteCommand (k : ℕ) (st : BuildState σ) : Except Fault (Bool × BuildState σ) :=
  match st.builder.noteCmds[k]? with
  | none => .ok (true, st)
  | some nc =>
    match st.builder.getOffsetForNoteCommandPayload debug nc.cmd.ownerMemory with
    | .error e => .error e
    | .ok found =>
      let offset := found.getD nc.cmd.offset
      writeToOStream debug (some (nc.cmd.withOffset offset).bytes) NoteCommand.sizeOf.toUInt64
        { st with builder := st.builder.setNoteOffset k offset }

/-- The body of the loop over the thread commands. -/
def writeThreadCommand (k : ℕ) (st : BuildState σ) : Except Fault (Bool × BuildState σ) :=
  match st.builder.threadCmds[k]? with
  | none => .ok (true, st)
  | some tc => writeToOStream debug (some tc.bytes) tc.cmdsize.toUInt64 st

/-- The body of the loop over the segment commands. -/
def writeSegmentCommand (k : ℕ) (st : BuildState σ) : Except Fault (Bool × BuildState σ) :=
  match st.builder.segmentCmds[k]? with
  | none => .ok (true, st)
  | some sc =>
    match st.builder.getOffsetForSegmentCommandPayload debug sc.cmd.vmaddr with
    | .error e => .error e
    | .ok found =>
      let fileoff := found.getD sc.cmd.fileoff
      writeToOStream debug (some (sc.cmd.withFileoff fileoff).bytes)
        SegmentCommand64.sizeOf.toUInt64
        { st with builder := st.builder.setSegmentFileoff k fileoff }

/-- The body of the loop over the note payloads. -/
def writeNotePayload (k : ℕ) (st : BuildState σ) : Except Fault (Bool × BuildState σ) :=
  match st.builder.noteCmds[k]? with
  | none => .ok (true, st)
  | some nc =>
    match st.builder.getOffsetForNoteCommandPayload debug nc.cmd.ownerMemory, nc.provider with
    | .error e, _ => .error e
    | .ok none, _ => .error .uninitialized
    | .ok (some _), none => .error .nullDereference
    | .ok (some offset), some p =>
      writeToOStream debug p.getAll nc.cmd.size
        { st with stream := OStream.setPosition offset st.stream }

def maxChunkSize : UInt64 := 4096 * 1024

/-- The loop over the whole chunks of a segment, with the offset it has come to: a failed read
breaks it, a failed write returns from `Build`. -/
def writeChunks (p : DataProvider) (chunkSize : UInt64) :
    ℕ → UInt64 → BuildState σ → Except Fault (Bool × UInt64 × BuildState σ)
  | 0, offset, st => .ok (true, offset, st)
  | n + 1, offset, st =>
    match p.get offset chunkSize with
    | none => .ok (true, offset, st)
    | some data =>
      match writeToOStream debug (some data) chunkSize st with
      | .error e => .error e
      | .ok (false, st') => .ok (false, offset, st')
      | .ok (true, st') => writeChunks p chunkSize n (offset + chunkSize) st'

/-- The body of the loop over the segment payloads. The bytes left over after the whole chunks are
written whatever their number is, and from wherever the chunks stopped. -/
def writeSegmentPayload (k : ℕ) (st : BuildState σ) : Except Fault (Bool × BuildState σ) :=
  match st.builder.segmentCmds[k]? with
  | none => .ok (true, st)
  | some sc =>
    match sc.provider with
    | none => .error .nullDereference
    | some p =>
      if debug && p.size != sc.cmd.filesize then .error .assertion
      else
        match st.builder.getOffsetForSegmentCommandPayload debug sc.cmd.vmaddr with
        | .error e => .error e
        | .ok none => .error .uninitialized
        | .ok (some startOffset) =>
          let dataSize := p.size
          let chunkSize := min dataSize maxChunkSize
          if chunkSize = 0 then .error .divisionByZero
          else
            let nLeftOverBytes := dataSize % chunkSize
            let iters := dataSize / chunkSize
            match writeChunks debug p chunkSize iters.toNat 0
                { st with stream := OStream.setPosition startOffset st.stream } with
            | .error e => .error e
            | .ok (false, _, st') => .ok (false, st')
            | .ok (true, offset, st') =>
              writeToOStream debug (p.get offset nLeftOverBytes) nLeftOverBytes st'

/-- `Build`: the header and the load commands, then the payloads. -/
def build (st : BuildState σ) : Except Fault (Bool × BuildState σ) :=
  let b := if debug then { st.builder with writtenRanges := [] } else st.builder
  let b := b.finalizeLoadCommands
  seq (writeToOStream debug (some b.header.bytes) MachHeader64.sizeOf)
    (seq (forEach (writeNoteCommand debug) (List.range b.noteCmds.length))
    (seq (forEach (writeThreadCommand debug) (List.range b.threadCmds.length))
    (seq (forEach (writeSegmentCommand debug) (List.range b.segmentCmds.length))
    (seq (forEach (writeNotePayload debug) (List.range b.noteCmds.length))
      (forEach (writeSegmentPayload debug) (List.range b.segmentCmds.length))))))
    { builder := b, stream := st.stream }

end Write

end MacMiniDump
