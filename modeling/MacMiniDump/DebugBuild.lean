import MacMiniDump.Lib.Checked
import MacMiniDump.TaskDump

/-!
# Debug builds

A debug build differs from a release build by its assertions alone. From reading the list of modules
over the walks to the last write, on any memory and on any stream, a dump fails one of them, or ends
as it does without them (`debug_taskDump`).
-/

namespace MacMiniDump

open MachOCoreDumpBuilder

/-- An assertion of the debug build fails, or the release build does the same. -/
abbrev Asserting {α β : Type} (R : α → β → Prop) : Except Fault α → Except Fault β → Prop :=
  Checked (· = .assertion) R

theorem Asserting.cases {α : Type} {x y : Except Fault α} (h : Asserting Eq x y) :
    x = .error .assertion ∨ x = y := by
  rcases h.cases_eq with ⟨e, rfl, hx⟩ | hx
  · exact .inl hx
  · exact .inr hx

/-- What comes after a lookup need only agree on what was found. -/
theorem Asserting.bind_eq {α β γ : Type} {R : β → γ → Prop} {x y : Except Fault α}
    {f : α → Except Fault β} {g : α → Except Fault γ} (h : Asserting Eq x y)
    (hf : ∀ a, Asserting R (f a) (g a)) : Asserting R (x >>= f) (y >>= g) :=
  Checked.bind h fun a _ ha => ha ▸ hf a

section Lookups

variable {b : MachOCoreDumpBuilder}

theorem asserting_attachDataProvider (ownerName : List UInt8) (dataProvider : Option DataProvider) :
    ∀ notes : List Note, Asserting Eq (attachDataProvider true ownerName dataProvider notes)
      (attachDataProvider false ownerName dataProvider notes)
  | [] => .refl _
  | nc :: rest => by
    simp only [attachDataProvider, Bool.true_and, Bool.false_and, Bool.false_eq_true, if_false]
    split_ifs with howner hassert
    · exact .check rfl
    · exact .refl _
    · rcases (asserting_attachDataProvider ownerName dataProvider rest).cases with h | h
      · rw [h]
        exact .check rfl
      · rw [h]
        exact .refl _

theorem asserting_addDataProvider (ownerName : List UInt8) (dataProvider : Option DataProvider) :
    Asserting Eq (b.addDataProviderForNoteCommand true ownerName dataProvider)
      (b.addDataProviderForNoteCommand false ownerName dataProvider) := by
  unfold addDataProviderForNoteCommand
  rcases (asserting_attachDataProvider ownerName dataProvider b.noteCmds).cases with h | h
  · rw [h]
    exact .check rfl
  · rw [h]
    exact .refl _

theorem asserting_notePayloadOffset (ownerName : List UInt8) :
    ∀ (notes : List Note) (payloadOffset : UInt64),
      Asserting Eq (notePayloadOffset true ownerName payloadOffset notes)
        (notePayloadOffset false ownerName payloadOffset notes)
  | [], _ => .refl _
  | nc :: rest, payloadOffset => by
    simp only [notePayloadOffset, Bool.true_and, Bool.false_and, Bool.false_eq_true, if_false]
    split_ifs with howner hassert
    · exact .refl _
    · exact .check rfl
    · exact asserting_notePayloadOffset ownerName rest _

theorem asserting_getNoteOffset (ownerName : List UInt8) :
    Asserting Eq (b.getOffsetForNoteCommandPayload true ownerName)
      (b.getOffsetForNoteCommandPayload false ownerName) := by
  unfold getOffsetForNoteCommandPayload
  split_ifs
  · exact asserting_notePayloadOffset ownerName _ _
  · exact .refl _

theorem asserting_segmentPayloadOffset (vmaddr : UInt64) :
    ∀ (segments : List Segment) (payloadOffset : UInt64),
      Asserting Eq (segmentPayloadOffset true vmaddr payloadOffset segments)
        (segmentPayloadOffset false vmaddr payloadOffset segments)
  | [], _ => .refl _
  | sc :: rest, payloadOffset => by
    simp only [segmentPayloadOffset, Bool.true_and, Bool.false_and, Bool.false_eq_true, if_false]
    split_ifs with hvmaddr hassert
    · exact .refl _
    · exact .check rfl
    · exact asserting_segmentPayloadOffset vmaddr rest _

theorem asserting_getSegmentOffset (vmaddr : UInt64) :
    Asserting Eq (b.getOffsetForSegmentCommandPayload true vmaddr)
      (b.getOffsetForSegmentCommandPayload false vmaddr) := by
  unfold getOffsetForSegmentCommandPayload
  split_ifs
  · rcases b.noteCmds.getLast? with _ | lastNote
    · exact .refl _
    simp only
    rcases (asserting_getNoteOffset (b := b) lastNote.cmd.ownerMemory).cases with h | h
    · rw [h]
      exact .check rfl
    rw [h]
    rcases b.getOffsetForNoteCommandPayload false lastNote.cmd.ownerMemory with e | lastOffset
    · exact .error e
    · exact asserting_segmentPayloadOffset vmaddr _ _
  · exact .refl _

theorem asserting_storeFileoffs :
    Asserting (SameAnswer Eq) (storeFileoffs true b) (storeFileoffs false b) := by
  refine Checked.forEach (fun k c c' h => ?_) _ b b rfl
  subst h
  unfold storeFileoff
  rcases c.segmentCmds[k]? with _ | sc
  · exact .ok ⟨rfl, rfl⟩
  simp only
  rcases (asserting_getSegmentOffset (b := c) sc.cmd.vmaddr).cases with h | h
  · rw [h]
    exact .check rfl
  rw [h]
  rcases c.getOffsetForSegmentCommandPayload false sc.cmd.vmaddr with e | found
  · exact .error e
  · exact .ok ⟨rfl, rfl⟩

theorem asserting_createMainBinSpecPayload (modules : ModuleList) :
    Asserting Eq (createMainBinSpecPayload true modules)
      (createMainBinSpecPayload false modules) := by
  unfold createMainBinSpecPayload
  split
  · exact .refl _
  · exact .check rfl

/-- What is put together is put together the same. -/
theorem asserting_addPayloads (nAddrableBits : Option UInt32) (modules : ModuleList)
    (threadIds : List UInt64) :
    Asserting Eq (addPayloads true nAddrableBits modules threadIds b)
      (addPayloads false nAddrableBits modules threadIds b) := by
  unfold addPayloads
  rcases nAddrableBits with _ | nBits
  · exact .refl _
  refine (asserting_addDataProvider _ _).bind fun r₁ r₁' h₁ => ?_
  subst h₁
  refine (asserting_addDataProvider _ _).bind fun r₂ r₂' h₂ => ?_
  subst h₂
  refine (asserting_getNoteOffset _).bind fun offset offset' h => ?_
  subst h
  refine (Checked.refl _).bind fun payload payload' h => ?_
  subst h
  split_ifs
  · exact .refl _
  refine (asserting_addDataProvider _ _).bind fun r₃ r₃' h₃ => ?_
  subst h₃
  refine (asserting_createMainBinSpecPayload _).bind fun spec spec' h => ?_
  subst h
  refine (asserting_addDataProvider _ _).bind fun r₄ r₄' h₄ => ?_
  subst h₄
  refine asserting_storeFileoffs.bind fun r₅ r₅' h₅ => ?_
  rw [h₅.2]
  exact .refl _

end Lookups

/-! ## Writing -/

section Write

variable {σ : Type}

/-- The same but for the ranges that a debug build keeps. -/
structure SameBuild (st st' : BuildState σ) : Prop where
  stream : st.stream = st'.stream
  builder : SameButRanges st.builder st'.builder

variable {st st' : BuildState σ}

theorem SameBuild.commands (h : SameBuild st st') :
    st'.builder.noteCmds = st.builder.noteCmds ∧ st'.builder.threadCmds = st.builder.threadCmds
      ∧ st'.builder.segmentCmds = st.builder.segmentCmds := by
  obtain ⟨ranges, hst⟩ := h.builder
  rw [hst]
  exact ⟨rfl, rfl, rfl⟩

/-- A lookup fails an assertion, or finds the same in either build, whatever the ranges are. -/
theorem SameBuild.getNoteOffset (h : SameBuild st st') (ownerName : List UInt8) :
    Asserting Eq (st.builder.getOffsetForNoteCommandPayload true ownerName)
      (st'.builder.getOffsetForNoteCommandPayload false ownerName) := by
  obtain ⟨ranges, hst⟩ := h.builder
  rw [hst]
  exact asserting_getNoteOffset (b := st.builder) ownerName

theorem SameBuild.getSegmentOffset (h : SameBuild st st') (vmaddr : UInt64) :
    Asserting Eq (st.builder.getOffsetForSegmentCommandPayload true vmaddr)
      (st'.builder.getOffsetForSegmentCommandPayload false vmaddr) := by
  obtain ⟨ranges, hst⟩ := h.builder
  rw [hst]
  exact asserting_getSegmentOffset (b := st.builder) vmaddr

theorem SameBuild.setNoteOffset (h : SameBuild st st') (k : ℕ) (offset : UInt64) :
    SameBuild { st with builder := st.builder.setNoteOffset k offset }
      { st' with builder := st'.builder.setNoteOffset k offset } := by
  obtain ⟨ranges, hst⟩ := h.builder
  exact ⟨h.stream, ranges, by rw [hst]; rfl⟩

theorem SameBuild.setSegmentFileoff (h : SameBuild st st') (k : ℕ) (fileoff : UInt64) :
    SameBuild { st with builder := st.builder.setSegmentFileoff k fileoff }
      { st' with builder := st'.builder.setSegmentFileoff k fileoff } := by
  obtain ⟨ranges, hst⟩ := h.builder
  exact ⟨h.stream, ranges, by rw [hst]; rfl⟩

variable [OStream σ]

theorem SameBuild.setPosition (h : SameBuild st st') (offset : UInt64) :
    SameBuild { st with stream := OStream.setPosition offset st.stream }
      { st' with stream := OStream.setPosition offset st'.stream } :=
  ⟨congrArg (OStream.setPosition offset) h.stream, h.builder⟩

theorem asserting_write (data : Option (List UInt8)) (size : UInt64) (st st' : BuildState σ)
    (h : SameBuild st st') : Asserting (SameAnswer SameBuild) (writeToOStream true data size st)
      (writeToOStream false data size st') := by
  obtain ⟨c, s⟩ := st
  obtain ⟨c', s'⟩ := st'
  obtain ⟨rfl, ranges, rfl⟩ := h
  simp only [writeToOStream, Bool.true_and, Bool.false_and, Bool.false_eq_true, if_false, if_true]
  split_ifs with hnull hshort hover
  · exact .check rfl
  · exact .check rfl
  · exact .error _
  · exact .check rfl
  · exact .ok ⟨rfl, rfl, ranges, rfl⟩

theorem asserting_noteCommand (k : ℕ) (st st' : BuildState σ) (h : SameBuild st st') :
    Asserting (SameAnswer SameBuild) (writeNoteCommand true k st)
      (writeNoteCommand false k st') := by
  rcases hk : st.builder.noteCmds[k]? with _ | nc
  · rw [writeNoteCommand_of_none hk, writeNoteCommand_of_none (by rw [h.commands.1, hk])]
    exact .ok ⟨rfl, h⟩
  rw [writeNoteCommand_of_some hk, writeNoteCommand_of_some (by rw [h.commands.1, hk])]
  exact (h.getNoteOffset _).bind_eq fun found => asserting_write _ _ _ _ (h.setNoteOffset k _)

theorem asserting_threadCommand (k : ℕ) (st st' : BuildState σ) (h : SameBuild st st') :
    Asserting (SameAnswer SameBuild) (writeThreadCommand true k st)
      (writeThreadCommand false k st') := by
  rcases hk : st.builder.threadCmds[k]? with _ | tc
  · rw [writeThreadCommand_of_none hk, writeThreadCommand_of_none (by rw [h.commands.2.1, hk])]
    exact .ok ⟨rfl, h⟩
  rw [writeThreadCommand_of_some hk, writeThreadCommand_of_some (by rw [h.commands.2.1, hk])]
  exact asserting_write _ _ _ _ h

theorem asserting_segmentCommand (k : ℕ) (st st' : BuildState σ) (h : SameBuild st st') :
    Asserting (SameAnswer SameBuild) (writeSegmentCommand true k st)
      (writeSegmentCommand false k st') := by
  rcases hk : st.builder.segmentCmds[k]? with _ | sc
  · rw [writeSegmentCommand_of_none hk, writeSegmentCommand_of_none (by rw [h.commands.2.2, hk])]
    exact .ok ⟨rfl, h⟩
  rw [writeSegmentCommand_of_some hk, writeSegmentCommand_of_some (by rw [h.commands.2.2, hk])]
  exact (h.getSegmentOffset _).bind_eq fun found =>
    asserting_write _ _ _ _ (h.setSegmentFileoff k _)

theorem asserting_notePayload (k : ℕ) (st st' : BuildState σ) (h : SameBuild st st') :
    Asserting (SameAnswer SameBuild) (writeNotePayload true k st)
      (writeNotePayload false k st') := by
  rcases hk : st.builder.noteCmds[k]? with _ | nc
  · rw [writeNotePayload_of_none hk, writeNotePayload_of_none (by rw [h.commands.1, hk])]
    exact .ok ⟨rfl, h⟩
  rw [writeNotePayload_of_some hk, writeNotePayload_of_some (by rw [h.commands.1, hk])]
  refine (h.getNoteOffset _).bind_eq fun found => ?_
  rcases found with _ | offset
  · exact .error _
  rcases nc.provider with _ | p
  · exact .error _
  · exact asserting_write _ _ _ _ (h.setPosition offset)

/-- The chunks come as far in either build. -/
theorem asserting_writeChunks (p : DataProvider) (chunkSize : UInt64) :
    ∀ (n : ℕ) (offset : UInt64) (st st' : BuildState σ), SameBuild st st' →
      Asserting (SameAnswer fun x y => x.1 = y.1 ∧ SameBuild x.2 y.2)
        (writeChunks true p chunkSize n offset st) (writeChunks false p chunkSize n offset st')
  | 0, offset, _, _, h => .ok ⟨rfl, rfl, h⟩
  | n + 1, offset, st, st', h => by
    unfold writeChunks
    rcases p.get offset chunkSize with _ | data
    · exact .ok ⟨rfl, rfl, h⟩
    simp only
    have hwrite := asserting_write (some data) chunkSize st st' h
    generalize writeToOStream true (some data) chunkSize st = x at hwrite
    generalize writeToOStream false (some data) chunkSize st' = y at hwrite
    cases hwrite with
    | check h => exact .check h
    | error e => exact .error e
    | @ok a b h =>
      obtain ⟨r, st₁⟩ := a
      obtain ⟨r', st₁'⟩ := b
      obtain ⟨rfl, h₁⟩ := h
      cases r with
      | false => exact .ok ⟨rfl, rfl, h₁⟩
      | true => exact asserting_writeChunks p chunkSize n _ st₁ st₁' h₁

theorem asserting_segmentData (p : DataProvider) (st st' : BuildState σ) (h : SameBuild st st') :
    Asserting (SameAnswer SameBuild) (writeSegmentData true p st)
      (writeSegmentData false p st') := by
  unfold writeSegmentData
  simp only []
  have hchunks := asserting_writeChunks p (min p.size maxChunkSize)
    (p.size / min p.size maxChunkSize).toNat 0 st st' h
  generalize writeChunks true p _ _ _ st = x at hchunks
  generalize writeChunks false p _ _ _ st' = y at hchunks
  cases hchunks with
  | check h => exact .check h
  | error e => exact .error e
  | @ok a b h =>
    obtain ⟨r, offset, st₁⟩ := a
    obtain ⟨r', offset', st₁'⟩ := b
    obtain ⟨rfl, rfl, h₁⟩ := h
    cases r with
    | false => exact .ok ⟨rfl, h₁⟩
    | true => exact asserting_write _ _ _ _ h₁

theorem asserting_segmentPayload (k : ℕ) (st st' : BuildState σ) (h : SameBuild st st') :
    Asserting (SameAnswer SameBuild) (writeSegmentPayload true k st)
      (writeSegmentPayload false k st') := by
  rcases hk : st.builder.segmentCmds[k]? with _ | sc
  · rw [writeSegmentPayload_of_none hk, writeSegmentPayload_of_none (by rw [h.commands.2.2, hk])]
    exact .ok ⟨rfl, h⟩
  rw [writeSegmentPayload_of_some hk, writeSegmentPayload_of_some (by rw [h.commands.2.2, hk])]
  rcases sc.provider with _ | p
  · exact .error _
  simp only [Option.elim_some, Bool.true_and, Bool.false_and, Bool.false_eq_true, if_false]
  by_cases hsize : (p.size != sc.cmd.filesize) = true
  · rw [if_pos hsize]
    exact .check rfl
  rw [if_neg hsize]
  refine (h.getSegmentOffset _).bind_eq fun found => ?_
  rcases found with _ | startOffset
  · exact .error _
  simp only [Option.elim_some]
  split_ifs
  · exact .error _
  · exact asserting_segmentData p _ _ (h.setPosition startOffset)

/-- A build keeps its ranges or it does not; the rest is the same. -/
theorem asserting_build (b : MachOCoreDumpBuilder) (s : σ) :
    Asserting (SameAnswer SameBuild) (build true ⟨b, s⟩) (build false ⟨b, s⟩) := by
  have hstart : SameButRanges (startOfBuild true b) (startOfBuild false b) := by
    refine ⟨b.writtenRanges, ?_⟩
    unfold startOfBuild finalizeLoadCommands
    simp only [if_true, Bool.false_eq_true, if_false]
    split_ifs <;> rfl
  rw [build_eq, build_eq]
  have hall := Checked.seq (asserting_write (σ := σ) (some b.finalizeLoadCommands.header.bytes)
      MachHeader64.sizeOf)
    (Checked.seq (Checked.forEach asserting_noteCommand
      (List.range b.finalizeLoadCommands.noteCmds.length))
    (Checked.seq (Checked.forEach asserting_threadCommand
      (List.range b.finalizeLoadCommands.threadCmds.length))
    (Checked.seq (Checked.forEach asserting_segmentCommand
      (List.range b.finalizeLoadCommands.segmentCmds.length))
    (Checked.seq (Checked.forEach asserting_notePayload
      (List.range b.finalizeLoadCommands.noteCmds.length))
    (Checked.forEach asserting_segmentPayload
      (List.range b.finalizeLoadCommands.segmentCmds.length))))))
  exact hall _ _ ⟨rfl, hstart⟩

/-- What a build returns, and what it leaves of the stream. -/
theorem asserting_buildStream (b : MachOCoreDumpBuilder) (s : σ) :
    Asserting Eq ((build true ⟨b, s⟩).map fun r => (r.1, r.2.stream))
      ((build false ⟨b, s⟩).map fun r => (r.1, r.2.stream)) :=
  (asserting_build b s).map fun x y hxy => by rw [hxy.1, hxy.2.stream]

end Write

/-! ## The walks -/

section Walks

variable {arch : Arch} {t : WalkTarget} {top : Bool} {lr : UInt64}

theorem asserting_derefPtr (ptr : UInt64) :
    Asserting Eq (t.derefPtr true ptr) (t.derefPtr false ptr) := by
  simp only [WalkTarget.derefPtr, Bool.true_and, Bool.false_and, Bool.false_eq_true, if_false]
  split_ifs
  · exact .check rfl
  · exact .refl _

/-- An assertion fails in one of the rounds, or they go on as without it. -/
theorem debug_frameLoop :
    ∀ (rounds frameIndex : ℕ) (bp : UInt64) (result : List UInt64),
      t.frameLoop true arch top lr rounds frameIndex bp result = some (.error .assertion)
        ∨ t.frameLoop true arch top lr rounds frameIndex bp result
          = t.frameLoop false arch top lr rounds frameIndex bp result
  | 0, _, _, _ => .inr rfl
  | rounds + 1, frameIndex, bp, result => by
    unfold WalkTarget.frameLoop
    simp only
    by_cases htop : (top && frameIndex == 0) = true
    · simp only [if_pos htop]
      by_cases hbp : bp = 0
      · simp only [if_pos hbp, or_true]
      · simp only [if_neg hbp]
        exact debug_frameLoop rounds _ _ _
    simp only [if_neg htop]
    rcases (asserting_derefPtr (t := t) (bp + 8)).cases with h | h
    · rw [h]
      exact .inl rfl
    rw [h]
    rcases t.derefPtr false (bp + 8) with e | nextInstructionPointer
    · exact .inr rfl
    simp only
    rcases (asserting_derefPtr (t := t) bp).cases with h | h
    · rw [h]
      exact .inl rfl
    rw [h]
    rcases t.derefPtr false bp with e | next
    · exact .inr rfl
    simp only
    by_cases hnext : next = 0
    · simp only [if_pos hnext, or_true]
    · simp only [if_neg hnext]
      exact debug_frameLoop rounds _ _ _

theorem WalkTarget.debug_walkStack (t : WalkTarget) (rounds : ℕ) (gpr : GPR arch) (exc : EXC arch) :
    t.walkStack true rounds gpr exc = some (.error .assertion)
      ∨ t.walkStack true rounds gpr exc = t.walkStack false rounds gpr exc := by
  unfold WalkTarget.walkStack
  by_cases hbp : gpr.basePointer = 0
  · simp only [if_pos hbp, or_true]
  · simp only [if_neg hbp]
    exact debug_frameLoop _ _ _ _

end Walks

section Dump

variable {arch : Arch}

namespace LiveDump

variable (live : LiveDump arch) (rounds : ℕ)

/-- The dump in a debug or a release build. -/
def inBuild (debug : Bool) : LiveDump arch := { live with debug := debug }

@[simp] theorem env_inBuild (debug : Bool) : (live.inBuild debug).env = live.env := rfl

@[simp] theorem debug_inBuild (debug : Bool) : (live.inBuild debug).debug = debug := rfl

@[simp] theorem addMemoryRanges_inBuild (debug : Bool) (s : Collected) :
    (live.inBuild debug).addMemoryRanges s = live.addMemoryRanges s := rfl

@[simp] theorem withWalks_inBuild (debug : Bool) (walks : GPR arch → EXC arch → List UInt64) :
    (live.inBuild debug).withWalks walks = live.withWalks walks := rfl

theorem debug_walkStack (modules : ModuleList) (gpr : GPR arch) (exc : EXC arch) :
    (live.inBuild true).walkStack rounds modules gpr exc = some (.error .assertion)
      ∨ (live.inBuild true).walkStack rounds modules gpr exc
        = (live.inBuild false).walkStack rounds modules gpr exc := by
  have hwalk := (live.walkTarget modules).debug_walkStack rounds gpr exc
  have hasks : ∀ debug, ((live.inBuild debug).walkTarget modules).asksForFrame gpr exc
      = (live.walkTarget modules).asksForFrame gpr exc := fun _ => rfl
  simp only [LiveDump.walkStack, env_inBuild, debug_inBuild, hasks]
  cases (live.walkTarget modules).asksForFrame gpr exc with
  | false => exact hwalk
  | true =>
    simp only [if_true]
    rcases lookupStackFrameForPC live.env.target.space.readMemory arch modules
      gpr.instructionPointer with e | found
    · exact .inr rfl
    · exact hwalk

theorem debug_addThread (s : Collected) (thread : TargetThread arch) :
    (live.inBuild true).addThread rounds s thread = some (.error .assertion)
      ∨ (live.inBuild true).addThread rounds s thread
        = (live.inBuild false).addThread rounds s thread := by
  simp only [LiveDump.addThread, env_inBuild, withWalks_inBuild]
  rcases thread.registers live.env.crash with _ | ⟨gpr, exc⟩
  · exact .inr rfl
  simp only
  rcases live.debug_walkStack rounds s.modules gpr exc with h | h
  · rw [h]
    exact .inl rfl
  · rw [h]
    exact .inr rfl

theorem debug_addThreads :
    ∀ (threads : List (TargetThread arch)) (s : Collected),
      (live.inBuild true).addThreads rounds threads s = some (.error .assertion)
        ∨ (live.inBuild true).addThreads rounds threads s
          = (live.inBuild false).addThreads rounds threads s
  | [], _ => .inr rfl
  | thread :: threads, s => by
    unfold LiveDump.addThreads
    rcases live.debug_addThread rounds s thread with h | h
    · rw [h]
      exact .inl rfl
    rw [h]
    rcases (live.inBuild false).addThread rounds s thread with _ | e | s'
    · exact .inr rfl
    · exact .inr rfl
    · exact debug_addThreads threads s'

theorem debug_prepare :
    (live.inBuild true).prepare rounds = some (.error .assertion)
      ∨ (live.inBuild true).prepare rounds = (live.inBuild false).prepare rounds := by
  simp only [LiveDump.prepare, LiveDump.addThreadsToCore, env_inBuild, debug_inBuild,
    addMemoryRanges_inBuild]
  rcases live.env.target.threads with _ | threads
  · simp only [Option.map_some, Except.bind, or_true]
  simp only
  rcases live.debug_addThreads rounds threads ⟨new arch, live.env.target.modules, [], []⟩ with h | h
  · rw [h]
    simp only [Option.map_some, Except.map, Except.bind, true_or]
  rw [h]
  rcases (live.inBuild false).addThreads rounds threads
    ⟨new arch, live.env.target.modules, [], []⟩ with _ | e | s
  · simp only [Option.map_none, or_true]
  · simp only [Option.map_some, Except.map, Except.bind, or_true]
  simp only [Option.map_some, Except.map, Except.bind]
  rcases (asserting_addPayloads live.env.target.nAddrableBits
    (live.addMemoryRanges s).modules (live.addMemoryRanges s).threadIds).cases with h | h
  · rw [h]
    exact .inl rfl
  · rw [h]
    exact .inr rfl

end LiveDump

theorem asserting_createModuleInfos (t : TargetReads) :
    Asserting Eq (createModuleInfos true t) (createModuleInfos false t) := by
  unfold createModuleInfos
  rcases t.taskInfo with _ | dyldInfoAddress
  · exact .refl _
  simp only
  rcases t.imageInfo dyldInfoAddress with _ | imageInfo
  · exact .refl _
  simp only
  rcases t.array imageInfo.infoArray (arraySize imageInfo) with _ | dyldInfosBytes
  · exact .refl _
  simp only [true_and, Bool.false_eq_true, false_and, if_false]
  by_cases hversion : imageInfo.version < 9
  · rw [if_pos hversion]
    exact .check rfl
  · rw [if_neg hversion]
    exact .refl _

/-- The list of modules is created the same. -/
theorem asserting_create (t : TargetReads) :
    Asserting Eq (ModuleList.create true t) (ModuleList.create false t) := by
  rcases (asserting_createModuleInfos t).cases with h | h
  · have hfails : ModuleList.create true t = .error .assertion := by
      unfold ModuleList.create
      split
      · rename_i e he
        rw [h] at he
        rw [Except.error.inj he]
      · rename_i moduleInfos hm
        rw [h] at hm
        cases hm
    rw [hfails]
    exact .check rfl
  · have hsame : ModuleList.create true t = ModuleList.create false t := by
      unfold ModuleList.create
      split <;> rename_i htrue <;> split <;> rename_i hfalse <;> rw [h, hfalse] at htrue
      · exact congrArg _ (Except.error.inj htrue).symm
      · cases htrue
      · cases htrue
      · simp only [Except.ok.inj htrue]
    rw [hsame]
    exact .refl _

namespace TaskDump

variable (task : TaskDump arch) (rounds : ℕ)

/-- The dump in a debug or a release build. -/
def inBuild (debug : Bool) : TaskDump arch := { task with live := task.live.inBuild debug }

@[simp] theorem live_inBuild (debug : Bool) :
    (task.inBuild debug).live = task.live.inBuild debug := rfl

@[simp] theorem reads_inBuild (debug : Bool) : (task.inBuild debug).reads = task.reads := rfl

@[simp] theorem withModules_inBuild (debug : Bool) (modules : ModuleList) :
    (task.inBuild debug).withModules modules = (task.withModules modules).inBuild debug := rfl

theorem debug_prepare :
    (task.inBuild true).prepare rounds = some (.error .assertion)
      ∨ (task.inBuild true).prepare rounds = (task.inBuild false).prepare rounds := by
  simp only [TaskDump.prepare, live_inBuild, LiveDump.debug_inBuild, reads_inBuild,
    withModules_inBuild]
  rcases (asserting_create task.reads).cases with h | h
  · rw [h]
    exact .inl rfl
  rw [h]
  rcases ModuleList.create false task.reads with e | modules
  · exact .inr rfl
  · exact (task.withModules modules).debug_prepare rounds

/-- On any stream, and after any number of rounds, a debug build of a dump has failed an assertion,
or it is the release build. -/
theorem debug_taskDump {σ : Type} [OStream σ] (s : σ) :
    (task.inBuild true).miniDumpWriteDumpImpl rounds s = some (.error .assertion)
      ∨ (task.inBuild true).miniDumpWriteDumpImpl rounds s
        = (task.inBuild false).miniDumpWriteDumpImpl rounds s := by
  have henv : ∀ debug, (task.inBuild debug).live.env = task.live.env := fun _ => rfl
  have hdebug : ∀ debug, (task.inBuild debug).live.debug = debug := fun _ => rfl
  simp only [TaskDump.miniDumpWriteDumpImpl, DumpEnv.writePrepared, henv, hdebug]
  cases task.live.env.pidForTask with
  | false => exact .inr rfl
  | true =>
  simp only [Bool.not_true, Bool.false_eq_true, if_false]
  rcases OStream.setSize 0 s with ⟨_ | _, s₀⟩
  · exact .inr rfl
  cases task.live.env.suspended with
  | false => exact .inr rfl
  | true =>
  simp only [Bool.not_true, Bool.false_eq_true, if_false]
  rcases task.debug_prepare rounds with h | h
  · rw [h]
    exact .inl rfl
  rw [h]
  rcases (task.inBuild false).prepare rounds with _ | result
  · exact .inr (by rw [Option.bind_none, Option.bind_none])
  rw [Option.bind_some, Option.bind_some]
  rcases result with e | _ | b
  · exact .inr rfl
  · exact .inr rfl
  simp only
  rcases (asserting_buildStream b s₀).cases with h | h
  · rw [h]
    exact .inl rfl
  · rw [h]
    exact .inr rfl

end TaskDump

end Dump

end MacMiniDump
