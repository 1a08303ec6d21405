import MacMiniDump.CoreBacktrace
import MacMiniDump.UnwindInfo

/-!
# A dump with the walk in it

So far what `WalkStack` returns was given with the target. Here the loop over the threads runs it,
on the memory of the target and with the modules as they are marked by then. It may never return,
and it may fault, and where neither happens the marks are of no matter: a dump succeeds with the
walk in it exactly when it does with lists that the walk returns on the modules as they were
(`liveWriteDump_iff`). So what is known of dumps with given lists holds of these.
-/

namespace MacMiniDump

open MachOCoreDumpBuilder DisjointIntervalSet

variable {arch : Arch}

namespace WalkTarget

/-- Is the frame of the top function to be looked up? -/
def asksForFrame (t : WalkTarget) : {arch : Arch} → GPR arch → EXC arch → Bool
  | .x86_64, _, _ => false
  | .arm64, gpr, exc =>
    gpr.basePointer != 0 && !(exceptionMightBeControlTransferRelated exc
      && t.inNonExecutable gpr.instructionPointer && t.isPreviousInstructionBLKind gpr.linkRegister)

end WalkTarget

namespace DumpEnv

variable {σ : Type} [OStream σ]

/-- `MiniDumpWriteDumpImpl` with what is built in it, `none` when that has not come to its end. -/
def writePrepared (env : DumpEnv arch) (debug : Bool)
    (prepared : Option (Except Fault (Option MachOCoreDumpBuilder))) (s : σ) :
    Option (Except Fault (Bool × σ)) :=
  if !env.pidForTask then some (.ok (false, s))
  else
    match OStream.setSize 0 s with
    | (false, s) => some (.ok (false, s))
    | (true, s) =>
      if !env.suspended then some (.ok (false, s))
      else
        prepared.bind fun
          | .error e => some (.error e)
          | .ok none => some (.ok (false, s))
          | .ok (some b) => some ((build debug ⟨b, s⟩).map fun r => (r.1, r.2.stream))

/-- A dump that succeeds has been prepared. -/
theorem exists_of_writePrepared {env : DumpEnv arch} {debug : Bool}
    {prepared : Option (Except Fault (Option MachOCoreDumpBuilder))} {s s' : σ}
    (h : env.writePrepared debug prepared s = some (.ok (true, s'))) :
    ∃ b, prepared = some (.ok (some b)) := by
  unfold writePrepared at h
  split at h
  · simp at h
  split at h
  · simp at h
  split at h
  · simp at h
  obtain ⟨r, rfl, h⟩ := Option.bind_eq_some_iff.1 h
  rcases r with e | _ | b
  · simp at h
  · simp at h
  · exact ⟨b, rfl⟩

end DumpEnv

/-- A dump that walks the stacks itself; what `env` says of that is not used. -/
structure LiveDump (arch : Arch) where
  env : DumpEnv arch
  /-- the `xpaci` instruction -/
  xpaci : UInt64 → UInt64
  debug : Bool

namespace LiveDump

variable (live : LiveDump arch)

/-- What a walk asks the target for. What is looked up stands for itself where it does not fault. -/
def walkTarget (modules : ModuleList) : WalkTarget where
  read := live.env.target.space.readMemory
  memoryRegions := live.env.target.memoryRegions
  xpaci := live.xpaci
  lookupStackFrameForPC pc :=
    match lookupStackFrameForPC live.env.target.space.readMemory arch modules pc with
    | .ok result => result
    | .error _ => .unknown

def walkStack (rounds : ℕ) (modules : ModuleList) (gpr : GPR arch) (exc : EXC arch) :
    Option (Except Fault (List UInt64)) :=
  let t := live.walkTarget modules
  if t.asksForFrame gpr exc then
    match lookupStackFrameForPC live.env.target.space.readMemory arch modules
      gpr.instructionPointer with
    | .error e => some (.error e)
    | .ok _ => t.walkStack live.debug rounds gpr exc
  else t.walkStack live.debug rounds gpr exc

/-- The dump with these lists for the call stacks. -/
def withWalks (walks : GPR arch → EXC arch → List UInt64) : DumpEnv arch :=
  { live.env with target := { live.env.target with walkStack := walks } }

/-- The body of the loop over the threads. -/
def addThread (rounds : ℕ) (s : Collected) (thread : TargetThread arch) :
    Option (Except Fault Collected) :=
  match thread.registers live.env.crash with
  | none => some (.ok s)
  | some (gpr, exc) =>
    (live.walkStack rounds s.modules gpr exc).map fun result => result.map fun callStack =>
      (live.withWalks fun _ _ => callStack).target.addThread live.env.crash s thread

def addThreads (rounds : ℕ) : List (TargetThread arch) → Collected → Option (Except Fault Collected)
  | [], s => some (.ok s)
  | thread :: threads, s =>
    match live.addThread rounds s thread with
    | none => none
    | some (.error e) => some (.error e)
    | some (.ok s) => addThreads rounds threads s

/-- The loop over the merged ranges. -/
def addMemoryRanges (s : Collected) : Collected :=
  { s with
    builder := (forEachArgs s.memoryRangesToAdd).foldl
      (fun b r => (live.env.target.addSegmentCommandFromProcessMemory r.1 r.2 b).2) s.builder }

def addThreadsToCore (rounds : ℕ) (b : MachOCoreDumpBuilder) :
    Option (Except Fault (Option Collected)) :=
  match live.env.target.threads with
  | none => some (.ok none)
  | some threads =>
    (live.addThreads rounds threads ⟨b, live.env.target.modules, [], []⟩).map fun result =>
      result.map fun s => some (live.addMemoryRanges s)

def prepare (rounds : ℕ) : Option (Except Fault (Option MachOCoreDumpBuilder)) :=
  (live.addThreadsToCore rounds (new arch)).map fun result => result.bind fun
    | none => .ok none
    | some s => addPayloads live.debug live.env.target.nAddrableBits s.modules s.threadIds
        (addNotesToCore s.builder)

variable {σ : Type} [OStream σ]

/-- `MiniDumpWriteDumpImpl`, `none` when a walk has not come to its end after so many rounds. -/
def miniDumpWriteDumpImpl (rounds : ℕ) (s : σ) : Option (Except Fault (Bool × σ)) :=
  live.env.writePrepared live.debug (live.prepare rounds) s

end LiveDump

section Rounds

variable {t : WalkTarget} {debug : Bool}

theorem WalkTarget.walkStack_of_le {gpr : GPR arch} {exc : EXC arch}
    {r : Except Fault (List UInt64)} {rounds rounds' : ℕ} (hle : rounds ≤ rounds')
    (h : t.walkStack debug rounds gpr exc = some r) :
    t.walkStack debug rounds' gpr exc = some r := by
  by_cases hbp : gpr.basePointer = 0
  · simp only [walkStack, hbp, if_true] at h ⊢
    exact h
  cases rounds with
  | zero => simp [walkStack, hbp, frameLoop] at h
  | succ rounds =>
    obtain ⟨k, rfl⟩ : ∃ k, rounds' = k + 1 := ⟨rounds' - 1, by omega⟩
    rw [walkStack_eq hbp] at h ⊢
    split_ifs at h ⊢
    all_goals
      obtain ⟨r', hr', rfl⟩ := Option.map_eq_some_iff.1 h
      rw [chase_of_le (by omega) hr', Option.map_some]

variable {live : LiveDump arch} {modules : ModuleList} {gpr : GPR arch} {exc : EXC arch}

theorem LiveDump.walkStack_of_le {r : Except Fault (List UInt64)} {rounds rounds' : ℕ}
    (hle : rounds ≤ rounds') (h : live.walkStack rounds modules gpr exc = some r) :
    live.walkStack rounds' modules gpr exc = some r := by
  simp only [LiveDump.walkStack] at h ⊢
  split_ifs at h ⊢
  · split at h
    · exact h
    · exact WalkTarget.walkStack_of_le hle h
  · exact WalkTarget.walkStack_of_le hle h

end Rounds

section Marks

variable {live : LiveDump arch} {gpr : GPR arch} {exc : EXC arch}

/-- A mark changes nothing that the lookup uses. -/
theorem lookupStackFrameForPC_markAll (read : UInt64 → UInt64 → Option (List UInt8))
    (modules : ModuleList) (addresses : List UInt64) (pc : UInt64) :
    lookupStackFrameForPC read arch (modules.markAll addresses) pc
      = lookupStackFrameForPC read arch modules pc := by
  have hfind := ModuleList.getModuleInfoForAddress_markAll pc
    (fun mi => (mi.searchUnwindInfo, mi.loadAddress)) (fun _ => rfl) addresses modules
  cases arch with
  | x86_64 => rfl
  | arm64 =>
    simp only [lookupStackFrameForPC, lookupStackFrameForPCImplArm64]
    rcases hm : modules.getModuleInfoForAddress pc with _ | mi <;>
      rcases hm' : (modules.markAll addresses).getModuleInfoForAddress pc with _ | mi' <;>
      rw [hm, hm'] at hfind
    · simp at hfind
    · simp at hfind
    · simp only [Option.map_some, Option.some.injEq, Prod.mk.injEq] at hfind
      simp only [hfind]

theorem LiveDump.walkStack_markAll (rounds : ℕ) (modules : ModuleList) (addresses : List UInt64) :
    live.walkStack rounds (modules.markAll addresses) gpr exc
      = live.walkStack rounds modules gpr exc := by
  have htarget : live.walkTarget (modules.markAll addresses) = live.walkTarget modules := by
    unfold LiveDump.walkTarget
    simp only [lookupStackFrameForPC_markAll]
  unfold LiveDump.walkStack
  rw [htarget, lookupStackFrameForPC_markAll]

end Marks

/-! ## Given lists -/

namespace LiveDump

variable (live : LiveDump arch)

/-- The lists are what the walks return, on the modules without marks. -/
def Walks (walks : GPR arch → EXC arch → List UInt64) : Prop :=
  ∀ thread ∈ live.env.target.threads.getD [], ∀ gpr exc,
    thread.registers live.env.crash = some (gpr, exc) →
      ∃ rounds, live.walkStack rounds live.env.target.modules gpr exc = some (.ok (walks gpr exc))

/-- What the walks return within so many rounds. -/
def returned (rounds : ℕ) (gpr : GPR arch) (exc : EXC arch) : List UInt64 :=
  match live.walkStack rounds live.env.target.modules gpr exc with
  | some (.ok callStack) => callStack
  | _ => []

variable {live} {s s' : Collected} {thread : TargetThread arch} {rounds : ℕ}

theorem addThread_congr {walks walks' : GPR arch → EXC arch → List UInt64}
    (h : ∀ gpr exc, thread.registers live.env.crash = some (gpr, exc) →
      walks gpr exc = walks' gpr exc) :
    (live.withWalks walks).target.addThread live.env.crash s thread
      = (live.withWalks walks').target.addThread live.env.crash s thread := by
  unfold Target.addThread
  rcases hregs : thread.registers live.env.crash with _ | ⟨gpr, exc⟩
  · rfl
  · have hwalks : (live.withWalks walks).target.walkStack gpr exc
        = (live.withWalks walks').target.walkStack gpr exc := h gpr exc hregs
    simp only [hwalks]
    rfl

/-- One thread: the walk returns, and the list it returns is what is added. -/
theorem addThread_eq_ok_iff {addresses : List UInt64}
    (hs : s.modules = live.env.target.modules.markAll addresses) :
    live.addThread rounds s thread = some (.ok s')
      ↔ (∀ gpr exc, thread.registers live.env.crash = some (gpr, exc) →
          live.walkStack rounds live.env.target.modules gpr exc
            = some (.ok (live.returned rounds gpr exc)))
        ∧ (live.withWalks (live.returned rounds)).target.addThread live.env.crash s thread
          = s' := by
  unfold addThread
  rcases hregs : thread.registers live.env.crash with _ | ⟨gpr, exc⟩
  · unfold Target.addThread
    simp [hregs]
  simp only [hs, walkStack_markAll]
  have hthis : ∀ walks : GPR arch → EXC arch → List UInt64,
      (live.withWalks fun _ _ => walks gpr exc).target.addThread live.env.crash s thread
        = (live.withWalks walks).target.addThread live.env.crash s thread := by
    intro walks
    refine addThread_congr fun gpr' exc' h => ?_
    rw [hregs, Option.some.injEq, Prod.mk.injEq] at h
    rw [h.1, h.2]
  have hreturned : ∀ callStack, live.walkStack rounds live.env.target.modules gpr exc
      = some (.ok callStack) → callStack = live.returned rounds gpr exc := by
    intro callStack h
    rw [returned, h]
  constructor
  · intro h
    obtain ⟨r, hr, hmap⟩ := Option.map_eq_some_iff.1 h
    rcases r with e | callStack
    · simp [Except.map] at hmap
    obtain rfl := hreturned callStack hr
    refine ⟨fun gpr' exc' h' => ?_, ?_⟩
    · rw [Option.some.injEq, Prod.mk.injEq] at h'
      rw [← h'.1, ← h'.2]
      exact hr
    · rw [← hthis]
      exact Except.ok.inj hmap
  · rintro ⟨hall, rfl⟩
    rw [hall gpr exc rfl, Option.map_some, Except.map, hthis]

/-- The loop is that over given lists when the walks return these. -/
theorem addThreads_eq_ok_iff :
    ∀ (threads : List (TargetThread arch)) {s : Collected} {addresses : List UInt64},
      s.modules = live.env.target.modules.markAll addresses →
      (live.addThreads rounds threads s = some (.ok s')
        ↔ (∀ thread ∈ threads, ∀ gpr exc, thread.registers live.env.crash = some (gpr, exc) →
            live.walkStack rounds live.env.target.modules gpr exc
              = some (.ok (live.returned rounds gpr exc)))
          ∧ threads.foldl
              ((live.withWalks (live.returned rounds)).target.addThread live.env.crash) s = s')
  | [], s, _, _ => by simp [addThreads]
  | thread :: threads, s, addresses, hs => by
    obtain ⟨s₁, hs₁⟩ : ∃ s₁, (live.withWalks (live.returned rounds)).target.addThread
        live.env.crash s thread = s₁ := ⟨_, rfl⟩
    have hmodules : s₁.modules = live.env.target.modules.markAll (addresses
        ++ (live.withWalks (live.returned rounds)).target.callStackAddresses live.env.crash
          [thread]) := by
      rw [ModuleList.markAll_append, ← hs, ← hs₁]
      exact foldl_addThread_modules _ _ [thread] s
    have ih := addThreads_eq_ok_iff threads hmodules
    rw [List.forall_mem_cons, List.foldl_cons, hs₁, and_assoc, ← ih]
    have hstep : ∀ s', live.addThread rounds s thread = some (.ok s') ↔ _ :=
      fun s' => addThread_eq_ok_iff hs
    simp only [hs₁] at hstep
    rw [addThreads]
    constructor
    · intro h
      rcases hr : live.addThread rounds s thread with _ | e | s₂
      · simp [hr] at h
      · simp [hr] at h
      · obtain ⟨hall, rfl⟩ := (hstep s₂).1 hr
        simp only [hr] at h
        exact ⟨hall, h⟩
    · rintro ⟨hall, h⟩
      rw [(hstep s₁).2 ⟨hall, rfl⟩]
      exact h

/-- Walks that return do so within one number of rounds. -/
theorem exists_rounds {walks : GPR arch → EXC arch → List UInt64} :
    ∀ {threads : List (TargetThread arch)}, (∀ thread ∈ threads, ∀ gpr exc,
        thread.registers live.env.crash = some (gpr, exc) → ∃ rounds,
          live.walkStack rounds live.env.target.modules gpr exc = some (.ok (walks gpr exc))) →
      ∃ rounds, ∀ thread ∈ threads, ∀ gpr exc, thread.registers live.env.crash = some (gpr, exc) →
        live.walkStack rounds live.env.target.modules gpr exc = some (.ok (walks gpr exc))
  | [], _ => ⟨0, by simp⟩
  | thread :: threads, h => by
    obtain ⟨hthread, hthreads⟩ := List.forall_mem_cons.1 h
    obtain ⟨m, hm⟩ := exists_rounds hthreads
    obtain ⟨k, hk⟩ : ∃ k, ∀ gpr exc, thread.registers live.env.crash = some (gpr, exc) →
        live.walkStack k live.env.target.modules gpr exc = some (.ok (walks gpr exc)) := by
      rcases hregs : thread.registers live.env.crash with _ | ⟨gpr, exc⟩
      · exact ⟨0, by simp⟩
      · obtain ⟨k, hk⟩ := hthread gpr exc hregs
        refine ⟨k, fun gpr' exc' h' => ?_⟩
        rw [Option.some.injEq, Prod.mk.injEq] at h'
        rw [← h'.1, ← h'.2]
        exact hk
    refine ⟨max k m, List.forall_mem_cons.2 ⟨fun gpr exc h => ?_, fun t ht gpr exc h => ?_⟩⟩
    · exact walkStack_of_le (le_max_left k m) (hk gpr exc h)
    · exact walkStack_of_le (le_max_right k m) (hm t ht gpr exc h)

theorem addThreadsToCore_withWalks (walks : GPR arch → EXC arch → List UInt64)
    (b : MachOCoreDumpBuilder) :
    (live.withWalks walks).target.addThreadsToCore live.env.crash b
      = live.env.target.threads.map fun threads => live.addMemoryRanges
        (threads.foldl ((live.withWalks walks).target.addThread live.env.crash)
          ⟨b, live.env.target.modules, [], []⟩) := rfl

theorem modules_start (b : MachOCoreDumpBuilder) :
    (⟨b, live.env.target.modules, [], []⟩ : Collected).modules
      = live.env.target.modules.markAll [] := rfl

/-- Where the loop returns, it is over the lists that the walks returned. -/
theorem returned_of_addThreadsToCore {b : MachOCoreDumpBuilder} {result : Option Collected}
    (h : live.addThreadsToCore rounds b = some (.ok result)) :
    (∀ thread ∈ live.env.target.threads.getD [], ∀ gpr exc,
        thread.registers live.env.crash = some (gpr, exc) →
          live.walkStack rounds live.env.target.modules gpr exc
            = some (.ok (live.returned rounds gpr exc)))
      ∧ (live.withWalks (live.returned rounds)).target.addThreadsToCore live.env.crash b
        = result := by
  rw [addThreadsToCore_withWalks]
  unfold addThreadsToCore at h
  rcases hthreads : live.env.target.threads with _ | threads <;> rw [hthreads] at h
  · simp only [Option.some.injEq, Except.ok.injEq] at h
    exact ⟨by simp, h⟩
  obtain ⟨r, hr, hmap⟩ := Option.map_eq_some_iff.1 h
  rcases r with e | s'
  · simp [Except.map] at hmap
  obtain ⟨hall, rfl⟩ := (addThreads_eq_ok_iff threads (modules_start b)).1 hr
  exact ⟨hall, Except.ok.inj hmap⟩

/-- Where the walks return, so does the loop. -/
theorem exists_addThreadsToCore {walks : GPR arch → EXC arch → List UInt64}
    (hwalks : live.Walks walks) (b : MachOCoreDumpBuilder) :
    ∃ rounds, live.addThreadsToCore rounds b
      = some (.ok ((live.withWalks walks).target.addThreadsToCore live.env.crash b)) := by
  rw [addThreadsToCore_withWalks]
  unfold Walks at hwalks
  unfold addThreadsToCore
  rcases hthreads : live.env.target.threads with _ | threads <;> rw [hthreads] at hwalks
  · exact ⟨0, rfl⟩
  obtain ⟨rounds, hrounds⟩ := exists_rounds hwalks
  have heq : ∀ thread ∈ threads, ∀ gpr exc,
      thread.registers live.env.crash = some (gpr, exc) →
        live.returned rounds gpr exc = walks gpr exc := by
    intro thread ht gpr exc h
    rw [returned, hrounds thread ht gpr exc h]
  have hfold := List.foldl_ext
    ((live.withWalks (live.returned rounds)).target.addThread live.env.crash)
    ((live.withWalks walks).target.addThread live.env.crash)
    ⟨b, live.env.target.modules, [], []⟩ (l := threads)
    fun s thread ht => addThread_congr (heq thread ht)
  refine ⟨rounds, ?_⟩
  simp only
  rw [(addThreads_eq_ok_iff threads (modules_start b)).2 ⟨fun thread ht gpr exc h => ?_, hfold⟩]
  · rfl
  · rw [heq thread ht gpr exc h]
    exact hrounds thread ht gpr exc h

theorem prepare_eq {walks : GPR arch → EXC arch → List UInt64}
    (h : live.addThreadsToCore rounds (new arch) = some (.ok (some s)))
    (h' : (live.withWalks walks).target.addThreadsToCore live.env.crash (new arch) = some s) :
    live.prepare rounds = some ((live.withWalks walks).prepare live.debug) := by
  have hcrash : (live.withWalks walks).crash = live.env.crash := rfl
  rw [prepare, h, DumpEnv.prepare, hcrash, h']
  rfl

theorem exists_of_prepare {b : MachOCoreDumpBuilder}
    (h : live.prepare rounds = some (.ok (some b))) :
    ∃ s, live.addThreadsToCore rounds (new arch) = some (.ok (some s)) := by
  obtain ⟨r, hr, hbind⟩ := Option.map_eq_some_iff.1 h
  rcases r with e | _ | s
  · simp [Except.bind] at hbind
  · simp [Except.bind] at hbind
  · exact ⟨s, hr⟩

variable {σ : Type} [OStream σ] {f f' : σ}

theorem writeDump_of_prepare {walks : GPR arch → EXC arch → List UInt64}
    (h : live.prepare rounds = some ((live.withWalks walks).prepare live.debug)) :
    live.miniDumpWriteDumpImpl rounds f
      = some ((live.withWalks walks).miniDumpWriteDumpImpl live.debug f) := by
  unfold miniDumpWriteDumpImpl DumpEnv.writePrepared DumpEnv.miniDumpWriteDumpImpl
  rw [h]
  have hpid : (live.withWalks walks).pidForTask = live.env.pidForTask := rfl
  have hsuspended : (live.withWalks walks).suspended = live.env.suspended := rfl
  rw [hpid, hsuspended]
  cases live.env.pidForTask with
  | false => rfl
  | true =>
    rcases OStream.setSize 0 f with ⟨_ | _, f⟩
    · rfl
    cases live.env.suspended with
    | false => rfl
    | true => rcases (live.withWalks walks).prepare live.debug with e | _ | b <;> rfl

/-- A dump that succeeds is one with the lists that the walks returned. -/
theorem returned_of_writeDump (h : live.miniDumpWriteDumpImpl rounds f = some (.ok (true, f'))) :
    live.Walks (live.returned rounds)
      ∧ live.prepare rounds = some ((live.withWalks (live.returned rounds)).prepare live.debug)
      ∧ (live.withWalks (live.returned rounds)).miniDumpWriteDumpImpl live.debug f
        = .ok (true, f') := by
  obtain ⟨b, hb⟩ := DumpEnv.exists_of_writePrepared h
  obtain ⟨s, hs⟩ := exists_of_prepare hb
  obtain ⟨hwalks, hcore⟩ := returned_of_addThreadsToCore hs
  have hprepare := prepare_eq hs hcore
  rw [writeDump_of_prepare hprepare, Option.some.injEq] at h
  exact ⟨fun thread ht gpr exc hregs => ⟨rounds, hwalks thread ht gpr exc hregs⟩, hprepare, h⟩

end LiveDump

/-- A dump with the walk in it succeeds exactly when it does with lists that the walk returns for
the threads, and it writes the same. -/
theorem liveWriteDump_iff (live : LiveDump arch) {σ : Type} [OStream σ] (f f' : σ) :
    (∃ rounds, live.miniDumpWriteDumpImpl rounds f = some (.ok (true, f')))
      ↔ ∃ walks, live.Walks walks
        ∧ (live.withWalks walks).miniDumpWriteDumpImpl live.debug f = .ok (true, f') := by
  constructor
  · rintro ⟨rounds, h⟩
    obtain ⟨hwalks, -, hdump⟩ := LiveDump.returned_of_writeDump h
    exact ⟨_, hwalks, hdump⟩
  · rintro ⟨walks, hwalks, h⟩
    obtain ⟨b, st, hb, -, -⟩ := writeDump_eq h
    obtain ⟨s, -, -, -, hs, -⟩ := prepare_holds hb
    obtain ⟨rounds, hcore⟩ := LiveDump.exists_addThreadsToCore hwalks (new arch)
    have hs' : (live.withWalks walks).target.addThreadsToCore live.env.crash (new arch) = some s :=
      hs
    rw [hs'] at hcore
    exact ⟨rounds, by rw [LiveDump.writeDump_of_prepare (LiveDump.prepare_eq hcore hs'), h]⟩

/-! ## When the loop returns -/

/-- The walk ends: nothing it looks up faults, and the chain from the base pointer comes to zero. -/
def LiveDump.WalkEnds (live : LiveDump arch) (gpr : GPR arch) (exc : EXC arch) : Prop :=
  let t := live.walkTarget live.env.target.modules
  (t.asksForFrame gpr exc = true → ∃ result, lookupStackFrameForPC live.env.target.space.readMemory
    arch live.env.target.modules gpr.instructionPointer = .ok result)
    ∧ (gpr.basePointer = 0 ∨ t.ChainEnds live.debug gpr.basePointer)

theorem LiveDump.exists_walkStack_iff {live : LiveDump arch} {gpr : GPR arch} {exc : EXC arch} :
    (∃ rounds callStack,
        live.walkStack rounds live.env.target.modules gpr exc = some (.ok callStack))
      ↔ live.WalkEnds gpr exc := by
  have hends : (∃ rounds callStack, (live.walkTarget live.env.target.modules).walkStack live.debug
        rounds gpr exc = some (.ok callStack))
      ↔ gpr.basePointer = 0
        ∨ (live.walkTarget live.env.target.modules).ChainEnds live.debug gpr.basePointer := by
    by_cases hbp : gpr.basePointer = 0
    · simp [WalkTarget.walkStack, hbp]
    · rw [or_iff_right hbp]
      constructor
      · rintro ⟨rounds, callStack, h⟩
        exact WalkTarget.chainEnds_of_walkStack hbp h
      · exact WalkTarget.walkStack_of_chainEnds exc hbp
  unfold LiveDump.WalkEnds LiveDump.walkStack
  simp only [← hends]
  split_ifs with hask
  · rcases lookupStackFrameForPC live.env.target.space.readMemory arch live.env.target.modules
      gpr.instructionPointer with e | result
    · simp [hask]
    · simp [hask]
  · simp [hask]

/-- With the walk in it, the loop over the threads returns exactly when the walk of every thread
ends. One thread with a chain that does not end keeps it from returning. -/
theorem liveAddThreadsToCore_returns_iff (live : LiveDump arch) (b : MachOCoreDumpBuilder) :
    (∃ rounds result, live.addThreadsToCore rounds b = some (.ok result))
      ↔ ∀ thread ∈ live.env.target.threads.getD [], ∀ gpr exc,
        thread.registers live.env.crash = some (gpr, exc) → live.WalkEnds gpr exc := by
  constructor
  · rintro ⟨rounds, result, h⟩ thread ht gpr exc hregs
    obtain ⟨hwalks, -⟩ := LiveDump.returned_of_addThreadsToCore h
    exact LiveDump.exists_walkStack_iff.1 ⟨rounds, _, hwalks thread ht gpr exc hregs⟩
  · intro h
    have hex : ∀ gpr exc, ∃ callStack, live.WalkEnds gpr exc → ∃ rounds,
        live.walkStack rounds live.env.target.modules gpr exc = some (.ok callStack) := by
      intro gpr exc
      by_cases hends : live.WalkEnds gpr exc
      · obtain ⟨rounds, callStack, hr⟩ := LiveDump.exists_walkStack_iff.2 hends
        exact ⟨callStack, fun _ => ⟨rounds, hr⟩⟩
      · exact ⟨[], fun h => absurd h hends⟩
    choose walks hwalks using hex
    have hall : live.Walks walks := fun thread ht gpr exc hregs =>
      hwalks gpr exc (h thread ht gpr exc hregs)
    obtain ⟨rounds, hr⟩ := LiveDump.exists_addThreadsToCore hall b
    exact ⟨rounds, _, hr⟩

section Code

variable {live : LiveDump arch} {rounds : ℕ} {b : MachOCoreDumpBuilder} {f f' : FileStream}

theorem mem_callStackAddresses {target : Target arch} {crash : Option (CrashContext arch)}
    {threads : List (TargetThread arch)} {thread : TargetThread arch} {gpr : GPR arch}
    {exc : EXC arch} {ip : UInt64} (ht : thread ∈ threads)
    (hregs : thread.registers crash = some (gpr, exc)) (hip : ip ∈ target.walkStack gpr exc) :
    ip ∈ target.callStackAddresses crash threads :=
  List.mem_flatMap.2 ⟨thread, ht, by rw [hregs]; exact hip⟩

/-- The surroundings of an address on a call stack that is in a region are part of a run. -/
theorem exists_run_around {target : Target arch} {crash : Option (CrashContext arch)}
    {threads : List (TargetThread arch)} {ip : UInt64}
    (hip : ip ∈ target.callStackAddresses crash threads) (hfit : surroundingsFit ip = true)
    (hread : target.space.Readable ip) :
    ∃ s e, target.Run crash threads s e ∧ s ≤ ip - surroundingsRange
      ∧ (ip - surroundingsRange).toNat + 513 ≤ e.toNat := by
  have hne : ip ≠ lastGuarded := by
    obtain ⟨r, hr, hin, -⟩ := hread
    rintro rfl
    exact absurd (lt_topStart_of_contains hr hin) (by decide)
  obtain ⟨hlt, htop⟩ := surroundings_lt hfit hne
  obtain ⟨s, e, hrun, hle, hend⟩ := exists_run_of_request
    ((mem_requests target crash).2 (.inl ⟨ip, hip, hfit, rfl⟩)) htop hlt
  refine ⟨s, e, hrun, hle, ?_⟩
  have h513 : (513 : UInt64).toNat = 513 := rfl
  rw [UInt64.lt_iff_toNat_lt, UInt64.toNat_add, h513] at hlt
  rw [UInt64.le_iff_toNat_le, UInt64.toNat_add, h513] at hend
  omega

/-- The walk of a chain returns the return addresses of all records but the last. -/
theorem LiveDump.mem_returned {gpr : GPR arch} {exc : EXC arch} {n i : ℕ}
    (hwalk : live.walkStack rounds live.env.target.modules gpr exc
      = some (.ok (live.returned rounds gpr exc)))
    (hchain : (live.walkTarget live.env.target.modules).FrameChain gpr.basePointer n) (hi : i < n) :
    (live.walkTarget live.env.target.modules).stripPACFromPointer arch
        ((live.walkTarget live.env.target.modules).returnAddress gpr.basePointer i)
      ∈ live.returned rounds gpr exc := by
  have hreturns : (live.walkTarget live.env.target.modules).Returns live.debug gpr exc
      (live.returned rounds gpr exc) := by
    simp only [walkStack] at hwalk
    split_ifs at hwalk
    · split at hwalk
      · simp at hwalk
      · exact ⟨rounds, hwalk⟩
    · exact ⟨rounds, hwalk⟩
  rw [(WalkTarget.returns_of_frameChain hchain).1 hreturns, WalkTarget.returnAddresses,
    List.range_succ, List.map_append, List.map_singleton, List.dropLast_concat, List.map_map]
  exact List.mem_append_right _ (List.mem_map.2 ⟨i, List.mem_range.2 hi, rfl⟩)

/-- A dump with the walk in it has the code around the return address of every record but the last,
as far as that address passes the guard and is in a run that could be read whole. -/
theorem codeAround_liveWriteDump (hb : live.prepare rounds = some (.ok (some b)))
    (h : live.miniDumpWriteDumpImpl rounds f = some (.ok (true, f'))) (hpos : f.pos = 0)
    (hfits : Fits b) {thread : TargetThread arch} {gpr : GPR arch} {exc : EXC arch}
    (ht : thread ∈ live.env.target.threads.getD [])
    (hregs : thread.registers live.env.crash = some (gpr, exc)) {n i : ℕ}
    (hchain : (live.walkTarget live.env.target.modules).FrameChain gpr.basePointer n) (hi : i < n)
    {ip : UInt64} (hip : (live.walkTarget live.env.target.modules).stripPACFromPointer arch
      ((live.walkTarget live.env.target.modules).returnAddress gpr.basePointer i) = ip)
    (hfit : surroundingsFit ip = true) (hread : live.env.target.space.Readable ip)
    (hwhole : ∀ s e, (live.withWalks (live.returned rounds)).target.Run live.env.crash
        (live.env.target.threads.getD []) s e → s ≤ ip → ip < e →
      ∀ x, s ≤ x → x < e → live.env.target.space.Readable x) :
    readCoreMemory f'.content (ip - surroundingsRange) 513
      = some (live.env.target.space.bytes (ip - surroundingsRange) 513) := by
  obtain ⟨-, hprepare, hdump⟩ := LiveDump.returned_of_writeDump h
  have hb' : (live.withWalks (live.returned rounds)).prepare live.debug = .ok (some b) := by
    rw [hb, Option.some.injEq] at hprepare
    exact hprepare.symm
  have hops := runOps_of_writeDump hb' hdump
  rw [hpos] at hops
  obtain ⟨s₀, hs₀⟩ := LiveDump.exists_of_prepare hb
  obtain ⟨hwalks, -⟩ := LiveDump.returned_of_addThreadsToCore hs₀
  have hmem : ip ∈ (live.withWalks (live.returned rounds)).target.walkStack gpr exc :=
    hip ▸ LiveDump.mem_returned (hwalks thread ht gpr exc hregs) hchain hi
  obtain ⟨s, e, hrun, hle, hend⟩ := exists_run_around (mem_callStackAddresses ht hregs hmem) hfit
    hread
  obtain ⟨hback, -⟩ := surroundings_bounds hfit
  have hle' := UInt64.le_iff_toNat_le.1 hle
  exact readCoreMemory_of_run (prepare_put hb') hfits hops hrun (hwhole s e hrun
    (UInt64.le_iff_toNat_le.2 (by omega)) (UInt64.lt_iff_toNat_lt.2 (by omega)))
    (by decide) hle hend

end Code

/-- Is a dump to an empty file written within so many rounds, with a layout that fits? -/
def LiveDump.succeeds (live : LiveDump arch) (rounds : ℕ) : Bool :=
  match live.prepare rounds, live.miniDumpWriteDumpImpl rounds FileStream.empty with
  | some (.ok (some b)), some (.ok (true, _)) => decide (Fits b)
  | _, _ => false

theorem LiveDump.exists_of_succeeds {live : LiveDump arch} {rounds : ℕ}
    (h : live.succeeds rounds = true) :
    ∃ b f', live.prepare rounds = some (.ok (some b))
      ∧ live.miniDumpWriteDumpImpl rounds FileStream.empty = some (.ok (true, f')) ∧ Fits b := by
  unfold LiveDump.succeeds at h
  split at h
  · rename_i b f' hb hf
    exact ⟨b, f', hb, hf, of_decide_eq_true h⟩
  · simp at h

/-- The two frames again, with the walk of them. -/
def twoFramesLive : LiveDump .arm64 where
  env := twoFrames
  xpaci ptr := ptr
  debug := false

theorem succeeds_twoFramesLive : twoFramesLive.succeeds 3 = true := by decide +kernel

theorem mergedRanges_twoFramesLive :
    (twoFramesLive.withWalks (twoFramesLive.returned 3)).target.mergedRanges none [twoFramesThread]
      = [(0x1F00, 0x2000), (0x4700, 0x4901)] := by
  decide +kernel

/-- The code around the one return address that is reported. -/
theorem codeAround_liveWriteDump_twoFrames :
    ∃ f', twoFramesLive.miniDumpWriteDumpImpl 3 FileStream.empty = some (.ok (true, f'))
      ∧ readCoreMemory f'.content 0x4700 513 = some (stackPage.bytes 0x4700 513) := by
  obtain ⟨b, f', hb, hf, hfits⟩ := LiveDump.exists_of_succeeds succeeds_twoFramesLive
  obtain ⟨gpr, exc, hregs, hbp, -⟩ := exists_registers_twoFrames
  have hip : (twoFramesLive.walkTarget sampleModules).stripPACFromPointer .arm64
      ((twoFramesLive.walkTarget sampleModules).returnAddress gpr.basePointer 0) = 0x4800 := by
    rw [hbp]
    decide +kernel
  refine ⟨f', hf, codeAround_liveWriteDump hb hf rfl hfits List.mem_cons_self hregs
    (hbp ▸ frameChain_stackPage rfl) (i := 0) (by decide) hip (by decide) (by decide)
    fun s e hrun hs he x hx hx' => ?_⟩
  have hmem := (Target.run_iff_mem _ _).1 hrun
  have hrange := (congrArg ((s, e) ∈ ·) mergedRanges_twoFramesLive).mp hmem
  simp only [List.mem_cons, Prod.mk.injEq, List.not_mem_nil, or_false] at hrange
  rcases hrange with ⟨rfl, rfl⟩ | ⟨rfl, rfl⟩
  · exact absurd he (by decide)
  · have hlt : x.toNat < 0x5000 := (UInt64.lt_iff_toNat_lt.1 hx').trans (by decide)
    exact ⟨_, List.mem_cons_of_mem _ List.mem_cons_self, ⟨le_trans (by decide) hx, hlt⟩, rfl⟩

end MacMiniDump
