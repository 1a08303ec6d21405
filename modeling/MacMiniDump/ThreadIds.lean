import MacMiniDump.Registers
import MacMiniDump.Threads

/-!
# Thread ids and thread commands

`AddThreadsToCore` appends a thread command and a thread id in the same place, so the two lists stay
paired (`addThreadsToCore_paired`): the threads whose registers are known, in their order, each with
its id and its registers, those of the crash context for the thread that crashed.
-/

namespace MacMiniDump

open MachOCoreDumpBuilder

variable {arch : Arch}

namespace TargetThread

variable (thread : TargetThread arch) (crash : Option (CrashContext arch))

/-- Its id reads as that of the thread that crashed. -/
def Crashed : Prop := ∃ context ∈ crash, thread.identifier = some context.crashedTID

instance : Decidable (thread.Crashed crash) :=
  inferInstanceAs (Decidable (∃ context ∈ crash, thread.identifier = some context.crashedTID))

/-- Both of its states could be read. -/
def StatesRead : Prop := thread.ts.isSome = true ∧ thread.es.isSome = true

instance : Decidable thread.StatesRead := inferInstanceAs (Decidable (_ ∧ _))

/-- The command holds these register states. -/
def HoldsStates (ts : Vector UInt8 arch.gprSize) (es : Vector UInt8 arch.excSize)
    (cmd : ThreadCommand) : Prop :=
  cmd.cmd = LC_THREAD ∧ cmd.states
    = le32 arch.gprKind ++ le32 (UInt32.ofNat (arch.gprSize / 4)) ++ ts.toList
      ++ (le32 arch.excKind ++ le32 (UInt32.ofNat (arch.excSize / 4)) ++ es.toList)

/-- The command is for this thread: the registers are those of the crash context if it crashed, and
its own if it did not. -/
structure Describes (cmd : ThreadCommand) : Prop where
  crashed : ∀ context ∈ crash, thread.Crashed crash → HoldsStates context.ss context.es cmd
  other : ¬ thread.Crashed crash →
    ∃ ts es, thread.ts = some ts ∧ thread.es = some es ∧ HoldsStates ts es cmd

end TargetThread

open TargetThread

/-- The commands and the ids are, place by place, those of the threads whose registers are known,
which come in their order, and the crash context is used for one thread at most. -/
structure Paired (crash : Option (CrashContext arch)) (threads : List (TargetThread arch))
    (cmds : List ThreadCommand) (ids : List UInt64) : Prop where
  length : cmds.length = ids.length
  ids : ids = (threads.filter fun t => t.StatesRead ∨ t.Crashed crash).map
    fun t => t.identifier.getD 0
  cmds : List.Forall₂ (fun t cmd => t.Describes crash cmd)
    (threads.filter fun t => t.StatesRead ∨ t.Crashed crash) cmds
  atMostOne : (threads.filter fun t => t.Crashed crash).length ≤ 1

section Paired

variable {crash : Option (CrashContext arch)} {thread : TargetThread arch}

/-- With ids that are not zero, the id of a thread that could not be found out is no one's. -/
theorem tid_eq_iff {context : CrashContext arch} (hne : context.crashedTID ≠ 0) :
    thread.tid = context.crashedTID ↔ thread.Crashed (some context) := by
  unfold tid Crashed
  rcases thread.identifier with _ | id
  · simpa using hne.symm
  · simp

theorem registers_of_crashed {context : CrashContext arch} (hne : context.crashedTID ≠ 0)
    (h : thread.Crashed (some context)) :
    ∃ gpr exc, thread.registers (some context) = some (gpr, exc)
      ∧ gpr = ⟨arch.gprKind, UInt32.ofNat (arch.gprSize / 4), context.ss⟩
      ∧ exc = ⟨arch.excKind, UInt32.ofNat (arch.excSize / 4), context.es⟩ := by
  refine ⟨_, _, ?_, rfl, rfl⟩
  rw [registers]
  simp only [(tid_eq_iff hne).2 h, if_true, Option.map_some]

theorem registers_of_not_crashed (hne : ∀ context ∈ crash, context.crashedTID ≠ 0)
    (h : ¬ thread.Crashed crash) :
    thread.registers crash = (thread.ts.bind fun ts => thread.es.map (ts, ·)).map fun (ts, es) =>
      (⟨arch.gprKind, UInt32.ofNat (arch.gprSize / 4), ts⟩,
        ⟨arch.excKind, UInt32.ofNat (arch.excSize / 4), es⟩) := by
  rcases crash with _ | context
  · rfl
  · have htid : ¬ thread.tid = context.crashedTID := fun ht =>
      h ((tid_eq_iff (hne context rfl)).1 ht)
    rw [registers]
    simp only [htid, if_false]

/-- The registers of a thread are known when its states could be read, or when it crashed. -/
theorem registers_isSome_iff (hne : ∀ context ∈ crash, context.crashedTID ≠ 0) :
    (thread.registers crash).isSome = true ↔ thread.StatesRead ∨ thread.Crashed crash := by
  by_cases hc : thread.Crashed crash
  · obtain ⟨context, rfl, -⟩ := id hc
    obtain ⟨gpr, exc, hreg, -⟩ := registers_of_crashed (hne context rfl) hc
    simp [hreg, hc]
  · rw [registers_of_not_crashed hne hc, or_iff_left hc]
    unfold StatesRead
    rcases thread.ts with _ | ts <;> rcases thread.es with _ | es <;> simp

/-- The command that is added for known registers. -/
def threadCommandOf (gpr : GPR arch) (exc : EXC arch) : ThreadCommand where
  cmd := LC_THREAD
  cmdsize := UInt32.ofNat (threadCommandSize [gpr.threadState, exc.threadState] - 8)
  states := threadCommandStates [gpr.threadState, exc.threadState]

theorem threadCommandOf_describes (hne : ∀ context ∈ crash, context.crashedTID ≠ 0)
    {gpr : GPR arch} {exc : EXC arch} (h : thread.registers crash = some (gpr, exc)) :
    thread.Describes crash (threadCommandOf gpr exc) := by
  have hstates : (threadCommandOf gpr exc).states = gpr.bytes ++ exc.bytes :=
    (threadCommand_gpr_exc gpr exc).2
  refine ⟨fun context hctx hc => ?_, fun hc => ?_⟩
  · obtain rfl : crash = some context := hctx
    obtain ⟨gpr', exc', hreg, rfl, rfl⟩ := registers_of_crashed (hne context rfl) hc
    obtain ⟨rfl, rfl⟩ : gpr = _ ∧ exc = _ := by simpa [hreg, eq_comm] using h
    exact ⟨rfl, hstates⟩
  · rw [registers_of_not_crashed hne hc] at h
    obtain ⟨⟨ts, es⟩, hread, heq⟩ := Option.map_eq_some_iff.1 h
    obtain ⟨ts', hts, hrest⟩ := Option.bind_eq_some_iff.1 hread
    obtain ⟨es', hes, hpair⟩ := Option.map_eq_some_iff.1 hrest
    simp only [Prod.mk.injEq] at hpair heq
    obtain ⟨rfl, rfl⟩ := hpair
    obtain ⟨rfl, rfl⟩ := heq
    exact ⟨ts', es', hts, hes, rfl, hstates⟩

variable (target : Target arch)

/-- What one thread adds: a command and an id, or neither. -/
theorem addThread_lists (crash : Option (CrashContext arch)) (s : Collected)
    (thread : TargetThread arch) :
    (target.addThread crash s thread).threadIds = s.threadIds
        ++ ((thread.registers crash).map fun _ => thread.tid).toList
      ∧ (target.addThread crash s thread).builder.threadCmds = s.builder.threadCmds
        ++ ((thread.registers crash).map fun r => threadCommandOf r.1 r.2).toList := by
  unfold Target.addThread
  rcases thread.registers crash with _ | ⟨gpr, exc⟩
  · simp
  · exact ⟨rfl, rfl⟩

theorem foldl_addThread_lists (crash : Option (CrashContext arch)) :
    ∀ (threads : List (TargetThread arch)) (s : Collected),
      (threads.foldl (target.addThread crash) s).threadIds = s.threadIds
          ++ threads.filterMap (fun t => (t.registers crash).map fun _ => t.tid)
        ∧ (threads.foldl (target.addThread crash) s).builder.threadCmds = s.builder.threadCmds
          ++ threads.filterMap fun t => (t.registers crash).map fun r => threadCommandOf r.1 r.2
  | [], _ => by simp
  | thread :: threads, s => by
    obtain ⟨h1, h2⟩ := addThread_lists target crash s thread
    obtain ⟨h3, h4⟩ := foldl_addThread_lists crash threads (target.addThread crash s thread)
    rw [List.foldl_cons, h3, h4, h1, h2, List.append_assoc, List.append_assoc,
      filterMap_cons_toList, filterMap_cons_toList]
    exact ⟨rfl, rfl⟩

/-- Adding segments leaves the threads alone. -/
theorem foldl_addSegment_threadCmds :
    ∀ (ranges : List (UInt64 × UInt64)) (b : MachOCoreDumpBuilder),
      (ranges.foldl (fun b r => (target.addSegmentCommandFromProcessMemory r.1 r.2 b).2)
        b).threadCmds = b.threadCmds
  | [], _ => rfl
  | r :: ranges, b => by
    rw [List.foldl_cons, foldl_addSegment_threadCmds ranges]
    unfold Target.addSegmentCommandFromProcessMemory
    rcases target.getMemoryProtection r.1 with _ | prot
    · rfl
    · simp only [addSegmentCommand]
      split_ifs <;> rfl

theorem paired_filterMap (hne : ∀ context ∈ crash, context.crashedTID ≠ 0) :
    ∀ threads : List (TargetThread arch),
      threads.filterMap (fun t => (t.registers crash).map fun _ => t.tid)
          = (threads.filter fun t => t.StatesRead ∨ t.Crashed crash).map
            (fun t => t.identifier.getD 0)
        ∧ List.Forall₂ (fun t cmd => t.Describes crash cmd)
          (threads.filter fun t => t.StatesRead ∨ t.Crashed crash)
          (threads.filterMap fun t => (t.registers crash).map fun r => threadCommandOf r.1 r.2)
  | [] => ⟨rfl, .nil⟩
  | thread :: threads => by
    obtain ⟨h1, h2⟩ := paired_filterMap hne threads
    have hiff : (thread.registers crash).isSome = true
        ↔ thread.StatesRead ∨ thread.Crashed crash := registers_isSome_iff hne
    rcases hreg : thread.registers crash with _ | ⟨gpr, exc⟩
    · have hno : ¬ (thread.StatesRead ∨ thread.Crashed crash) := by simpa [hreg] using hiff
      rw [List.filter_cons_of_neg (by simpa using hno)]
      simpa [hreg] using And.intro h1 h2
    · have hyes : thread.StatesRead ∨ thread.Crashed crash := by simpa [hreg] using hiff
      rw [List.filter_cons_of_pos (by simpa using hyes)]
      simp only [List.filterMap_cons, hreg, Option.map_some, List.map_cons, h1]
      exact ⟨rfl, .cons (threadCommandOf_describes hne hreg) h2⟩

/-- Among distinct ids, one thread at most has the one that crashed. -/
theorem length_crashed_le {threads : List (TargetThread arch)}
    (hids : threads.Pairwise fun t t' => ∀ id ∈ t.identifier, id ∉ t'.identifier) :
    (threads.filter fun t => t.Crashed crash).length ≤ 1 := by
  have hmem : ∀ t ∈ threads.filter fun t => t.Crashed crash, t.Crashed crash :=
    fun t ht => by simpa using (List.mem_filter.1 ht).2
  have hpair : (threads.filter fun t => t.Crashed crash).Pairwise
      fun t t' => ∀ id ∈ t.identifier, id ∉ t'.identifier := hids.sublist List.filter_sublist
  generalize threads.filter (fun t => t.Crashed crash) = crashed at hmem hpair ⊢
  rcases crashed with _ | ⟨t, _ | ⟨t', rest⟩⟩
  · exact Nat.zero_le _
  · exact le_rfl
  obtain ⟨context, hctx, hid⟩ := hmem t (by simp)
  obtain ⟨context', hctx', hid'⟩ := hmem t' (by simp)
  obtain rfl : context = context' := Option.some.inj (hctx.symm.trans hctx')
  exact absurd hid' ((List.pairwise_cons.1 hpair).1 t' (by simp) _ hid)

/-- The commands that are added and the thread ids are paired. -/
theorem addThreadsToCore_paired {b : MachOCoreDumpBuilder} {s : Collected}
    (h : target.addThreadsToCore crash b = some s)
    (hne : ∀ context ∈ crash, context.crashedTID ≠ 0)
    (hids : (target.threads.getD []).Pairwise fun t t' => ∀ id ∈ t.identifier, id ∉ t'.identifier) :
    ∃ added, s.builder.threadCmds = b.threadCmds ++ added
      ∧ Paired crash (target.threads.getD []) added s.threadIds := by
  obtain ⟨threads, ht, rfl⟩ := Option.map_eq_some_iff.1 h
  rw [ht, Option.getD_some] at hids ⊢
  obtain ⟨h1, h2⟩ := foldl_addThread_lists target crash threads
    ⟨b, target.modules, [], []⟩
  obtain ⟨h3, h4⟩ := paired_filterMap hne threads
  refine ⟨_, (foldl_addSegment_threadCmds target _ _).trans h2, ?_⟩
  have hlists : (threads.foldl (target.addThread crash) ⟨b, target.modules, [], []⟩).threadIds
      = threads.filterMap fun t => (t.registers crash).map fun _ => t.tid := by
    rw [h1, List.nil_append]
  refine ⟨?_, hlists.trans h3, h4, length_crashed_le hids⟩
  rw [hlists, h3, List.length_map, h4.length_eq]

end Paired

/-- Three threads: one whose id could not be found out, one without registers, and one that
crashed. -/
def threeThreads : Target .arm64 where
  space := noRegions
  uninitialized := ⟨0, 0⟩
  threads := some [{ zeroThread 2 with identifier := none }, { zeroThread 3 with ts := none },
    { zeroThread 4 with es := none }]
  threadSelf := 1
  walkStack _ _ := []
  modules := noModules
  nAddrableBits := none

def crashOfFour : CrashContext .arm64 := ⟨4, Vector.replicate 272 1, Vector.replicate 16 1⟩

theorem addThreadsToCore_paired_threeThreads :
    ∃ s added, threeThreads.addThreadsToCore (some crashOfFour) (new .arm64) = some s
      ∧ s.builder.threadCmds = [] ++ added
      ∧ Paired (some crashOfFour) (threeThreads.threads.getD []) added s.threadIds := by
  have hadd : threeThreads.addThreadsToCore (some crashOfFour) (new .arm64) = some _ := rfl
  obtain ⟨added, h⟩ := addThreadsToCore_paired threeThreads hadd (by simp [crashOfFour])
    (by simp [threeThreads, zeroThread])
  exact ⟨_, added, hadd, h⟩

end MacMiniDump
