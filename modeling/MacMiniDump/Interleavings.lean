import MacMiniDump.Suspend
import Mathlib.Logic.Function.Basic
import Mathlib.Logic.Relation
import Mathlib.Tactic

/-!
# A dump while the target runs

The calls of a dump that suspend and resume, with what the threads of the target do in between. A
thread that runs may store to memory, start a thread, or end. The memory that a dump of another task
reads stays as it is. In a self dump it does so exactly when no thread runs that was started after
the threads were listed (`dumping_frozen_iff`); it is not enough that all threads in the list are
suspended. In any case the target is left with the suspend counts it had (`done_restores`).
-/

namespace MacMiniDump

/-- The target as its threads and the kernel change it. -/
structure World (M : Type) where
  memory : M
  taskCount : ℕ
  /-- the suspend counts of the threads that have not ended -/
  counts : UInt32 → Option ℕ
  /-- all threads there have been -/
  started : List UInt32

namespace World

variable {M : Type} (w : World M)

def Runs (t : UInt32) : Prop := w.taskCount = 0 ∧ w.counts t = some 0

def setCount (t : UInt32) (count : Option ℕ) : World M :=
  { w with counts := Function.update w.counts t count }

/-- What a thread does to the target. -/
inductive Acts (t : UInt32) : World M → World M → Prop
  | store {w : World M} (m : M) : w.Runs t → Acts t w { w with memory := m }
  | start {w : World M} (t' : UInt32) : w.Runs t → t' ∉ w.started →
      Acts t w { w.setCount t' (some 0) with started := t' :: w.started }
  | exit {w : World M} : w.Runs t → Acts t w (w.setCount t none)

/-- `thread_suspend`, with its success. -/
def threadSuspend (t : UInt32) : Bool × World M :=
  match w.counts t with
  | none => (false, w)
  | some n => (true, w.setCount t (some (n + 1)))

/-- `thread_resume` -/
def threadResume (t : UInt32) : Bool × World M :=
  match w.counts t with
  | some (n + 1) => (true, w.setCount t (some n))
  | _ => (false, w)

/-- Only threads that were started have not ended. -/
def Known : Prop := ∀ t, w.counts t ≠ none → t ∈ w.started

/-- Some thread acts, but for the one that makes the dump. -/
def Others (dumper : Option UInt32) (w w' : World M) : Prop := ∃ t, some t ≠ dumper ∧ Acts t w w'

/-- Whatever the threads do, nothing changes. -/
def Frozen (dumper : Option UInt32) : Prop :=
  ∀ w', Relation.ReflTransGen (Others dumper) w w' → w' = w

end World

/-! ## The dump -/

/-- How far a dump has come. Threads are listed and suspended by a self dump only. -/
inductive Phase
  | starting
  | suspending (listed todo suspended : List UInt32)
  | dumping (listed suspended : List UInt32)
  | resuming (suspended todo : List UInt32)
  | done

/-- The threads that the dump has suspended and not resumed. -/
def Phase.held : Phase → List UInt32
  | .suspending _ _ suspended => suspended
  | .dumping _ suspended => suspended
  | .resuming _ todo => todo
  | _ => []

structure Dumping (M : Type) where
  world : World M
  phase : Phase
  log : List SuspendEvent

/-- A step of the target or of the dump. The thread `dumper` makes a self dump, none makes a dump of
another task. The dump fails before it has suspended anything, or goes on to the end; no allocation
fails. -/
inductive Step {M : Type} (dumper : Option UInt32) : Dumping M → Dumping M → Prop
  | target {w w' : World M} {phase log} : World.Others dumper w w' →
      Step dumper ⟨w, phase, log⟩ ⟨w', phase, log⟩
  | fails {w : World M} {log} : Step dumper ⟨w, .starting, log⟩ ⟨w, .done, log⟩
  | taskSuspend {w : World M} {log} : dumper = none →
      Step dumper ⟨w, .starting, log⟩
        ⟨{ w with taskCount := w.taskCount + 1 }, .dumping [] [], log ++ [.suspend .task]⟩
  | taskThreads {w : World M} {log} (listed : List UInt32) : dumper ≠ none →
      (∀ t, t ∈ listed ↔ w.counts t ≠ none) →
      Step dumper ⟨w, .starting, log⟩ ⟨w, .suspending listed listed [], log⟩
  | skip {w : World M} {listed todo suspended log} {t : UInt32} : dumper = some t →
      Step dumper ⟨w, .suspending listed (t :: todo) suspended, log⟩
        ⟨w, .suspending listed todo suspended, log⟩
  | suspend {w w' : World M} {listed todo suspended log} {t : UInt32} : some t ≠ dumper →
      w.threadSuspend t = (true, w') →
      Step dumper ⟨w, .suspending listed (t :: todo) suspended, log⟩
        ⟨w', .suspending listed todo (suspended ++ [t]), log ++ [.suspend (.thread t)]⟩
  | gone {w w' : World M} {listed todo suspended log} {t : UInt32} : some t ≠ dumper →
      w.threadSuspend t = (false, w') →
      Step dumper ⟨w, .suspending listed (t :: todo) suspended, log⟩
        ⟨w', .suspending listed todo suspended, log⟩
  | suspended {w : World M} {listed suspended log} :
      Step dumper ⟨w, .suspending listed [] suspended, log⟩ ⟨w, .dumping listed suspended, log⟩
  | resumeThreads {w : World M} {listed suspended log} : dumper ≠ none →
      Step dumper ⟨w, .dumping listed suspended, log⟩ ⟨w, .resuming suspended suspended, log⟩
  | resume {w : World M} {suspended todo log} {t : UInt32} :
      Step dumper ⟨w, .resuming suspended (t :: todo), log⟩
        ⟨(w.threadResume t).2, .resuming suspended todo, log ++ [.resume (.thread t)]⟩
  | resumed {w : World M} {suspended log} :
      Step dumper ⟨w, .resuming suspended [], log⟩ ⟨w, .done, log⟩
  | taskResume {w : World M} {listed suspended log} : dumper = none →
      Step dumper ⟨w, .dumping listed suspended, log⟩
        ⟨{ w with taskCount := w.taskCount - 1 }, .done, log ++ [.resume .task]⟩

/-- Any run of a dump that begins in the world `w₀`. -/
def RunsTo {M : Type} (dumper : Option UInt32) (w₀ : World M) (s : Dumping M) : Prop :=
  Relation.ReflTransGen (Step dumper) ⟨w₀, .starting, []⟩ s

namespace World

variable {M : Type} {w w' : World M} {dumper : Option UInt32} {t : UInt32}

theorem counts_setCount (u : UInt32) (c : Option ℕ) :
    (w.setCount t c).counts u = if u = t then c else w.counts u := by
  simp only [setCount, Function.update_apply]

/-- Threads change no counts. They only start with one of zero, or end. -/
theorem Others.counts (h : Others dumper w w') (u : UInt32) :
    w'.counts u = w.counts u ∨ w'.counts u = none ∨ (u ∉ w.started ∧ w'.counts u = some 0) := by
  obtain ⟨t, -, hacts⟩ := h
  cases hacts with
  | store m hruns => exact .inl rfl
  | start t' hruns hnew =>
    have hcount : (w.setCount t' (some 0)).counts u = _ := counts_setCount u (some 0)
    by_cases hu : u = t'
    · rw [if_pos hu] at hcount
      exact .inr (.inr ⟨hu ▸ hnew, hcount⟩)
    · rw [if_neg hu] at hcount
      exact .inl hcount
  | exit hruns =>
    rw [counts_setCount]
    split_ifs
    · exact .inr (.inl rfl)
    · exact .inl rfl

theorem Others.taskCount (h : Others dumper w w') : w'.taskCount = w.taskCount := by
  obtain ⟨t, -, hacts⟩ := h
  cases hacts <;> rfl

theorem Others.started (h : Others dumper w w') : w.started ⊆ w'.started := by
  obtain ⟨t, -, hacts⟩ := h
  cases hacts with
  | store m hruns => exact List.Subset.refl _
  | start t' hruns hnew => exact List.subset_cons_self _ _
  | exit hruns => exact List.Subset.refl _

theorem Others.known (h : Others dumper w w') (hw : w.Known) : w'.Known := by
  obtain ⟨t, -, hacts⟩ := h
  intro u hu
  cases hacts with
  | store m hruns => exact hw u hu
  | start t' hruns hnew =>
    have hcount : (w.setCount t' (some 0)).counts u = _ := counts_setCount u (some 0)
    by_cases hut : u = t'
    · exact hut ▸ List.mem_cons_self
    · rw [if_neg hut] at hcount
      exact List.mem_cons_of_mem _ (hw u (hcount ▸ hu))
  | exit hruns =>
    rw [counts_setCount] at hu
    split_ifs at hu
    · exact absurd rfl hu
    · exact hw u hu

/-- Nothing changes as long as no thread runs, and only then. -/
theorem frozen_iff : w.Frozen dumper ↔ ∀ t, some t ≠ dumper → ¬ w.Runs t := by
  constructor
  · intro h t hdumper hruns
    have hexit := h _ (.single ⟨t, hdumper, .exit hruns⟩)
    have hcount := congrArg (fun w => w.counts t) hexit
    simp only [counts_setCount, if_true, hruns.2] at hcount
    exact absurd hcount (by simp)
  · intro h w' hsteps
    induction hsteps with
    | refl => rfl
    | tail _ hstep ih =>
      obtain ⟨t, hdumper, hacts⟩ := hstep
      rw [ih] at hacts
      have hruns : w.Runs t := by cases hacts <;> assumption
      exact absurd hruns (h t hdumper)

end World

/-! ## What holds throughout -/

section Invariant

variable {M : Type} {dumper : Option UInt32} {w₀ : World M}

/-- Is the task suspended by the dump? -/
def Phase.taskHeld (dumper : Option UInt32) : Phase → ℕ
  | .dumping _ _ => if dumper = none then 1 else 0
  | _ => 0

/-- The threads that were listed and have not ended are suspended, but for those still to come. -/
def Phase.Covered (dumper : Option UInt32) (w : World M) : Phase → Prop
  | .suspending listed todo suspended => dumper ≠ none ∧ listed ⊆ w.started
    ∧ ∀ t ∈ listed, some t ≠ dumper → w.counts t ≠ none → t ∈ todo ∨ t ∈ suspended
  | .dumping listed suspended => listed ⊆ w.started ∧ (dumper = none → suspended = [])
    ∧ ∀ t ∈ listed, some t ≠ dumper → w.counts t ≠ none → t ∈ suspended
  | .resuming _ _ => dumper ≠ none
  | _ => True

/-- The suspend counts are those from before the dump, and one more for each suspension that it
holds. -/
structure Inv (dumper : Option UInt32) (w₀ : World M) (s : Dumping M) : Prop where
  known : s.world.Known
  started : w₀.started ⊆ s.world.started
  held : s.phase.held ⊆ s.world.started
  counts : ∀ t n, s.world.counts t = some n → n = (w₀.counts t).getD 0 + s.phase.held.count t
  taskCount : s.world.taskCount = w₀.taskCount + s.phase.taskHeld dumper
  covered : s.phase.Covered dumper s.world

theorem inv_start (hw : w₀.Known) : Inv dumper w₀ ⟨w₀, .starting, []⟩ where
  known := hw
  started := List.Subset.refl _
  held := List.nil_subset _
  counts t n h := by
    rw [h]
    rfl
  taskCount := rfl
  covered := trivial

/-- A thread that has been started since the dump began had no count before. -/
theorem Inv.getD_eq_zero {s : Dumping M} (h : Inv dumper w₀ s) (hw : w₀.Known) {t : UInt32}
    (ht : t ∉ s.world.started) : (w₀.counts t).getD 0 = 0 ∧ s.phase.held.count t = 0 := by
  refine ⟨?_, List.count_eq_zero.2 fun hin => ht (h.held hin)⟩
  rcases hc : w₀.counts t with _ | n
  · rfl
  · exact absurd (h.started (hw t (by rw [hc]; exact Option.some_ne_none n))) ht

theorem Phase.Covered.others {phase : Phase} {w w' : World M} (h : phase.Covered dumper w)
    (hw : World.Others dumper w w') : phase.Covered dumper w' := by
  have hlive : ∀ t ∈ w.started, w'.counts t ≠ none → w.counts t ≠ none := by
    intro t ht hne
    rcases hw.counts t with heq | hnone | ⟨hnew, -⟩
    · exact heq ▸ hne
    · exact absurd hnone hne
    · exact absurd ht hnew
  cases phase with
  | suspending listed todo suspended =>
    obtain ⟨hdumper, hsub, hall⟩ := h
    exact ⟨hdumper, List.Subset.trans hsub hw.started,
      fun t ht hne hc => hall t ht hne (hlive t (hsub ht) hc)⟩
  | dumping listed suspended =>
    obtain ⟨hsub, hnone, hall⟩ := h
    exact ⟨List.Subset.trans hsub hw.started, hnone,
      fun t ht hne hc => hall t ht hne (hlive t (hsub ht) hc)⟩
  | resuming suspended todo => exact h
  | starting => trivial
  | done => trivial

theorem Inv.others {w w' : World M} {phase : Phase} {log : List SuspendEvent} (hw₀ : w₀.Known)
    (h : Inv dumper w₀ ⟨w, phase, log⟩) (hw : World.Others dumper w w') :
    Inv dumper w₀ ⟨w', phase, log⟩ where
  known := hw.known h.known
  started := List.Subset.trans h.started hw.started
  held := List.Subset.trans h.held hw.started
  counts t n hn := by
    rcases hw.counts t with heq | hnone | ⟨hnew, hzero⟩
    · exact h.counts t n (heq ▸ hn)
    · simp only [hnone, reduceCtorEq] at hn
    · obtain ⟨hbase, hheld⟩ := h.getD_eq_zero hw₀ hnew
      simp only [hzero, Option.some.injEq] at hn
      have hheld' : phase.held.count t = 0 := hheld
      rw [hbase, ← hn, Nat.zero_add]
      exact hheld'.symm
  taskCount := hw.taskCount.trans h.taskCount
  covered := h.covered.others hw

/-- Suspending a thread that has not ended counts once more for it. -/
theorem World.threadSuspend_eq_true {w w' : World M} {t : UInt32}
    (h : w.threadSuspend t = (true, w')) :
    ∃ n, w.counts t = some n ∧ w' = w.setCount t (some (n + 1)) := by
  unfold threadSuspend at h
  split at h
  · simp at h
  · rename_i n hn
    exact ⟨n, hn, (Prod.mk.inj h).2.symm⟩

theorem World.threadSuspend_eq_false {w w' : World M} {t : UInt32}
    (h : w.threadSuspend t = (false, w')) : w.counts t = none ∧ w' = w := by
  unfold threadSuspend at h
  split at h
  · rename_i hn
    exact ⟨hn, (Prod.mk.inj h).2.symm⟩
  · simp at h

theorem World.known_setCount {w : World M} {t : UInt32} {c : Option ℕ} (hw : w.Known)
    (ht : w.counts t ≠ none) : (w.setCount t c).Known := by
  intro u hu
  rw [counts_setCount] at hu
  split_ifs at hu with hut
  · exact hw u (hut ▸ ht)
  · exact hw u hu

/-- No thread ends or starts by a call of the dump. -/
theorem World.setCount_ne_none {w : World M} {t u : UInt32} {n : ℕ} (ht : w.counts t ≠ none) :
    (w.setCount t (some n)).counts u ≠ none ↔ w.counts u ≠ none := by
  rw [counts_setCount]
  split_ifs with hut
  · exact iff_of_true (Option.some_ne_none n) (hut ▸ ht)
  · exact Iff.rfl

theorem Inv.suspend {w w' : World M} {listed todo suspended : List UInt32} {t : UInt32}
    {log log' : List SuspendEvent}
    (h : Inv dumper w₀ ⟨w, .suspending listed (t :: todo) suspended, log⟩)
    (hw : w.threadSuspend t = (true, w')) :
    Inv dumper w₀ ⟨w', .suspending listed todo (suspended ++ [t]), log'⟩ := by
  obtain ⟨n, hn, rfl⟩ := World.threadSuspend_eq_true hw
  have hlive : w.counts t ≠ none := by
    rw [hn]
    exact Option.some_ne_none n
  obtain ⟨hdumper, hsub, hall⟩ := h.covered
  refine ⟨World.known_setCount h.known hlive, h.started, ?_, fun u m hm => ?_, h.taskCount,
    hdumper, hsub, fun u hu hne hc => ?_⟩
  · exact List.append_subset.2 ⟨h.held, List.cons_subset.2 ⟨h.known t hlive, List.nil_subset _⟩⟩
  · show m = _ + (suspended ++ [t]).count u
    rw [World.counts_setCount] at hm
    rw [List.count_append, List.count_singleton]
    split_ifs at hm with hut
    · have hbase : n = (w₀.counts u).getD 0 + suspended.count u := h.counts u n (hut ▸ hn)
      simp only [Option.some.injEq] at hm
      simp only [hut, beq_self_eq_true, if_true] at hbase ⊢
      omega
    · have hbase : m = (w₀.counts u).getD 0 + suspended.count u := h.counts u m hm
      have htu : (t == u) = false := beq_eq_false_iff_ne.2 (Ne.symm hut)
      rw [htu, if_neg Bool.false_ne_true, Nat.add_zero]
      exact hbase
  · rcases hall u hu hne ((World.setCount_ne_none hlive).1 hc) with hin | hin
    · rcases List.mem_cons.1 hin with rfl | hin
      · exact .inr (List.mem_append_right _ (List.mem_singleton_self _))
      · exact .inl hin
    · exact .inr (List.mem_append_left _ hin)

theorem Inv.resume {w : World M} {suspended todo : List UInt32} {t : UInt32}
    {log log' : List SuspendEvent} (h : Inv dumper w₀ ⟨w, .resuming suspended (t :: todo), log⟩) :
    Inv dumper w₀ ⟨(w.threadResume t).2, .resuming suspended todo, log'⟩ := by
  have hheld : todo ⊆ w.started := List.Subset.trans (List.subset_cons_self _ _) h.held
  have hcons : ∀ u n, w.counts u = some n →
      n = (w₀.counts u).getD 0 + (todo.count u + if t = u then 1 else 0) := by
    intro u n hn
    have hcount := h.counts u n hn
    simp only [Phase.held, List.count_cons, beq_iff_eq] at hcount
    exact hcount
  unfold World.threadResume
  split
  · rename_i n hn
    have hlive : w.counts t ≠ none := by
      rw [hn]
      exact Option.some_ne_none _
    refine ⟨World.known_setCount h.known hlive, h.started, hheld, fun u m hm => ?_, h.taskCount,
      h.covered⟩
    show m = _ + todo.count u
    rw [World.counts_setCount] at hm
    split_ifs at hm with hut
    · have hbase := hcons u (n + 1) (hut ▸ hn)
      rw [if_pos hut.symm] at hbase
      simp only [Option.some.injEq] at hm
      omega
    · have hbase := hcons u m hm
      rwa [if_neg (Ne.symm hut)] at hbase
  · rename_i hended
    refine ⟨h.known, h.started, hheld, fun u m hm => ?_, h.taskCount, h.covered⟩
    have hbase := hcons u m hm
    by_cases hut : t = u
    · -- it has ended: else it would be suspended still
      rw [if_pos hut] at hbase
      refine absurd ?_ (hended (m - 1))
      rw [hut]
      exact hm.trans (congrArg some (by omega))
    · rwa [if_neg hut] at hbase

theorem Inv.step {s s' : Dumping M} (hw₀ : w₀.Known) (h : Inv dumper w₀ s) (hs : Step dumper s s') :
    Inv dumper w₀ s' := by
  cases hs with
  | target hw => exact h.others hw₀ hw
  | fails => exact ⟨h.known, h.started, h.held, h.counts, h.taskCount, trivial⟩
  | taskSuspend hdumper =>
    refine ⟨h.known, h.started, List.nil_subset _, h.counts, ?_, List.nil_subset _, fun _ => rfl,
      by simp⟩
    have htask := h.taskCount
    simp only [Phase.taskHeld, hdumper, if_true] at htask ⊢
    omega
  | taskThreads listed hdumper hlisted =>
    refine ⟨h.known, h.started, List.nil_subset _, h.counts, h.taskCount, hdumper, fun t ht => ?_,
      fun t ht _ _ => .inl ht⟩
    exact h.known t ((hlisted t).1 ht)
  | skip ht =>
    obtain ⟨hdumper, hsub, hall⟩ := h.covered
    refine ⟨h.known, h.started, h.held, h.counts, h.taskCount, hdumper, hsub, fun u hu hne hc => ?_⟩
    refine (hall u hu hne hc).imp_left fun hin => ?_
    exact (List.mem_cons.1 hin).resolve_left fun heq => hne (heq ▸ ht.symm)
  | suspend hne hw => exact h.suspend hw
  | gone hne hw =>
    obtain ⟨hended, rfl⟩ := World.threadSuspend_eq_false hw
    obtain ⟨hdumper, hsub, hall⟩ := h.covered
    refine ⟨h.known, h.started, h.held, h.counts, h.taskCount, hdumper, hsub, fun u hu hne hc => ?_⟩
    refine (hall u hu hne hc).imp_left fun hin => ?_
    exact (List.mem_cons.1 hin).resolve_left fun heq => hc (heq ▸ hended)
  | suspended =>
    obtain ⟨hdumper, hsub, hall⟩ := h.covered
    refine ⟨h.known, h.started, h.held, h.counts, ?_, hsub, fun hnone => absurd hnone hdumper,
      fun u hu hne hc => ?_⟩
    · have htask := h.taskCount
      simp only [Phase.taskHeld, hdumper, if_false] at htask ⊢
      exact htask
    · exact (hall u hu hne hc).resolve_left List.not_mem_nil
  | resumeThreads hdumper =>
    refine ⟨h.known, h.started, h.held, h.counts, ?_, hdumper⟩
    have htask := h.taskCount
    simp only [Phase.taskHeld, hdumper, if_false] at htask ⊢
    exact htask
  | resume => exact h.resume
  | resumed => exact ⟨h.known, h.started, h.held, h.counts, h.taskCount, trivial⟩
  | taskResume hdumper =>
    obtain ⟨-, hnone, -⟩ := h.covered
    refine ⟨h.known, h.started, List.nil_subset _, fun t n hn => ?_, ?_, trivial⟩
    · have hcount := h.counts t n hn
      simp only [Phase.held, hnone hdumper] at hcount
      exact hcount
    · have htask := h.taskCount
      simp only [Phase.taskHeld, hdumper, if_true] at htask ⊢
      omega

theorem inv_of_runsTo {s : Dumping M} (hw₀ : w₀.Known) (h : RunsTo dumper w₀ s) :
    Inv dumper w₀ s := by
  induction h with
  | refl => exact inv_start hw₀
  | tail _ hstep ih => exact ih.step hw₀ hstep

end Invariant

section Dumping

variable {M : Type} {dumper : Option UInt32} {w₀ : World M}

/-- While a dump reads the target, nothing changes, whatever the threads do from there, exactly when
no thread runs that was started after the threads were listed. In a dump of another task nothing
ever does. -/
theorem dumping_frozen_iff {w : World M} {listed suspended : List UInt32} {log : List SuspendEvent}
    (hw₀ : w₀.Known) (h : RunsTo dumper w₀ ⟨w, .dumping listed suspended, log⟩) :
    (w.Frozen dumper ↔ ∀ t, some t ≠ dumper → t ∉ listed → ¬ w.Runs t)
      ∧ (dumper = none → w.Frozen dumper) := by
  have hinv := inv_of_runsTo hw₀ h
  obtain ⟨-, -, hall⟩ := hinv.covered
  rw [World.frozen_iff]
  refine ⟨⟨fun hrest t hne _ => hrest t hne, fun hlate t hne hruns => ?_⟩,
    fun hnone t _ hruns => ?_⟩
  · by_cases ht : t ∈ listed
    · have hlive : w.counts t ≠ none := by
        rw [hruns.2]
        exact Option.some_ne_none 0
      have hheld := List.count_pos_iff.2 (hall t ht hne hlive)
      have hcount : 0 = (w₀.counts t).getD 0 + suspended.count t := hinv.counts t 0 hruns.2
      omega
    · exact hlate t hne ht hruns
  · have htask := hinv.taskCount
    simp only [Phase.taskHeld, hnone, if_true, hruns.1] at htask
    omega

end Dumping

section Calls

/-- A self dump of these threads in which nothing else fails, with these answers of
`thread_suspend`. -/
def answering (dumper : UInt32) (listed : List UInt32) (answers : ℕ → Bool) : SuspendEnv where
  pidForTask := true
  setSize := .returned true
  selfDump := true
  taskSuspend := true
  taskThreads := some listed
  threadSelf := dumper
  threadSuspend := answers
  reserve := true
  growth _ := true
  rest := .returned true

def suspends (threads : List UInt32) : List SuspendEvent :=
  threads.map fun port => .suspend (.thread port)

theorem SuspendEnv.suspendable_append (env : SuspendEnv) :
    ∀ (ports ports' : List UInt32) (i : ℕ), env.suspendable i (ports ++ ports')
      = env.suspendable i ports ++ env.suspendable (i + ports.length) ports'
  | [], _, _ => rfl
  | port :: ports, ports', i => by
    have ih := suspendable_append env ports ports' (i + 1)
    rw [Nat.add_right_comm, Nat.add_assoc i] at ih
    simp only [List.cons_append, suspendable, List.length_cons, ih]
    split_ifs <;> rfl

theorem SuspendEnv.suspendable_congr {env env' : SuspendEnv}
    (hself : env.threadSelf = env'.threadSelf) :
    ∀ (ports : List UInt32) (i : ℕ),
      (∀ j, i ≤ j → j < i + ports.length → env.threadSuspend j = env'.threadSuspend j) →
      env.suspendable i ports = env'.suspendable i ports
  | [], _, _ => rfl
  | port :: ports, i, h => by
    have ih := suspendable_congr hself ports (i + 1) fun j hj hj' =>
      h j (by omega) (by rw [List.length_cons]; omega)
    simp only [suspendable, hself, h i le_rfl (by simp), ih]

/-- The answers so far and one more. -/
theorem suspendable_answer {dumper t : UInt32} (listed done : List UInt32) (answers : ℕ → Bool)
    (answer : Bool) (hne : t ≠ dumper) :
    (answering dumper listed (Function.update answers done.length answer)).suspendable 0
    (done ++ [t])
      = (answering dumper listed answers).suspendable 0 done ++ if answer then [t] else [] := by
  have hself : (answering dumper listed (Function.update answers done.length answer)).threadSelf
      = (answering dumper listed answers).threadSelf := rfl
  rw [SuspendEnv.suspendable_append, SuspendEnv.suspendable_congr hself done 0 fun j _ hj =>
    Function.update_of_ne (by omega) _ _]
  cases answer <;> simp [SuspendEnv.suspendable, answering, hne]

/-- The calls so far are those of the code, with what the kernel has answered. -/
def Phase.Logged (dumper : Option UInt32) (log : List SuspendEvent) : Phase → Prop
  | .starting => log = []
  | .suspending listed todo suspended => log = suspends suspended ∧ ∃ t done answers,
      dumper = some t ∧ listed = done ++ todo
        ∧ suspended = (answering t listed answers).suspendable 0 done
  | .dumping listed suspended => (dumper = none ∧ log = [.suspend .task]) ∨ ∃ t answers,
      dumper = some t ∧ log = suspends suspended
        ∧ suspended = (answering t listed answers).suspendable 0 listed
  | .resuming suspended todo => ∃ t listed answers resumed, dumper = some t
      ∧ suspended = resumed ++ todo
      ∧ suspended = (answering t listed answers).suspendable 0 listed
      ∧ log = suspends suspended ++ SuspendEnv.resumeThreads resumed
  | .done => ∃ env : SuspendEnv, env.miniDumpWriteDumpImpl.2 = log

variable {M : Type} {dumper : Option UInt32} {w₀ : World M}

theorem SuspendEnv.miniDumpWriteDumpImpl_of_suspended {env : SuspendEnv} {threads : List UInt32}
    {log : List SuspendEvent} (hpid : env.pidForTask = true) (hsize : env.setSize = .returned true)
    (hself : env.selfDump = true)
    (hall : env.suspendAllThreadsExceptCurrentOne = (.returned (some threads), log)) :
    env.miniDumpWriteDumpImpl = (env.rest, log ++ resumeThreads threads) := by
  simp [miniDumpWriteDumpImpl, hpid, hsize, hself, hall]

theorem miniDumpWriteDumpImpl_answering (t : UInt32) (listed : List UInt32) (answers : ℕ → Bool) :
    (answering t listed answers).miniDumpWriteDumpImpl = (.returned true,
      suspends ((answering t listed answers).suspendable 0 listed)
        ++ SuspendEnv.resumeThreads ((answering t listed answers).suspendable 0 listed)) := by
  refine SuspendEnv.miniDumpWriteDumpImpl_of_suspended rfl rfl rfl
    (SuspendEnv.suspendAll_of_growth rfl (.inr rfl) ?_)
  rintro ⟨k, -, -, hgrowth⟩
  exact Bool.noConfusion hgrowth

theorem Phase.Logged.step {s s' : Dumping M} (h : s.phase.Logged dumper s.log)
    (hs : Step dumper s s') : s'.phase.Logged dumper s'.log := by
  cases hs with
  | target hw => exact h
  | @fails w log =>
    obtain rfl : log = [] := h
    exact ⟨{ answering 0 [] (fun _ => true) with pidForTask := false }, rfl⟩
  | @taskSuspend w log hdumper =>
    obtain rfl : log = [] := h
    exact .inl ⟨hdumper, rfl⟩
  | taskThreads listed hdumper hlisted =>
    obtain ⟨t, ht⟩ := Option.ne_none_iff_exists'.1 hdumper
    exact ⟨h, t, [], fun _ => true, ht, rfl, rfl⟩
  | @skip w listed todo suspended log t hdumper =>
    obtain ⟨hlog, t', done, answers, hd, hlisted, hsuspended⟩ := h
    obtain rfl : t' = t := Option.some.inj (hd.symm.trans hdumper)
    refine ⟨hlog, t', done ++ [t'], answers, hd, by simpa using hlisted, ?_⟩
    rw [SuspendEnv.suspendable_append, ← hsuspended]
    simp [SuspendEnv.suspendable, answering]
  | @suspend w w' listed todo suspended log t hne hw =>
    obtain ⟨hlog, t', done, answers, hd, hlisted, hsuspended⟩ := h
    have hne' : t ≠ t' := fun heq => hne (by rw [hd, heq])
    refine ⟨?_, t', done ++ [t], _, hd, by simpa using hlisted,
      (hsuspended ▸ suspendable_answer listed done answers true hne').symm⟩
    simp only [suspends, List.map_append] at hlog ⊢
    rw [hlog]
    rfl
  | @gone w w' listed todo suspended log t hne hw =>
    obtain ⟨hlog, t', done, answers, hd, hlisted, hsuspended⟩ := h
    have hne' : t ≠ t' := fun heq => hne (by rw [hd, heq])
    have hanswer := suspendable_answer listed done answers false hne'
    rw [← hsuspended, if_neg Bool.false_ne_true, List.append_nil] at hanswer
    exact ⟨hlog, t', done ++ [t], _, hd, by simpa using hlisted, hanswer.symm⟩
  | suspended =>
    obtain ⟨hlog, t, done, answers, hd, hlisted, hsuspended⟩ := h
    rw [List.append_nil] at hlisted
    exact .inr ⟨t, answers, hd, hlog, by rw [hlisted]; exact hlisted ▸ hsuspended⟩
  | resumeThreads hdumper =>
    obtain ⟨hnone, -⟩ | ⟨t, answers, hd, hlog, hsuspended⟩ := h
    · exact absurd hnone hdumper
    · exact ⟨t, _, answers, [], hd, rfl, hsuspended, hlog.trans (List.append_nil _).symm⟩
  | @resume w suspended todo log t =>
    obtain ⟨t', listed, answers, resumed, hd, hsplit, hsuspended, hlog⟩ := h
    refine ⟨t', listed, answers, resumed ++ [t], hd, by simpa using hsplit, hsuspended, ?_⟩
    simp only [SuspendEnv.resumeThreads, List.map_append] at hlog ⊢
    rw [hlog, List.append_assoc]
    rfl
  | resumed =>
    obtain ⟨t, listed, answers, resumed, -, hsplit, hsuspended, hlog⟩ := h
    rw [List.append_nil] at hsplit
    refine ⟨_, (congrArg Prod.snd (miniDumpWriteDumpImpl_answering t listed answers)).trans ?_⟩
    simp only at hlog
    rw [hlog, ← hsuspended, ← hsplit]
  | taskResume hdumper =>
    obtain ⟨-, hlog⟩ | ⟨t, -, hd, -⟩ := h
    · simp only at hlog
      exact ⟨{ answering 0 [] (fun _ => true) with selfDump := false }, by rw [hlog]; rfl⟩
    · exact absurd (hd.symm.trans hdumper) (Option.some_ne_none t)

/-- When a dump is done, in any interleaving with the target, every thread that has not ended is
suspended as often as before, and so is the task. The calls it has made are those that the code
makes with what the kernel answered. -/
theorem done_restores {w : World M} {log : List SuspendEvent} (hw₀ : w₀.Known)
    (h : RunsTo dumper w₀ ⟨w, .done, log⟩) :
    (∀ t n, w.counts t = some n → n = (w₀.counts t).getD 0) ∧ w.taskCount = w₀.taskCount
      ∧ ∃ env : SuspendEnv, env.miniDumpWriteDumpImpl.2 = log := by
  have hinv := inv_of_runsTo hw₀ h
  have hlogged : ∀ s, RunsTo dumper w₀ s → s.phase.Logged dumper s.log := by
    intro s hs
    induction hs with
    | refl => exact rfl
    | tail _ hstep ih => exact ih.step hstep
  exact ⟨fun t n hn => hinv.counts t n hn, hinv.taskCount, hlogged _ h⟩

end Calls

/-- Two threads that run. -/
def twoThreads : World ℕ where
  memory := 0
  taskCount := 0
  counts t := if t = 1 ∨ t = 2 then some 0 else none
  started := [1, 2]

theorem mem_started_twoThreads (t : UInt32) :
    t ∈ [(1 : UInt32), 2] ↔ twoThreads.counts t ≠ none := by
  by_cases ht : t = 1 ∨ t = 2 <;> simp [twoThreads, ht]

theorem known_twoThreads : twoThreads.Known := fun t => (mem_started_twoThreads t).2

/-- The other thread starts a third one before it is suspended. -/
def thirdThread : World ℕ :=
  { twoThreads.setCount 3 (some 0) with started := 3 :: twoThreads.started }

theorem runsTo_thirdThread : RunsTo (some 1) twoThreads
    ⟨thirdThread.setCount 2 (some 1), .dumping [1, 2] [2], [.suspend (.thread 2)]⟩ := by
  have hlist : Step (some 1) ⟨twoThreads, .starting, []⟩
      ⟨twoThreads, .suspending [1, 2] [1, 2] [], []⟩ :=
    .taskThreads [1, 2] (Option.some_ne_none 1) mem_started_twoThreads
  have hstart : Step (some 1) ⟨twoThreads, .suspending [1, 2] [1, 2] [], []⟩
      ⟨thirdThread, .suspending [1, 2] [1, 2] [], []⟩ :=
    .target ⟨2, by decide, .start 3 ⟨rfl, rfl⟩ (by decide)⟩
  have hskip : Step (some 1) ⟨thirdThread, .suspending [1, 2] [1, 2] [], []⟩
      ⟨thirdThread, .suspending [1, 2] [2] [], []⟩ := .skip rfl
  have hsuspend : Step (some 1) ⟨thirdThread, .suspending [1, 2] [2] [], []⟩
      ⟨thirdThread.setCount 2 (some 1), .suspending [1, 2] [] [2], [.suspend (.thread 2)]⟩ :=
    .suspend (by decide) rfl
  have hrun := ((Relation.ReflTransGen.single hlist).tail hstart).tail hskip
  exact (hrun.tail hsuspend).tail .suspended

/-- The third thread goes on while the dump is made. -/
theorem dumping_frozen_iff_thirdThread :
    ¬ (thirdThread.setCount 2 (some 1)).Frozen (some 1) := by
  intro hfrozen
  exact (dumping_frozen_iff known_twoThreads runsTo_thirdThread).1.1 hfrozen 3
    (by decide) (by decide)
    ⟨rfl, rfl⟩

theorem done_restores_thirdThread :
    ∃ w, RunsTo (some 1) twoThreads
        ⟨w, .done, [.suspend (.thread 2), .resume (.thread 2)]⟩
      ∧ ∀ t n, w.counts t = some n → n = 0 := by
  have hresume : Step (some 1)
      ⟨thirdThread.setCount 2 (some 1), .resuming [2] [2], [.suspend (.thread 2)]⟩
      ⟨((thirdThread.setCount 2 (some 1)).threadResume 2).2, .resuming [2] [],
        [.suspend (.thread 2), .resume (.thread 2)]⟩ := .resume
  have hreach := ((runsTo_thirdThread.tail (.resumeThreads (Option.some_ne_none 1))).tail
    hresume).tail .resumed
  refine ⟨_, hreach, fun t n hn => ?_⟩
  rw [(done_restores known_twoThreads hreach).1 t n hn]
  by_cases ht : t = 1 ∨ t = 2 <;> simp [twoThreads, ht]

end MacMiniDump
