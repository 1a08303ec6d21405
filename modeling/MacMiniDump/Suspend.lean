import Mathlib.Data.List.Basic
import Mathlib.Data.List.Count
import Mathlib.Order.MinMax

/-!
# Suspending the target

What a dump suspends and resumes, whatever fails on its way. Once `defer` is in place every exit
resumes what was suspended. Before that, the vector of suspended threads has to grow with a thread
already suspended, and when it cannot, `std::bad_alloc` leaves with the threads still suspended:
the run is balanced exactly when that does not happen (`miniDumpWriteDump_balanced_iff`).
-/

namespace MacMiniDump

/-- How a call ends: it returns, or throws `std::bad_alloc`. -/
inductive Exit (α : Type)
  | returned (a : α)
  | badAlloc
  deriving DecidableEq, Repr

inductive Suspendable
  | task
  | thread (port : UInt32)
  deriving DecidableEq, Repr

/-- The calls that change a suspend count. -/
inductive SuspendEvent
  | suspend (x : Suspendable)
  | resume (x : Suspendable)
  deriving DecidableEq, Repr

/-- Each one is resumed as often as it was suspended, and never ahead of that. -/
structure Balanced (log : List SuspendEvent) : Prop where
  settled : ∀ x, log.count (.suspend x) = log.count (.resume x)
  sane : ∀ x p, p <+: log → p.count (.resume x) ≤ p.count (.suspend x)

/-- What a run depends on: the answers of the kernel, of the stream and of the allocator, and how
the dump ends once everything is suspended. -/
structure SuspendEnv where
  pidForTask : Bool
  setSize : Exit Bool
  selfDump : Bool
  taskSuspend : Bool
  taskThreads : Option (List UInt32)
  threadSelf : UInt32
  /-- of the thread at the index -/
  threadSuspend : ℕ → Bool
  /-- the allocation of `threadRefs.reserve` -/
  reserve : Bool
  /-- the allocation that `suspendedThreads` grows by when it is full with so many elements -/
  growth : ℕ → Bool
  rest : Exit Bool

/-- `suspendedThreads` -/
structure PortVector where
  ports : List UInt32
  capacity : ℕ

namespace SuspendEnv

variable (env : SuspendEnv)

def pushBack (v : PortVector) (port : UInt32) : Exit PortVector :=
  if v.ports.length < v.capacity then .returned { v with ports := v.ports ++ [port] }
  else if env.growth v.ports.length then
    .returned ⟨v.ports ++ [port], max (2 * v.capacity) (v.ports.length + 1)⟩
  else .badAlloc

/-- The loop that suspends, from the thread at the index on. -/
def suspendLoop :
    ℕ → List UInt32 → PortVector → List SuspendEvent → Exit PortVector × List SuspendEvent
  | _, [], v, log => (.returned v, log)
  | i, port :: ports, v, log =>
    if port = env.threadSelf then suspendLoop (i + 1) ports v log
    else if env.threadSuspend i then
      match env.pushBack v port with
      | .badAlloc => (.badAlloc, log ++ [.suspend (.thread port)])
      | .returned v' => suspendLoop (i + 1) ports v' (log ++ [.suspend (.thread port)])
    else suspendLoop (i + 1) ports v log

/-- The threads it has suspended, `none` when it returned `false`. -/
def suspendAllThreadsExceptCurrentOne : Exit (Option (List UInt32)) × List SuspendEvent :=
  match env.taskThreads with
  | none => (.returned none, [])
  | some threads =>
    if threads ≠ [] ∧ env.reserve = false then (.badAlloc, [])
    else
      match env.suspendLoop 0 threads ⟨[], 0⟩ [] with
      | (.badAlloc, log) => (.badAlloc, log)
      | (.returned v, log) => (.returned (some v.ports), log)

def resumeThreads (threads : List UInt32) : List SuspendEvent :=
  threads.map fun port => .resume (.thread port)

/-- What is deferred is done however the rest ends. -/
def miniDumpWriteDumpImpl : Exit Bool × List SuspendEvent :=
  if !env.pidForTask then (.returned false, [])
  else
    match env.setSize with
    | .badAlloc => (.badAlloc, [])
    | .returned false => (.returned false, [])
    | .returned true =>
      if !env.selfDump then
        if !env.taskSuspend then (.returned false, [])
        else (env.rest, [.suspend .task, .resume .task])
      else
        match env.suspendAllThreadsExceptCurrentOne with
        | (.badAlloc, log) => (.badAlloc, log)
        | (.returned none, log) => (.returned false, log)
        | (.returned (some threads), log) => (env.rest, log ++ resumeThreads threads)

def miniDumpWriteDump : Bool × List SuspendEvent :=
  match env.miniDumpWriteDumpImpl with
  | (.returned b, log) => (b, log)
  | (.badAlloc, log) => (false, log)

/-- The threads that get suspended when nothing fails to allocate. -/
def suspendable : ℕ → List UInt32 → List UInt32
  | _, [] => []
  | i, port :: ports =>
    if port ≠ env.threadSelf ∧ env.threadSuspend i = true then port :: suspendable (i + 1) ports
    else suspendable (i + 1) ports

/-- The capacity of a vector that has grown to so many elements one by one. -/
def capacityAfter : ℕ → ℕ
  | 0 => 0
  | n + 1 => if n < capacityAfter n then capacityAfter n else max (2 * capacityAfter n) (n + 1)

/-- The vector of suspended threads is full on the way to `n` elements and cannot grow. -/
def GrowthFails (n : ℕ) : Prop := ∃ k < n, ¬ k < capacityAfter k ∧ env.growth k = false

/-- It does so in the loop that suspends the threads of a self dump. -/
def GrowthFailsInLoop : Prop :=
  env.pidForTask = true ∧ env.setSize = .returned true ∧ env.selfDump = true
    ∧ ∃ threads, env.taskThreads = some threads ∧ (threads = [] ∨ env.reserve = true)
      ∧ env.GrowthFails (env.suspendable 0 threads).length

variable {env}

theorem balanced_nil : Balanced [] where
  settled _ := rfl
  sane x p hp := by
    rw [List.prefix_nil.1 hp]
    exact le_rfl

theorem count_suspends_resume (ports : List UInt32) (x : Suspendable) :
    (ports.map fun p => SuspendEvent.suspend (.thread p)).count (.resume x) = 0 := by
  refine List.count_eq_zero.2 fun h => ?_
  obtain ⟨p, -, hp⟩ := List.mem_map.1 h
  simp at hp

theorem count_resumes_suspend (ports : List UInt32) (x : Suspendable) :
    (resumeThreads ports).count (.suspend x) = 0 := by
  refine List.count_eq_zero.2 fun h => ?_
  obtain ⟨p, -, hp⟩ := List.mem_map.1 h
  simp at hp

theorem count_suspends_eq : ∀ (ports : List UInt32) (x : Suspendable),
    (ports.map fun p => SuspendEvent.suspend (.thread p)).count (.suspend x)
      = (resumeThreads ports).count (.resume x)
  | [], _ => rfl
  | p :: ports, x => by
    have ih := count_suspends_eq ports x
    unfold resumeThreads at ih ⊢
    rw [List.map_cons, List.map_cons, List.count_cons, List.count_cons, ih]
    simp

/-- Threads that are suspended and then all resumed. -/
theorem balanced_suspends_resumes (ports : List UInt32) :
    Balanced (ports.map (fun p => .suspend (.thread p)) ++ resumeThreads ports) where
  settled x := by
    rw [List.count_append, List.count_append, count_suspends_resume, count_resumes_suspend,
      count_suspends_eq, Nat.zero_add, Nat.add_zero]
  sane x p hp := by
    rcases List.prefix_or_prefix_of_prefix hp (List.prefix_append _ _) with h | ⟨q, rfl⟩
    · have hle := h.sublist.count_le (SuspendEvent.resume x)
      rw [count_suspends_resume] at hle
      exact hle.trans (Nat.zero_le _)
    · have hq := ((List.prefix_append_right_inj _).1 hp).sublist.count_le (SuspendEvent.resume x)
      rw [List.count_append, List.count_append, count_suspends_resume, count_suspends_eq,
        Nat.zero_add]
      exact hq.trans (Nat.le_add_right _ _)

/-- Threads that are suspended and not resumed. -/
theorem not_balanced_suspends {ports : List UInt32} (h : ports ≠ []) :
    ¬ Balanced (ports.map fun p => .suspend (.thread p)) := by
  intro hb
  obtain ⟨p, rest, rfl⟩ := List.exists_cons_of_ne_nil h
  have hs := hb.settled (.thread p)
  rw [count_suspends_resume, List.map_cons, List.count_cons_self] at hs
  omega

/-- The vector with these elements, grown one by one. -/
def grown (ports : List UInt32) : PortVector := ⟨ports, capacityAfter ports.length⟩

theorem pushBack_grown (ports : List UInt32) (port : UInt32) :
    env.pushBack (grown ports) port
      = if ¬ ports.length < capacityAfter ports.length ∧ env.growth ports.length = false then
          .badAlloc
        else .returned (grown (ports ++ [port])) := by
  unfold pushBack grown
  simp only [List.length_append, List.length_singleton, capacityAfter]
  by_cases hroom : ports.length < capacityAfter ports.length
  · simp [hroom]
  · rcases Bool.eq_false_or_eq_true (env.growth ports.length) with hg | hg
    · simp [hroom, hg]
    · simp [hroom, hg]

theorem suspendLoop_of_growth :
    ∀ (ports : List UInt32) (i : ℕ) (done : List UInt32) (log : List SuspendEvent),
      (∀ k, done.length ≤ k → k < done.length + (env.suspendable i ports).length →
        k < capacityAfter k ∨ env.growth k = true) →
      env.suspendLoop i ports (grown done) log
        = (.returned (grown (done ++ env.suspendable i ports)),
          log ++ (env.suspendable i ports).map fun p => .suspend (.thread p))
  | [], i, done, log, _ => by simp [suspendLoop, suspendable]
  | port :: ports, i, done, log, h => by
    unfold suspendLoop
    unfold suspendable at h ⊢
    by_cases hself : port = env.threadSelf
    · simp only [hself, ne_eq, not_true_eq_false, false_and, if_false, if_true] at h ⊢
      exact suspendLoop_of_growth ports (i + 1) done log h
    rcases Bool.eq_false_or_eq_true (env.threadSuspend i) with hs | hs
    · simp only [hself, ne_eq, not_false_eq_true, hs, and_self, if_true, if_false,
        List.length_cons] at h ⊢
      have hroom := h done.length le_rfl (by omega)
      rw [pushBack_grown, if_neg]
      · simp only []
        rw [suspendLoop_of_growth ports (i + 1) (done ++ [port]) _ fun k hk hk' => ?_]
        · simp
        · rw [List.length_append, List.length_singleton] at hk hk'
          exact h k (by omega) (by omega)
      · rintro ⟨h1, h2⟩
        rcases hroom with h' | h'
        · exact h1 h'
        · simp [h2] at h'
    · simp only [hself, ne_eq, hs, Bool.false_eq_true, and_false, if_false] at h ⊢
      exact suspendLoop_of_growth ports (i + 1) done log h

theorem suspendLoop_of_not_growth :
    ∀ (ports : List UInt32) (i : ℕ) (done : List UInt32) (log : List SuspendEvent) (k : ℕ),
      done.length ≤ k → k < done.length + (env.suspendable i ports).length →
      ¬ k < capacityAfter k → env.growth k = false →
      ∃ suspended, suspended ≠ [] ∧ env.suspendLoop i ports (grown done) log
        = (.badAlloc, log ++ suspended.map fun p => .suspend (.thread p))
  | [], i, done, log, k, h1, h2, _, _ => by
    simp only [suspendable, List.length_nil] at h2
    omega
  | port :: ports, i, done, log, k, h1, h2, hfull, hgrow => by
    unfold suspendLoop
    unfold suspendable at h2
    by_cases hself : port = env.threadSelf
    · simp only [hself, ne_eq, not_true_eq_false, false_and, if_false, if_true] at h2 ⊢
      exact suspendLoop_of_not_growth ports (i + 1) done log k h1 h2 hfull hgrow
    rcases Bool.eq_false_or_eq_true (env.threadSuspend i) with hs | hs
    · simp only [hself, ne_eq, not_false_eq_true, hs, and_self, if_true, if_false,
        List.length_cons] at h2 ⊢
      rw [pushBack_grown]
      by_cases hfail : ¬ done.length < capacityAfter done.length ∧ env.growth done.length = false
      · rw [if_pos hfail]
        exact ⟨[port], by simp, rfl⟩
      · have hne : k ≠ done.length := by
          rintro rfl
          exact hfail ⟨hfull, hgrow⟩
        rw [if_neg hfail]
        have hlen : (done ++ [port]).length = done.length + 1 := by simp
        obtain ⟨suspended, -, hloop⟩ := suspendLoop_of_not_growth ports (i + 1) (done ++ [port])
          (log ++ [.suspend (.thread port)]) k (by omega) (by omega) hfull hgrow
        exact ⟨port :: suspended, by simp, by simpa using hloop⟩
    · simp only [hself, ne_eq, hs, Bool.false_eq_true, and_false, if_false] at h2 ⊢
      exact suspendLoop_of_not_growth ports (i + 1) done log k h1 h2 hfull hgrow

/-- Where the reservation does not fail. -/
theorem reserves {threads : List UInt32} (hr : threads = [] ∨ env.reserve = true) :
    ¬ (threads ≠ [] ∧ env.reserve = false) := by
  rintro ⟨hne, hfails⟩
  rcases hr with hr | hr
  · exact hne hr
  · rw [hfails] at hr
    cases hr

theorem suspendAll_of_growth {threads : List UInt32} (ht : env.taskThreads = some threads)
    (hr : threads = [] ∨ env.reserve = true)
    (h : ¬ env.GrowthFails (env.suspendable 0 threads).length) :
    env.suspendAllThreadsExceptCurrentOne = (.returned (some (env.suspendable 0 threads)),
      (env.suspendable 0 threads).map fun p => .suspend (.thread p)) := by
  have hloop : env.suspendLoop 0 threads ⟨[], 0⟩ [] = _ :=
    suspendLoop_of_growth threads 0 [] [] fun k _ hk => by
      rw [List.length_nil, Nat.zero_add] at hk
      by_contra hc
      push Not at hc
      exact h ⟨k, hk, not_lt.2 hc.1, by simpa using hc.2⟩
  rw [suspendAllThreadsExceptCurrentOne, ht]
  simp only [if_neg (reserves hr), hloop]
  rfl

theorem suspendAll_of_not_growth {threads : List UInt32} (ht : env.taskThreads = some threads)
    (hr : threads = [] ∨ env.reserve = true)
    (h : env.GrowthFails (env.suspendable 0 threads).length) :
    ∃ suspended, suspended ≠ [] ∧ env.suspendAllThreadsExceptCurrentOne
      = (.badAlloc, suspended.map fun p => .suspend (.thread p)) := by
  obtain ⟨k, hk, hfull, hgrow⟩ := h
  obtain ⟨suspended, hne, hloop⟩ := suspendLoop_of_not_growth threads 0 [] [] k (Nat.zero_le _)
    (by simpa using hk) hfull hgrow
  have hloop' : env.suspendLoop 0 threads ⟨[], 0⟩ [] = _ := hloop
  refine ⟨suspended, hne, ?_⟩
  rw [suspendAllThreadsExceptCurrentOne, ht]
  simp only [if_neg (reserves hr), hloop']
  rfl

/-- The log does not depend on how the call ends. -/
theorem log_miniDumpWriteDump : env.miniDumpWriteDump.2 = env.miniDumpWriteDumpImpl.2 := by
  unfold miniDumpWriteDump
  split <;> rename_i h <;> rw [h]

theorem not_balanced_of_growthFails (h : env.GrowthFailsInLoop) :
    ¬ Balanced env.miniDumpWriteDump.2 := by
  obtain ⟨hpid, hset, hself, threads, ht, hr, hg⟩ := h
  obtain ⟨suspended, hne, hall⟩ := suspendAll_of_not_growth ht hr hg
  have himpl : env.miniDumpWriteDumpImpl
      = (.badAlloc, suspended.map fun p => .suspend (.thread p)) := by
    simp [miniDumpWriteDumpImpl, hpid, hset, hself, hall]
  rw [log_miniDumpWriteDump, himpl]
  exact not_balanced_suspends hne

theorem balanced_of_not_growthFails (h : ¬ env.GrowthFailsInLoop) :
    Balanced env.miniDumpWriteDump.2 := by
  rw [log_miniDumpWriteDump, miniDumpWriteDumpImpl]
  rcases hpid : env.pidForTask with _ | _
  · exact balanced_nil
  simp only [Bool.not_true, Bool.false_eq_true, if_false]
  rcases hset : env.setSize with (_ | _) | _
  · exact balanced_nil
  · rcases hself : env.selfDump with _ | _
    · simp only [Bool.not_false, if_true]
      split
      · exact balanced_nil
      · refine ⟨fun x => ?_, fun x p hp => ?_⟩
        · simp [List.count_cons]
        · have hcases : p = [] ∨ p = [.suspend .task] ∨ p = [.suspend .task, .resume .task] := by
            rcases List.prefix_cons_iff.1 hp with rfl | ⟨t, rfl, ht⟩
            · exact .inl rfl
            rcases List.prefix_cons_iff.1 ht with rfl | ⟨t', rfl, ht'⟩
            · exact .inr (.inl rfl)
            · exact .inr (.inr (by rw [List.prefix_nil.1 ht']))
          rcases hcases with rfl | rfl | rfl <;> simp [List.count_cons]
    · simp only [Bool.not_true, Bool.false_eq_true, if_false]
      rcases ht : env.taskThreads with _ | threads
      · simp only [suspendAllThreadsExceptCurrentOne, ht]
        exact balanced_nil
      by_cases hr : threads = [] ∨ env.reserve = true
      · have hg : ¬ env.GrowthFails (env.suspendable 0 threads).length :=
          fun hg => h ⟨hpid, hset, hself, threads, ht, hr, hg⟩
        rw [suspendAll_of_growth ht hr hg]
        exact balanced_suspends_resumes _
      · push Not at hr
        have hres : threads ≠ [] ∧ env.reserve = false := ⟨hr.1, by simpa using hr.2⟩
        simp only [suspendAllThreadsExceptCurrentOne, ht, if_pos hres]
        exact balanced_nil
  · exact balanced_nil

/-- A run is balanced unless the vector of suspended threads fails to grow while they are being
suspended. -/
theorem miniDumpWriteDump_balanced_iff (env : SuspendEnv) :
    Balanced env.miniDumpWriteDump.2 ↔ ¬ env.GrowthFailsInLoop :=
  ⟨fun hb hg => not_balanced_of_growthFails hg hb, balanced_of_not_growthFails⟩

end SuspendEnv

/-- A self dump with one other thread, and no memory to note that it was suspended. -/
def noMemory : SuspendEnv where
  pidForTask := true
  setSize := .returned true
  selfDump := true
  taskSuspend := true
  taskThreads := some [1, 2]
  threadSelf := 1
  threadSuspend _ := true
  reserve := true
  growth _ := false
  rest := .returned true

/-- The other thread stays suspended. -/
theorem not_balanced_noMemory : ¬ Balanced noMemory.miniDumpWriteDump.2 := by
  intro h
  exact absurd (h.settled (.thread 2)) (by decide)

end MacMiniDump
