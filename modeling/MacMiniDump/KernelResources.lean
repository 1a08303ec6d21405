import MacMiniDump.Lib.Loop
import MacMiniDump.MachPortSendRightRef
import MacMiniDump.Suspend

/-!
# What the kernel gives to a dump

`mach_thread_self` and `task_threads` give send rights to threads, and `task_threads` also memory
for its array. References hold the rights from the moment they are wrapped, and deallocate them on
every exit. But the vector of references is reserved before that, and the array has no owner at all:
a `std::bad_alloc` in between loses them (`miniDumpWriteDump_releases`).
-/

namespace MacMiniDump

/-- Does it return something? -/
def Exit.isSome {α : Type} : Exit (Option α) → Exit Bool
  | .returned a => .returned a.isSome
  | .badAlloc => .badAlloc

/-- What the kernel has given, and what it has got back. -/
structure Ledger where
  received : List SendRight
  deallocated : List SendRight
  arrays : ℕ
  freed : ℕ

/-- The answers that a dump gets, of the kernel and of the allocator. -/
structure ResourceEnv where
  machTaskSelf : UInt32
  /-- up to `AddThreadsToCore`; what the rest comes to is in the other fields -/
  suspension : SuspendEnv
  /-- `ModuleList modules (taskPort)`, whose buffers have sizes that the target says -/
  modules : Exit Unit
  /-- `task_threads` in `AddThreadsToCore` -/
  taskThreads : Option (List UInt32)
  /-- the allocation of `threadRefs.reserve` in it -/
  reserve : Bool
  /-- its loops over the threads and the ranges -/
  collect : Exit Unit
  /-- what comes after it -/
  finish : Exit Bool

namespace Ledger

def empty : Ledger := ⟨[], [], 0, 0⟩

variable (l : Ledger)

def machThreadSelf (right : Option SendRight) : Ledger :=
  { l with received := l.received ++ right.toList }

def taskThreads (rights : List SendRight) : Ledger :=
  { l with received := l.received ++ rights, arrays := l.arrays + 1 }

/-- `vm_deallocate` of an array -/
def vmDeallocate : Ledger := { l with freed := l.freed + 1 }

/-- References go out of scope. -/
def destroy (machTaskSelf : UInt32) (refs : List MachPortSendRightRef) : Ledger :=
  { l with deallocated := l.deallocated ++ refs.filterMap (·.destroy machTaskSelf) }

end Ledger

namespace ResourceEnv

variable (env : ResourceEnv)

def wrap (port : UInt32) : MachPortSendRightRef := .wrap port env.machTaskSelf

/-- The rights to threads that `task_threads` gives. -/
def rights (threads : List UInt32) : List SendRight :=
  threads.filterMap (sendRight · env.machTaskSelf)

/-- The loop that fills `threadRefs`, each element from a temporary. -/
def wrapThreads : List UInt32 → List MachPortSendRightRef × Ledger →
    List MachPortSendRightRef × Ledger
  | [], s => s
  | port :: ports, (refs, l) =>
    let temporary := env.wrap port
    wrapThreads ports (refs ++ [temporary.moveConstruct.1],
      l.destroy env.machTaskSelf [temporary.moveConstruct.2])

/-- The loop that suspends, with the references that are left in `threadRefs` and those in
`suspendedThreads`. -/
def suspendLoop : ℕ → List MachPortSendRightRef → PortVector → List MachPortSendRightRef →
    Exit PortVector × List MachPortSendRightRef × List MachPortSendRightRef
  | _, [], v, suspended => (.returned v, [], suspended)
  | i, ref :: refs, v, suspended =>
    if ref.port = env.suspension.threadSelf then
      let (exit, left, suspended) := suspendLoop (i + 1) refs v suspended
      (exit, ref :: left, suspended)
    else if env.suspension.threadSuspend i then
      match env.suspension.pushBack v ref.port with
      | .badAlloc => (.badAlloc, ref :: refs, suspended)
      | .returned v =>
        let (exit, left, suspended) :=
          suspendLoop (i + 1) refs v (suspended ++ [ref.moveConstruct.1])
        (exit, ref.moveConstruct.2 :: left, suspended)
    else
      let (exit, left, suspended) := suspendLoop (i + 1) refs v suspended
      (exit, ref :: left, suspended)

def suspendAllThreadsExceptCurrentOne (l : Ledger) :
    Exit (Option (List MachPortSendRightRef)) × Ledger :=
  let thisThreadRef := env.wrap env.suspension.threadSelf
  let l := l.machThreadSelf (sendRight env.suspension.threadSelf env.machTaskSelf)
  match env.suspension.taskThreads with
  | none => (.returned none, l.destroy env.machTaskSelf [thisThreadRef])
  | some threads =>
    let l := l.taskThreads (env.rights threads)
    if threads ≠ [] ∧ env.suspension.reserve = false then
      (.badAlloc, l.destroy env.machTaskSelf [thisThreadRef])
    else
      let (threadRefs, l) := env.wrapThreads threads ([], l)
      match env.suspendLoop 0 threadRefs ⟨[], 0⟩ [] with
      | (.badAlloc, left, suspended) =>
        (.badAlloc, l.destroy env.machTaskSelf (left ++ thisThreadRef :: suspended))
      | (.returned _, left, suspended) =>
        (.returned (some suspended),
          l.vmDeallocate.destroy env.machTaskSelf (left ++ [thisThreadRef]))

def addThreadsToCore (l : Ledger) : Exit Bool × Ledger :=
  let thisThreadRef := env.wrap env.suspension.threadSelf
  let l := l.machThreadSelf (sendRight env.suspension.threadSelf env.machTaskSelf)
  match env.taskThreads with
  | none => (.returned false, l.destroy env.machTaskSelf [thisThreadRef])
  | some threads =>
    let l := l.taskThreads (env.rights threads)
    if threads ≠ [] ∧ env.reserve = false then
      (.badAlloc, l.destroy env.machTaskSelf [thisThreadRef])
    else
      let (threadRefs, l) := env.wrapThreads threads ([], l)
      match env.collect with
      | .badAlloc => (.badAlloc, l.destroy env.machTaskSelf (threadRefs ++ [thisThreadRef]))
      | .returned () =>
        (.returned true, l.vmDeallocate.destroy env.machTaskSelf (threadRefs ++ [thisThreadRef]))

/-- What is done with the target suspended. -/
def dump (suspended : List MachPortSendRightRef) (l : Ledger) : Exit Bool × Ledger :=
  match env.modules with
  | .badAlloc => (.badAlloc, l.destroy env.machTaskSelf suspended)
  | .returned () =>
    match env.addThreadsToCore l with
    | (.returned true, l) => (env.finish, l.destroy env.machTaskSelf suspended)
    | (exit, l) => (exit, l.destroy env.machTaskSelf suspended)

def miniDumpWriteDumpImpl : Exit Bool × Ledger :=
  if !env.suspension.pidForTask then (.returned false, .empty)
  else
    match env.suspension.setSize with
    | .badAlloc => (.badAlloc, .empty)
    | .returned false => (.returned false, .empty)
    | .returned true =>
      if !env.suspension.selfDump then
        if !env.suspension.taskSuspend then (.returned false, .empty)
        else env.dump [] .empty
      else
        match env.suspendAllThreadsExceptCurrentOne .empty with
        | (.badAlloc, l) => (.badAlloc, l)
        | (.returned none, l) => (.returned false, l)
        | (.returned (some suspended), l) => env.dump suspended l

/-- The dump suspends its threads one by one. -/
def selfDumps : Bool :=
  env.suspension.pidForTask && env.suspension.setSize == .returned true && env.suspension.selfDump

/-- How the suspension ends, with `true` when the dump goes on to its modules. -/
def suspended : Exit Bool :=
  if env.selfDumps then
    env.suspension.suspendAllThreadsExceptCurrentOne.1.isSome
  else
    .returned (env.suspension.pidForTask && env.suspension.setSize == .returned true
      && env.suspension.taskSuspend)

/-- The dump comes to `AddThreadsToCore`: its target is suspended, and it has its modules. -/
def adds : Bool := env.suspended == .returned true && env.modules == .returned ()

/-- How `AddThreadsToCore` ends. -/
def collected : Exit Bool :=
  match env.taskThreads with
  | none => .returned false
  | some threads =>
    if threads ≠ [] ∧ env.reserve = false then .badAlloc
    else
      match env.collect with
      | .badAlloc => .badAlloc
      | .returned () => .returned true

/-- The rights that are lost when no vector can be reserved for them. -/
def lost (threads : Option (List UInt32)) (reserve : Bool) : List SendRight :=
  if reserve then [] else env.rights (threads.getD [])

/-- There is a right, and no room for the vector it is to be put into. -/
def LosesRights : Prop :=
  (env.selfDumps = true ∧ env.lost env.suspension.taskThreads env.suspension.reserve ≠ [])
    ∨ (env.adds = true ∧ env.lost env.taskThreads env.reserve ≠ [])

/-- An allocation fails while there is an array. -/
def LosesArray : Prop :=
  env.suspended = .badAlloc ∨ (env.adds = true ∧ env.collected = .badAlloc)

end ResourceEnv

/-! ## Where the rights are -/

namespace Ledger

variable {l : Ledger} {machTaskSelf : UInt32} {refs refs' : List MachPortSendRightRef}
variable {lost : List SendRight}

/-- Every right is where it belongs: deallocated, or held by a reference, or lost. -/
def Holds (l : Ledger) (refs : List MachPortSendRightRef) (lost : List SendRight) : Prop :=
  ∀ right, l.received.count right
    = l.deallocated.count right + (refs.filterMap (·.right)).count right + lost.count right

theorem Holds.destroy (h : l.Holds (refs ++ refs') lost) :
    (l.destroy machTaskSelf refs).Holds refs' lost := by
  intro right
  have hr := h right
  rw [List.filterMap_append, List.count_append] at hr
  simp only [Ledger.destroy, MachPortSendRightRef.destroy_eq, List.count_append]
  omega

theorem Holds.destroy_all (h : l.Holds refs lost) : (l.destroy machTaskSelf refs).Holds [] lost :=
  Holds.destroy (by rwa [List.append_nil])

theorem Holds.congr (h : l.Holds refs lost)
    (hrefs : ∀ right, (refs.filterMap (·.right)).count right
      = (refs'.filterMap (·.right)).count right) : l.Holds refs' lost := by
  intro right
  rw [h right, hrefs]

theorem Holds.machThreadSelf (h : l.Holds refs lost) (port machTaskSelf : UInt32) :
    (l.machThreadSelf (sendRight port machTaskSelf)).Holds
      (.wrap port machTaskSelf :: refs) lost := by
  intro right
  have hr := h right
  simp only [Ledger.machThreadSelf, filterMap_cons_toList, List.count_append,
    MachPortSendRightRef.right_wrap]
  omega

/-- The rights that `task_threads` gives are wrapped, or they are lost. -/
theorem Holds.taskThreads (h : l.Holds refs lost) (threads : List UInt32) (machTaskSelf : UInt32) :
    (l.taskThreads (threads.filterMap (sendRight · machTaskSelf))).Holds
        (threads.map (MachPortSendRightRef.wrap · machTaskSelf) ++ refs) lost
      ∧ (l.taskThreads (threads.filterMap (sendRight · machTaskSelf))).Holds refs
        (lost ++ threads.filterMap (sendRight · machTaskSelf)) := by
  have hwrap : (threads.map (MachPortSendRightRef.wrap · machTaskSelf)).filterMap (·.right)
      = threads.filterMap (sendRight · machTaskSelf) := by
    rw [List.filterMap_map]
    rfl
  constructor
  · intro right
    have hr := h right
    simp only [Ledger.taskThreads, List.filterMap_append, List.count_append, hwrap]
    omega
  · intro right
    have hr := h right
    simp only [Ledger.taskThreads, List.count_append]
    omega

end Ledger

namespace ResourceEnv

variable {env : ResourceEnv}

/-- The temporaries have nothing left to deallocate. -/
theorem wrapThreads_eq :
    ∀ (threads : List UInt32) (refs : List MachPortSendRightRef) (l : Ledger),
      env.wrapThreads threads (refs, l) = (refs ++ threads.map env.wrap, l)
  | [], refs, l => by simp [wrapThreads]
  | port :: ports, refs, l => by
    have hdestroy : l.destroy env.machTaskSelf [(env.wrap port).moveConstruct.2] = l := by
      simp [Ledger.destroy, filterMap_cons_toList]
    rw [wrapThreads]
    simp only [hdestroy]
    rw [wrapThreads_eq ports, List.append_assoc]
    rfl

/-- The loop moves rights from one vector to the other, whether it comes to its end or not. -/
theorem suspendLoop_rights (env : ResourceEnv) (right : SendRight) :
    ∀ (refs : List MachPortSendRightRef) (i : ℕ) (v : PortVector)
      (suspended : List MachPortSendRightRef),
      (((env.suspendLoop i refs v suspended).2.1
          ++ (env.suspendLoop i refs v suspended).2.2).filterMap (·.right)).count right
        = ((refs ++ suspended).filterMap (·.right)).count right
  | [], _, _, _ => rfl
  | ref :: refs, i, v, suspended => by
    have ih := suspendLoop_rights env right refs (i + 1)
    have hkept := ih v suspended
    unfold suspendLoop
    split_ifs
    · simp only [List.cons_append, filterMap_cons_toList, List.count_append, hkept]
    · rcases env.suspension.pushBack v ref.port with v' | _
      · have hmoved := ih v' (suspended ++ [ref.moveConstruct.1])
        simp only [List.cons_append, filterMap_cons_toList, List.filterMap_append,
          List.count_append, List.filterMap_nil, MachPortSendRightRef.right_moveConstruct_fst,
          MachPortSendRightRef.right_moveConstruct_snd, Option.toList_none, List.count_nil]
            at hmoved ⊢
        rw [Nat.zero_add]
        refine hmoved.trans ?_
        omega
      · rfl
    · simp only [List.cons_append, filterMap_cons_toList, List.count_append, hkept]

/-- It ends as it does on the ports, and the vector has those of the suspended threads. -/
theorem suspendLoop_fst (env : ResourceEnv) :
    ∀ (refs : List MachPortSendRightRef) (i : ℕ) (v : PortVector)
      (suspended : List MachPortSendRightRef) (log : List SuspendEvent),
      (env.suspendLoop i refs v suspended).1
        = (env.suspension.suspendLoop i (refs.map (·.port)) v log).1
  | [], _, _, _, _ => rfl
  | ref :: refs, i, v, suspended, log => by
    have ih := suspendLoop_fst env refs (i + 1)
    unfold suspendLoop SuspendEnv.suspendLoop
    simp only [List.map_cons]
    split_ifs
    · exact ih v suspended log
    · rcases env.suspension.pushBack v ref.port with v' | _
      · exact ih v' _ _
      · rfl
    · exact ih v suspended log

/-- The references that a suspension leaves behind. -/
def held : Exit (Option (List MachPortSendRightRef)) → List MachPortSendRightRef
  | .returned (some suspended) => suspended
  | _ => []

theorem lost_of_not {threads : List UInt32} {reserve : Bool}
    (h : ¬ (threads ≠ [] ∧ reserve = false)) : env.lost (some threads) reserve = [] := by
  rcases reserve with _ | _
  · obtain rfl : threads = [] := by
      by_contra hne
      exact h ⟨hne, rfl⟩
    rfl
  · rfl

theorem lost_of_eq {threads : List UInt32} {reserve : Bool} (h : reserve = false) :
    env.lost (some threads) reserve = env.rights threads := by
  rw [h]
  rfl

theorem lost_none (reserve : Bool) : env.lost none reserve = [] := by
  rcases reserve with _ | _ <;> rfl

theorem suspendAll_holds {l : Ledger} {lost : List SendRight} (h : l.Holds [] lost) :
    (env.suspendAllThreadsExceptCurrentOne l).2.Holds
      (held (env.suspendAllThreadsExceptCurrentOne l).1)
      (lost ++ env.lost env.suspension.taskThreads env.suspension.reserve) := by
  have hself := h.machThreadSelf env.suspension.threadSelf env.machTaskSelf
  unfold suspendAllThreadsExceptCurrentOne
  rcases env.suspension.taskThreads with _ | threads
  · rw [lost_none, List.append_nil]
    exact hself.destroy_all
  obtain ⟨hwrapped, hlost⟩ := hself.taskThreads threads env.machTaskSelf
  by_cases hr : threads ≠ [] ∧ env.suspension.reserve = false
  · simp only [if_pos hr]
    rw [lost_of_eq hr.2]
    exact hlost.destroy_all
  rw [lost_of_not hr, List.append_nil]
  simp only [if_neg hr, wrapThreads_eq, List.nil_append]
  have hrights := fun right => suspendLoop_rights env right (threads.map env.wrap) 0 ⟨[], 0⟩ []
  have hmap : threads.map env.wrap = threads.map (MachPortSendRightRef.wrap · env.machTaskSelf) :=
    rfl
  rcases hloop : env.suspendLoop 0 (threads.map env.wrap) ⟨[], 0⟩ [] with ⟨v | _, left, suspended⟩
  · simp only [hloop] at hrights
    refine Ledger.Holds.destroy (hwrapped.congr fun right => ?_)
    have hright := hrights right
    simp only [List.filterMap_append, List.count_append, List.append_nil, hmap, held, wrap]
      at hright ⊢
    omega
  · simp only [hloop] at hrights
    refine Ledger.Holds.destroy_all (hwrapped.congr fun right => ?_)
    have hright := hrights right
    simp only [List.filterMap_append, List.count_append, List.append_nil, hmap, wrap,
      filterMap_cons_toList, List.filterMap_nil] at hright ⊢
    omega

/-- Nothing is held any longer when `AddThreadsToCore` ends. -/
theorem addThreadsToCore_holds {l : Ledger} {refs : List MachPortSendRightRef}
    {lost : List SendRight} (h : l.Holds refs lost) :
    (env.addThreadsToCore l).2.Holds refs (lost ++ env.lost env.taskThreads env.reserve) := by
  have hself := h.machThreadSelf env.suspension.threadSelf env.machTaskSelf
  unfold addThreadsToCore
  rcases env.taskThreads with _ | threads
  · rw [lost_none, List.append_nil]
    exact Ledger.Holds.destroy hself
  obtain ⟨hwrapped, hlost⟩ := hself.taskThreads threads env.machTaskSelf
  by_cases hr : threads ≠ [] ∧ env.reserve = false
  · simp only [if_pos hr]
    rw [lost_of_eq hr.2]
    exact Ledger.Holds.destroy hlost
  rw [lost_of_not hr, List.append_nil]
  simp only [if_neg hr, wrapThreads_eq, List.nil_append]
  have hrefs : ∀ refs : List MachPortSendRightRef, threads.map env.wrap
      ++ env.wrap env.suspension.threadSelf :: refs
      = (threads.map env.wrap ++ [env.wrap env.suspension.threadSelf]) ++ refs := by simp
  rcases env.collect with ⟨⟨⟩⟩ | _
  · exact Ledger.Holds.destroy (hrefs refs ▸ hwrapped)
  · exact Ledger.Holds.destroy (hrefs refs ▸ hwrapped)

/-- An array is received, and freed or not. -/
theorem arrays_taskThreads {l : Ledger} {k : ℕ} (h : l.arrays = l.freed + k)
    (self : Option SendRight) (rights : List SendRight) (machTaskSelf : UInt32)
    (refs : List MachPortSendRightRef) :
    ((((l.machThreadSelf self).taskThreads rights).destroy machTaskSelf refs).arrays
        = (((l.machThreadSelf self).taskThreads rights).destroy machTaskSelf refs).freed + k + 1)
      ∧ (((l.machThreadSelf self).taskThreads rights).vmDeallocate.destroy machTaskSelf refs).arrays
        = (((l.machThreadSelf self).taskThreads rights).vmDeallocate.destroy machTaskSelf
          refs).freed + k := by
  simp only [Ledger.machThreadSelf, Ledger.taskThreads, Ledger.destroy, Ledger.vmDeallocate]
  omega

/-- It ends as the suspension does, and an exception leaves its array. -/
theorem suspendAll_exit {l : Ledger} {k : ℕ} (h : l.arrays = l.freed + k) :
    (env.suspendAllThreadsExceptCurrentOne l).1.isSome
        = env.suspension.suspendAllThreadsExceptCurrentOne.1.isSome
      ∧ (env.suspendAllThreadsExceptCurrentOne l).2.arrays
        = (env.suspendAllThreadsExceptCurrentOne l).2.freed + k
          + if env.suspension.suspendAllThreadsExceptCurrentOne.1.isSome = .badAlloc then 1
            else 0 := by
  unfold suspendAllThreadsExceptCurrentOne SuspendEnv.suspendAllThreadsExceptCurrentOne
  rcases env.suspension.taskThreads with _ | threads
  · exact ⟨rfl, h⟩
  obtain harrays := arrays_taskThreads h (sendRight env.suspension.threadSelf env.machTaskSelf)
    (env.rights threads) env.machTaskSelf
  by_cases hr : threads ≠ [] ∧ env.suspension.reserve = false
  · simp only [if_pos hr]
    exact ⟨rfl, (harrays _).1⟩
  have hports : (threads.map env.wrap).map (·.port) = threads := by
    rw [List.map_map]
    exact List.map_id _
  have hloop := suspendLoop_fst env (threads.map env.wrap) 0 ⟨[], 0⟩ [] []
  rw [hports] at hloop
  simp only [if_neg hr, wrapThreads_eq, List.nil_append]
  rcases hleft : env.suspendLoop 0 (threads.map env.wrap) ⟨[], 0⟩ [] with ⟨v | _, left, suspended⟩
  · rcases hlog : env.suspension.suspendLoop 0 threads ⟨[], 0⟩ [] with ⟨v' | _, log⟩
    · exact ⟨rfl, (harrays _).2⟩
    · simp [hleft, hlog] at hloop
  · rcases hlog : env.suspension.suspendLoop 0 threads ⟨[], 0⟩ [] with ⟨v' | _, log⟩
    · simp [hleft, hlog] at hloop
    · exact ⟨rfl, (harrays _).1⟩

theorem addThreadsToCore_exit {l : Ledger} {k : ℕ} (h : l.arrays = l.freed + k) :
    (env.addThreadsToCore l).1 = env.collected ∧ (env.addThreadsToCore l).2.arrays
      = (env.addThreadsToCore l).2.freed + k + if env.collected = .badAlloc then 1 else 0 := by
  unfold addThreadsToCore collected
  rcases env.taskThreads with _ | threads
  · exact ⟨rfl, h⟩
  obtain harrays := arrays_taskThreads h (sendRight env.suspension.threadSelf env.machTaskSelf)
    (env.rights threads) env.machTaskSelf
  by_cases hr : threads ≠ [] ∧ env.reserve = false
  · simp only [if_pos hr]
    exact ⟨trivial, (harrays _).1⟩
  simp only [if_neg hr, wrapThreads_eq, List.nil_append]
  rcases env.collect with ⟨⟨⟩⟩ | _
  · exact ⟨rfl, (harrays _).2⟩
  · exact ⟨rfl, (harrays _).1⟩

theorem dump_holds {l : Ledger} {refs : List MachPortSendRightRef} {lost : List SendRight} {k : ℕ}
    (h : l.Holds refs lost) (hk : l.arrays = l.freed + k) :
    (env.dump refs l).2.Holds [] (lost
        ++ if env.modules = .returned () then env.lost env.taskThreads env.reserve else [])
      ∧ (env.dump refs l).2.arrays = (env.dump refs l).2.freed + k
        + if env.modules = .returned () ∧ env.collected = .badAlloc then 1 else 0 := by
  have hholds : (env.addThreadsToCore l).2.Holds _ _ := addThreadsToCore_holds h
  have harrays : (env.addThreadsToCore l).2.arrays = _ := (addThreadsToCore_exit hk).2
  unfold dump
  rcases env.modules with ⟨⟨⟩⟩ | _
  · simp only [if_true, true_and]
    rcases hadd : env.addThreadsToCore l with ⟨(_ | _) | _, l'⟩ <;> rw [hadd] at hholds harrays
    · exact ⟨hholds.destroy_all, harrays⟩
    · exact ⟨hholds.destroy_all, harrays⟩
    · exact ⟨hholds.destroy_all, harrays⟩
  · simpa using ⟨h.destroy_all, hk⟩

/-- The rights that a dump loses. -/
def lostRights (env : ResourceEnv) : List SendRight :=
  (if env.selfDumps then env.lost env.suspension.taskThreads env.suspension.reserve else [])
    ++ if env.adds then env.lost env.taskThreads env.reserve else []

theorem miniDumpWriteDumpImpl_holds :
    env.miniDumpWriteDumpImpl.2.Holds [] env.lostRights
      ∧ env.miniDumpWriteDumpImpl.2.arrays = env.miniDumpWriteDumpImpl.2.freed
        + (if env.suspended = .badAlloc then 1 else 0)
        + if env.adds = true ∧ env.collected = .badAlloc then 1 else 0 := by
  have hempty : Ledger.empty.Holds [] [] := fun _ => rfl
  have hzero : Ledger.empty.arrays = Ledger.empty.freed + 0 := rfl
  have hall : (env.suspendAllThreadsExceptCurrentOne .empty).2.Holds _ _ := suspendAll_holds hempty
  obtain ⟨hexit, harrays⟩ : (env.suspendAllThreadsExceptCurrentOne .empty).1.isSome = _ ∧ _ :=
    suspendAll_exit hzero
  obtain ⟨hdump, hfreed⟩ : (env.dump [] .empty).2.Holds [] _ ∧ _ := dump_holds hempty hzero
  unfold miniDumpWriteDumpImpl lostRights adds suspended selfDumps
  rcases env.suspension.pidForTask with _ | _
  · exact ⟨hempty, rfl⟩
  rcases env.suspension.setSize with (_ | _) | _
  · exact ⟨hempty, rfl⟩
  · rcases env.suspension.selfDump with _ | _
    · rcases env.suspension.taskSuspend with _ | _
      · exact ⟨hempty, rfl⟩
      · simpa using ⟨hdump, hfreed⟩
    · rw [← hexit]
      rw [← hexit] at harrays
      rcases hs : env.suspendAllThreadsExceptCurrentOne .empty with ⟨(_ | suspended) | _, l⟩ <;>
        rw [hs] at hall harrays
      · simpa [Exit.isSome, held] using ⟨hall, harrays⟩
      · obtain ⟨hdump, hfreed⟩ : (env.dump suspended l).2.Holds [] _ ∧ _ := dump_holds hall harrays
        simpa [Exit.isSome] using ⟨hdump, hfreed⟩
      · simpa [Exit.isSome, held] using ⟨hall, harrays⟩
  · exact ⟨hempty, rfl⟩

theorem lostRights_eq_nil_iff : env.lostRights = [] ↔ ¬ env.LosesRights := by
  unfold lostRights LosesRights
  rw [List.append_eq_nil_iff]
  rcases env.selfDumps with _ | _ <;> rcases env.adds with _ | _
  all_goals simp

/-- What is left of the dump once it has suspended the target. -/
def rest (env : ResourceEnv) : Exit Bool :=
  match env.modules, env.collected with
  | .badAlloc, _ => .badAlloc
  | .returned (), .returned true => env.finish
  | .returned (), exit => exit

theorem dump_exit {l : Ledger} (refs : List MachPortSendRightRef) {k : ℕ}
    (hk : l.arrays = l.freed + k) : (env.dump refs l).1 = env.rest := by
  have hexit : (env.addThreadsToCore l).1 = env.collected := (addThreadsToCore_exit hk).1
  unfold dump rest
  rw [← hexit]
  rcases env.modules with ⟨⟨⟩⟩ | _
  · rcases env.addThreadsToCore l with ⟨(_ | _) | _, l'⟩ <;> rfl
  · rfl

theorem suspendLoop_rest (suspension : SuspendEnv) (rest : Exit Bool) :
    ∀ (ports : List UInt32) (i : ℕ) (v : PortVector) (log : List SuspendEvent),
      ({ suspension with rest := rest } : SuspendEnv).suspendLoop i ports v log
        = suspension.suspendLoop i ports v log
  | [], _, _, _ => rfl
  | port :: ports, i, v, log => by
    have ih := suspendLoop_rest suspension rest ports (i + 1)
    unfold SuspendEnv.suspendLoop
    rw [ih v log]
    split_ifs
    · rfl
    · have hpush : ({ suspension with rest := rest } : SuspendEnv).pushBack v port
        = suspension.pushBack v port := rfl
      rw [hpush]
      rcases suspension.pushBack v port with v' | _
      · exact ih v' _
      · rfl
    · rfl

/-- A dump ends as its suspension does, and what follows it. -/
theorem miniDumpWriteDumpImpl_exit (env : ResourceEnv) :
    env.miniDumpWriteDumpImpl.1
      = ({ env.suspension with rest := env.rest } : SuspendEnv).miniDumpWriteDumpImpl.1 := by
  have hzero : Ledger.empty.arrays = Ledger.empty.freed + 0 := rfl
  obtain ⟨hexit, harrays⟩ : (env.suspendAllThreadsExceptCurrentOne .empty).1.isSome = _ ∧ _ :=
    suspendAll_exit hzero
  have hsame :
      ({ env.suspension with rest := env.rest } : SuspendEnv).suspendAllThreadsExceptCurrentOne
        = env.suspension.suspendAllThreadsExceptCurrentOne := by
    unfold SuspendEnv.suspendAllThreadsExceptCurrentOne
    simp only [suspendLoop_rest]
  unfold miniDumpWriteDumpImpl SuspendEnv.miniDumpWriteDumpImpl
  rw [hsame]
  simp only []
  rcases env.suspension.pidForTask with _ | _
  · rfl
  rcases env.suspension.setSize with (_ | _) | _
  · rfl
  · rcases env.suspension.selfDump with _ | _
    · rcases env.suspension.taskSuspend with _ | _
      · rfl
      · exact dump_exit [] hzero
    · rcases hs : env.suspendAllThreadsExceptCurrentOne .empty with ⟨(_ | refs) | _, l⟩ <;>
        rcases ht : env.suspension.suspendAllThreadsExceptCurrentOne
            with ⟨(_ | threads) | _, log⟩ <;>
        simp [hs, ht, Exit.isSome] at hexit
      · rfl
      · rw [hs] at harrays
        exact dump_exit refs harrays
      · rfl
  · rfl

/-- A dump gives back no right and no array that it was not given, and all of them, unless it cannot
reserve a vector of references for rights that it has been given, or unless an exception leaves an
array. -/
theorem miniDumpWriteDump_releases (env : ResourceEnv) :
    ((∀ right, env.miniDumpWriteDumpImpl.2.deallocated.count right
          ≤ env.miniDumpWriteDumpImpl.2.received.count right)
        ∧ ((∀ right, env.miniDumpWriteDumpImpl.2.deallocated.count right
          = env.miniDumpWriteDumpImpl.2.received.count right) ↔ ¬ env.LosesRights))
      ∧ (env.miniDumpWriteDumpImpl.2.freed ≤ env.miniDumpWriteDumpImpl.2.arrays
        ∧ (env.miniDumpWriteDumpImpl.2.freed = env.miniDumpWriteDumpImpl.2.arrays
          ↔ ¬ env.LosesArray)) := by
  obtain ⟨hholds, harrays⟩ := env.miniDumpWriteDumpImpl_holds
  have hcount : ∀ right, env.miniDumpWriteDumpImpl.2.received.count right
      = env.miniDumpWriteDumpImpl.2.deallocated.count right + env.lostRights.count right :=
    fun right => hholds right
  have hnil : env.lostRights = [] ↔ ∀ right, env.lostRights.count right = 0 := by
    simp only [List.count_eq_zero, List.eq_nil_iff_forall_not_mem]
  rw [← lostRights_eq_nil_iff, hnil]
  refine ⟨⟨fun right => ?_, forall_congr' fun right => ?_⟩, ?_, ?_⟩
  · have hright := hcount right
    omega
  · have hright := hcount right
    omega
  · omega
  · unfold LosesArray
    split_ifs at harrays with hthrown hcollected hcollected
    · -- the vectors of the suspension threw, so the dump has not come to `AddThreadsToCore`
      simp [adds, hthrown] at hcollected
    · simp only [hthrown, true_or, not_true_eq_false, iff_false]
      omega
    · simp only [hcollected, and_self, or_true, not_true_eq_false, iff_false]
      omega
    · simp only [hthrown, hcollected, or_self, not_false_eq_true, iff_true]
      omega

end ResourceEnv

end MacMiniDump
