import Mathlib.Data.List.Count
import Mathlib.Tactic

/-!
# `MachPortSendRightRef`

A reference holds a send right, by its name and the task that owns it, and deallocates it when it is
destroyed or gets another one. However references are moved, reset, released and destroyed, each
right they were given is held by one of them, or was deallocated once, or handed out once
(`run_accounts`).
-/

namespace MacMiniDump

def MACH_PORT_NULL : UInt32 := 0

/-- A right, and there is one. -/
structure SendRight where
  port : UInt32
  owningTask : UInt32
  valid : port ≠ MACH_PORT_NULL
  deriving DecidableEq

/-- The right of that name in that task. -/
def sendRight (port owningTask : UInt32) : Option SendRight :=
  if h : port ≠ MACH_PORT_NULL then some ⟨port, owningTask, h⟩ else none

structure MachPortSendRightRef where
  port : UInt32
  owningTask : UInt32
  deriving DecidableEq, Repr

namespace MachPortSendRightRef

def wrap (port owningTask : UInt32) : MachPortSendRightRef := ⟨port, owningTask⟩

/-- The move constructor: the new reference and what is left of the other. -/
def moveConstruct (other : MachPortSendRightRef) : MachPortSendRightRef × MachPortSendRightRef :=
  (⟨other.port, other.owningTask⟩, { other with port := MACH_PORT_NULL })

/-- `Reset`, with the right it deallocates. -/
def reset (port owningTask : UInt32) (r : MachPortSendRightRef) :
    Option SendRight × MachPortSendRightRef :=
  (if r.port ≠ MACH_PORT_NULL then sendRight r.port r.owningTask else none, ⟨port, owningTask⟩)

/-- The move assignment from some other reference: what it deallocates, the reference, and what is
left of the other. -/
def moveAssign (r other : MachPortSendRightRef) :
    Option SendRight × MachPortSendRightRef × MachPortSendRightRef :=
  let (port, other') := (other.port, { other with port := MACH_PORT_NULL })
  let (given, r') := r.reset port other.owningTask
  (given, r', other')

def release (r : MachPortSendRightRef) : UInt32 × MachPortSendRightRef :=
  (r.port, { r with port := MACH_PORT_NULL })

/-- The destructor, with the right it deallocates. -/
def destroy (machTaskSelf : UInt32) (r : MachPortSendRightRef) : Option SendRight :=
  (r.reset MACH_PORT_NULL machTaskSelf).1

/-- The right that the reference holds. -/
def right (r : MachPortSendRightRef) : Option SendRight := sendRight r.port r.owningTask

variable (r : MachPortSendRightRef)

@[simp] theorem right_wrap (port owningTask : UInt32) :
    (wrap port owningTask).right = sendRight port owningTask := rfl

@[simp] theorem right_moveConstruct_fst : r.moveConstruct.1.right = r.right := rfl

@[simp] theorem right_moveConstruct_snd : r.moveConstruct.2.right = none := rfl

@[simp] theorem reset_fst (port owningTask : UInt32) : (r.reset port owningTask).1 = r.right := by
  unfold reset right sendRight
  split_ifs <;> rfl

@[simp] theorem right_reset_snd (port owningTask : UInt32) :
    (r.reset port owningTask).2.right = sendRight port owningTask := rfl

@[simp] theorem sendRight_release_fst : sendRight r.release.1 r.owningTask = r.right := rfl

@[simp] theorem right_release_snd : r.release.2.right = none := rfl

@[simp] theorem destroy_eq (machTaskSelf : UInt32) : r.destroy machTaskSelf = r.right :=
  r.reset_fst _ _

variable (other : MachPortSendRightRef)

@[simp] theorem moveAssign_fst : (r.moveAssign other).1 = r.right :=
  r.reset_fst other.port other.owningTask

@[simp] theorem right_moveAssign_fst : (r.moveAssign other).2.1.right = other.right := rfl

@[simp] theorem right_moveAssign_snd : (r.moveAssign other).2.2.right = none := rfl

end MachPortSendRightRef

inductive RefOp
  | wrap (port owningTask : UInt32)
  | moveConstruct (other : ℕ)
  | moveAssign (ref other : ℕ)
  | reset (ref : ℕ) (port owningTask : UInt32)
  | release (ref : ℕ)
  | destroy (ref : ℕ)

/-- The right an operation brings in. -/
def RefOp.acquires : RefOp → Option SendRight
  | .wrap port owningTask => sendRight port owningTask
  | .reset _ port owningTask => sendRight port owningTask
  | _ => none

/-- All references there ever were, without those that were destroyed, and where their rights
went. -/
structure RefState where
  refs : List (Option MachPortSendRightRef)
  deallocated : List SendRight
  handedOut : List SendRight
  deriving DecidableEq

namespace RefState

def start : RefState := ⟨[], [], []⟩

variable (s : RefState)

/-- The reference, if it lives. -/
def live (i : ℕ) : Option MachPortSendRightRef := (s.refs[i]?).join

def add (r : MachPortSendRightRef) : RefState := { s with refs := s.refs ++ [some r] }

def put (i : ℕ) (x : Option MachPortSendRightRef) : RefState := { s with refs := s.refs.set i x }

def deallocate (right : Option SendRight) : RefState :=
  { s with deallocated := s.deallocated ++ right.toList }

def handOut (right : Option SendRight) : RefState :=
  { s with handedOut := s.handedOut ++ right.toList }

/-- An operation on references that live. -/
def step (machTaskSelf : UInt32) : RefOp → RefState → Option RefState
  | .wrap port owningTask, s => some (s.add (.wrap port owningTask))
  | .moveConstruct other, s =>
    match s.live other with
    | some o => some ((s.put other (some o.moveConstruct.2)).add o.moveConstruct.1)
    | none => none
  | .moveAssign ref other, s =>
    match s.live ref, s.live other with
    | some r, some o =>
      if ref ≠ other then
        let assigned := r.moveAssign o
        some (((s.put ref (some assigned.2.1)).put other (some assigned.2.2)).deallocate
          assigned.1)
      else some s
    | _, _ => none
  | .reset ref port owningTask, s =>
    match s.live ref with
    | some r =>
      some ((s.put ref (some (r.reset port owningTask).2)).deallocate (r.reset port owningTask).1)
    | none => none
  | .release ref, s =>
    match s.live ref with
    | some r => some ((s.put ref (some r.release.2)).handOut (sendRight r.release.1 r.owningTask))
    | none => none
  | .destroy ref, s =>
    match s.live ref with
    | some r => some ((s.put ref none).deallocate (r.destroy machTaskSelf))
    | none => none

def run (machTaskSelf : UInt32) : List RefOp → RefState → Option RefState
  | [], s => some s
  | op :: ops, s =>
    match step machTaskSelf op s with
    | some s' => run machTaskSelf ops s'
    | none => none

/-- How many references hold the right. -/
def holders (right : SendRight) : ℕ := s.refs.countP fun x => x.bind (·.right) = some right

/-- In how many places the right is. -/
def places (right : SendRight) : ℕ :=
  s.holders right + s.deallocated.count right + s.handedOut.count right

/-- Held by one reference, or deallocated once, or handed out once. -/
def InOnePlace (right : SendRight) : Prop :=
  (s.holders right = 1 ∧ right ∉ s.deallocated ∧ right ∉ s.handedOut)
    ∨ (s.holders right = 0 ∧ s.deallocated.count right = 1 ∧ right ∉ s.handedOut)
    ∨ (s.holders right = 0 ∧ right ∉ s.deallocated ∧ s.handedOut.count right = 1)

section Places

variable {s} {i : ℕ} {r : MachPortSendRightRef}

theorem count_toList (x : Option SendRight) (right : SendRight) :
    x.toList.count right = if x = some right then 1 else 0 := by
  rcases x with _ | x
  · rfl
  · simp [List.count_singleton]

theorem live_put_of_ne {j : ℕ} (h : i ≠ j) (x : Option MachPortSendRightRef) :
    (s.put i x).live j = s.live j := by
  unfold live put
  rw [List.getElem?_set_ne h]

/-- What was held there before no longer is. -/
theorem holders_put (h : s.live i = some r) (x : Option MachPortSendRightRef) (right : SendRight) :
    (s.put i x).holders right + r.right.toList.count right
      = s.holders right + (x.bind (·.right)).toList.count right := by
  obtain ⟨hi, hr⟩ := List.getElem?_eq_some_iff.1 (Option.join_eq_some_iff.1 h)
  have hpos := List.boole_getElem_le_countP (p := fun x => x.bind (·.right) = some right) hi
  unfold holders put
  rw [List.countP_set hi, count_toList, count_toList]
  rw [hr] at hpos ⊢
  simp only [Option.bind_some, decide_eq_true_eq] at hpos ⊢
  omega

theorem places_put (h : s.live i = some r) (x : Option MachPortSendRightRef) (right : SendRight) :
    (s.put i x).places right + r.right.toList.count right
      = s.places right + (x.bind (·.right)).toList.count right := by
  have hput := holders_put h x right
  unfold places
  simp only [put] at hput ⊢
  omega

theorem places_add (r : MachPortSendRightRef) (right : SendRight) :
    (s.add r).places right = s.places right + r.right.toList.count right := by
  unfold places holders add
  simp only [List.countP_append, List.countP_singleton, Option.bind_some, decide_eq_true_eq,
    count_toList]
  omega

theorem places_deallocate (x : Option SendRight) (right : SendRight) :
    (s.deallocate x).places right = s.places right + x.toList.count right := by
  unfold places holders deallocate
  simp only [List.count_append]
  omega

theorem places_handOut (x : Option SendRight) (right : SendRight) :
    (s.handOut x).places right = s.places right + x.toList.count right := by
  unfold places holders handOut
  simp only [List.count_append]
  omega

/-- An operation moves rights from place to place and adds what it acquires. -/
theorem places_step {machTaskSelf : UInt32} {op : RefOp} {s s' : RefState}
    (h : step machTaskSelf op s = some s') (right : SendRight) :
    s'.places right = s.places right + op.acquires.toList.count right := by
  cases op with
  | wrap port owningTask =>
    cases h
    rw [places_add, MachPortSendRightRef.right_wrap]
    rfl
  | moveConstruct other =>
    rcases ho : s.live other with _ | o
    · simp [step, ho] at h
    simp only [step, ho, Option.some.injEq] at h
    subst h
    have hput := places_put ho (some o.moveConstruct.2) right
    rw [Option.bind_some, o.right_moveConstruct_snd] at hput
    rw [places_add, o.right_moveConstruct_fst]
    exact hput
  | moveAssign ref other =>
    rcases hr : s.live ref with _ | r
    · simp [step, hr] at h
    rcases ho : s.live other with _ | o
    · simp [step, hr, ho] at h
    simp only [step, hr, ho] at h
    split_ifs at h with hne
    · simp only [Option.some.injEq] at h
      subst h
      have hput := places_put hr (some (r.moveAssign o).2.1) right
      have ho' : (s.put ref (some (r.moveAssign o).2.1)).live other = some o :=
        (live_put_of_ne hne _).trans ho
      have hput' := places_put ho' (some (r.moveAssign o).2.2) right
      simp only [Option.bind_some, r.right_moveAssign_fst, r.right_moveAssign_snd,
        Option.toList_none, List.count_nil] at hput hput'
      rw [places_deallocate, r.moveAssign_fst]
      simp only [RefOp.acquires, Option.toList_none, List.count_nil]
      omega
    · cases h
      rfl
  | reset ref port owningTask =>
    rcases hr : s.live ref with _ | r
    · simp [step, hr] at h
    simp only [step, hr, Option.some.injEq] at h
    subst h
    have hput := places_put hr (some (r.reset port owningTask).2) right
    rw [Option.bind_some, r.right_reset_snd] at hput
    rw [places_deallocate, r.reset_fst]
    exact hput
  | release ref =>
    rcases hr : s.live ref with _ | r
    · simp [step, hr] at h
    simp only [step, hr, Option.some.injEq] at h
    subst h
    have hput := places_put hr (some r.release.2) right
    rw [Option.bind_some, r.right_release_snd] at hput
    rw [places_handOut, r.sendRight_release_fst]
    exact hput
  | destroy ref =>
    rcases hr : s.live ref with _ | r
    · simp [step, hr] at h
    simp only [step, hr, Option.some.injEq] at h
    subst h
    rw [places_deallocate, r.destroy_eq]
    exact places_put hr none right

/-- The rights a sequence of operations brings in. -/
def acquired (ops : List RefOp) : List SendRight := ops.flatMap fun op => op.acquires.toList

theorem places_run {machTaskSelf : UInt32} :
    ∀ {ops : List RefOp} {s s' : RefState}, run machTaskSelf ops s = some s' →
      ∀ right, s'.places right = s.places right + (acquired ops).count right
  | [], s, s', h, right => by
    cases h
    rfl
  | op :: ops, s, s', h, right => by
    rcases hstep : step machTaskSelf op s with _ | t
    · simp [run, hstep] at h
    simp only [run, hstep] at h
    have hcons : acquired (op :: ops) = op.acquires.toList ++ acquired ops := List.flatMap_cons
    rw [places_run h right, places_step hstep right, hcons, List.count_append, Nat.add_assoc]

theorem inOnePlace_of_places (h : s.places right = 1) : s.InOnePlace right := by
  unfold InOnePlace
  rw [← List.count_eq_zero, ← List.count_eq_zero]
  unfold places at h
  omega

theorem holders_eq_zero (h : ∀ x ∈ s.refs, x = none) (right : SendRight) :
    s.holders right = 0 := by
  refine List.countP_eq_zero.2 fun x hx => ?_
  rw [h x hx]
  simp

end Places

/-- In every run each right is in as many places as it was acquired times: one that was acquired
once is held by one reference, or was deallocated once, or handed out once. With the references gone
it is not held. -/
theorem run_accounts {machTaskSelf : UInt32} {ops : List RefOp} {s : RefState}
    (h : run machTaskSelf ops start = some s) :
    (∀ right, s.holders right + s.deallocated.count right + s.handedOut.count right
        = (acquired ops).count right)
      ∧ (∀ right, (acquired ops).count right = 1 → s.InOnePlace right)
      ∧ ((∀ x ∈ s.refs, x = none) → ∀ right, s.holders right = 0) := by
  have hplaces : ∀ right, s.places right = (acquired ops).count right := fun right =>
    (places_run h right).trans (Nat.zero_add _)
  exact ⟨hplaces, fun right hone => inOnePlace_of_places ((hplaces right).trans hone),
    fun hgone right => holders_eq_zero hgone right⟩

/-- Two references with a right each. -/
def sampleOps : List RefOp :=
  [.wrap 5 1, .wrap 6 2, .moveConstruct 0, .moveAssign 2 2, .moveAssign 0 2, .release 1,
    .moveAssign 0 1, .destroy 2, .destroy 1, .destroy 0]

/-- The first right is moved to and fro and deallocated, the second is released. -/
theorem run_accounts_sample :
    ∃ s, run 1 sampleOps start = some s ∧ s.InOnePlace ⟨5, 1, by decide⟩
      ∧ s.InOnePlace ⟨6, 2, by decide⟩ ∧ ∀ right, s.holders right = 0 := by
  have hrun : run 1 sampleOps start
      = some ⟨[none, none, none], [⟨5, 1, by decide⟩], [⟨6, 2, by decide⟩]⟩ := by decide
  obtain ⟨-, hplace, hgone⟩ := run_accounts hrun
  exact ⟨_, hrun, hplace _ (by decide), hplace _ (by decide), hgone (by decide)⟩

end RefState

end MacMiniDump
