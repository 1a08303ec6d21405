import MacMiniDump.MemoryRegions
import MacMiniDump.Reader
import MacMiniDump.Registers

/-!
# `WalkStack`

The walk follows the chain of saved base pointers until it is zero, with a special case for a top
function that has no frame of its own. Nothing else ends it: it returns exactly when the chain comes
to zero (`walkStack_returns_iff`), so a frame record that points to itself keeps it going.
-/

namespace MacMiniDump

inductive StackFrameLookupResult
  | hasFrame
  | frameless
  | unknown
  deriving DecidableEq, Repr

/-- What a walk asks the target for. -/
structure WalkTarget where
  /-- `ReadProcessMemoryInto` -/
  read : UInt64 → UInt64 → Option (List UInt8)
  memoryRegions : MemoryRegions
  /-- the `xpaci` instruction -/
  xpaci : UInt64 → UInt64
  lookupStackFrameForPC : UInt64 → StackFrameLookupResult

variable {arch : Arch}

/-- `__lr`, which x86_64 does not have -/
def GPR.linkRegister : {arch : Arch} → GPR arch → UInt64
  | .x86_64, _ => 0
  | .arm64, gpr => read64 (readAt gpr.gpr.toList 240 8)

/-- `__esr` -/
def EXC.esr (exc : EXC .arm64) : UInt32 := u32At exc.exc.toList 8

namespace WalkTarget

variable (t : WalkTarget)

def stripPACFromPointer (arch : Arch) (ptr : UInt64) : UInt64 :=
  match arch with
  | .x86_64 => ptr
  | .arm64 => t.xpaci ptr

/-- The saved pointer at an address; zero where it cannot be read. -/
def pointerAt (ptr : UInt64) : UInt64 := ((t.read ptr 8).map read64).getD 0

def derefPtr (debug : Bool) (ptr : UInt64) : Except Fault UInt64 :=
  if debug && ptr == 0 then .error .assertion else .ok (t.pointerAt ptr)

/-- Instruction abort or data abort. -/
def exceptionMightBeControlTransferRelated (exc : EXC .arm64) : Bool :=
  let exceptionClass := (exc.esr >>> 26) &&& 0x3F
  exceptionClass == 0x20 || exceptionClass == 0x24

/-- The instruction before the address, if it can be read. -/
def previousInstruction (instructionPointer : UInt64) : Option UInt32 :=
  (t.read (instructionPointer - 4) 4).map read32

/-- `BL`, `BLR` or one of `BLRA*` -/
def isPreviousInstructionBLKind (instructionPointer : UInt64) : Bool :=
  match t.previousInstruction instructionPointer with
  | none => false
  | some instruction =>
    (instruction >>> 26) &&& 0b111111 == 0b100101
      || (instruction >>> 10) &&& 0b1111111111111111111111 == 0b1101011000111111000000
      || (instruction >>> 11) &&& 0b111111101111111111111 == 0b110101100011111100001

def isPreviousInstructionSVC (instructionPointer : UInt64) : Bool :=
  match t.previousInstruction instructionPointer with
  | none => false
  | some instruction => (instruction >>> 21) &&& 0x7FF == 0b11010100000

/-- Is the instruction pointer somewhere it cannot execute? -/
def inNonExecutable (instructionPointer : UInt64) : Bool :=
  match getRegionInfoForAddress t.memoryRegions instructionPointer with
  | none => true
  | some regionInfo => regionInfo.prot &&& 0b100 == 0

/-- Has the top function no stack frame, as far as one can tell? -/
def topPCNoStackFrame : {arch : Arch} → GPR arch → EXC arch → Bool
  | .x86_64, _, _ => false
  | .arm64, gpr, exc =>
    let instructionPointer := gpr.instructionPointer
    let calledInvalid := exceptionMightBeControlTransferRelated exc
      && t.inNonExecutable instructionPointer && t.isPreviousInstructionBLKind gpr.linkRegister
    if calledInvalid then true
    else
      let frameLookupResult := t.lookupStackFrameForPC instructionPointer
      let frameLookupResult :=
        if frameLookupResult = .unknown then
          if t.isPreviousInstructionSVC instructionPointer then .frameless else frameLookupResult
        else frameLookupResult
      frameLookupResult = .frameless

/-- The frame loop, for so many rounds; `none` when it has not ended by then. -/
def frameLoop (debug : Bool) (arch : Arch) (topPCNoStackFrame : Bool) (lr : UInt64) :
    ℕ → ℕ → UInt64 → List UInt64 → Option (Except Fault (List UInt64))
  | 0, _, _, _ => none
  | rounds + 1, frameIndex, prevBasePointer, result =>
    let top := topPCNoStackFrame && frameIndex == 0
    match if top then .ok lr else t.derefPtr debug (prevBasePointer + 8) with
    | .error e => some (.error e)
    | .ok nextInstructionPointer =>
      match if top then .ok prevBasePointer else t.derefPtr debug prevBasePointer with
      | .error e => some (.error e)
      | .ok nextBasePointer =>
        if nextBasePointer = 0 then some (.ok result)
        else frameLoop debug arch topPCNoStackFrame lr rounds (frameIndex + 1) nextBasePointer
          (result ++ [t.stripPACFromPointer arch nextInstructionPointer])

def walkStack (debug : Bool) (rounds : ℕ) (gpr : GPR arch) (exc : EXC arch) :
    Option (Except Fault (List UInt64)) :=
  let basePointer := gpr.basePointer
  if basePointer = 0 then some (.ok [])
  else t.frameLoop debug arch (t.topPCNoStackFrame gpr exc) gpr.linkRegister rounds 0 basePointer
    [t.stripPACFromPointer arch gpr.instructionPointer]

/-- The base pointers a walk comes to, from this one on. -/
def basePointers (basePointer : UInt64) (n : ℕ) : UInt64 := t.pointerAt^[n] basePointer

/-- The chain from the base pointer comes to zero. In a debug build, it does so before it comes to
the last place of all, where the return address would be at zero. -/
def ChainEnds (debug : Bool) (basePointer : UInt64) : Prop :=
  ∃ n, t.basePointers basePointer n = 0
    ∧ ∀ m < n, t.basePointers basePointer m ≠ 0
      ∧ (debug = true → t.basePointers basePointer m + 8 ≠ 0)

theorem basePointers_succ (bp : UInt64) (n : ℕ) :
    t.basePointers bp (n + 1) = t.basePointers (t.pointerAt bp) n := rfl

variable {t} {debug : Bool} {top : Bool} {lr : UInt64}

theorem derefPtr_of_ne {ptr : UInt64} (h : debug = true → ptr ≠ 0) :
    t.derefPtr debug ptr = .ok (t.pointerAt ptr) := by
  unfold derefPtr
  rw [if_neg]
  intro hc
  simp only [Bool.and_eq_true, beq_iff_eq] at hc
  exact h hc.1 hc.2

theorem derefPtr_eq_ok {ptr v : UInt64} (h : t.derefPtr debug ptr = .ok v) :
    (debug = true → ptr ≠ 0) ∧ v = t.pointerAt ptr := by
  unfold derefPtr at h
  split_ifs at h with hc
  simp only [Except.ok.injEq] at h
  refine ⟨fun hd hz => hc ?_, h.symm⟩
  simp [hd, hz]

theorem top_and_eq_false {frameIndex : ℕ} (h : top = true → frameIndex ≠ 0) :
    (top && frameIndex == 0) = false := by
  cases top with
  | false => rfl
  | true => simp [h rfl]

/-- Past the top frame, the loop ends with a result when the chain from here ends. -/
theorem frameLoop_of_chain :
    ∀ (n frameIndex : ℕ) (bp : UInt64) (result : List UInt64), bp ≠ 0 →
      (top = true → frameIndex ≠ 0) → t.basePointers bp n = 0 →
      (∀ m < n, t.basePointers bp m ≠ 0 ∧ (debug = true → t.basePointers bp m + 8 ≠ 0)) →
      ∃ l, t.frameLoop debug arch top lr n frameIndex bp result = some (.ok l)
  | 0, _, bp, _, hbp, _, hzero, _ => absurd hzero hbp
  | n + 1, frameIndex, bp, result, hbp, htop, hzero, hall => by
    have hfirst := hall 0 (Nat.succ_pos n)
    have hip : t.derefPtr debug (bp + 8) = .ok (t.pointerAt (bp + 8)) := derefPtr_of_ne hfirst.2
    have hnext : t.derefPtr debug bp = .ok (t.pointerAt bp) := derefPtr_of_ne fun _ => hbp
    unfold frameLoop
    simp only [top_and_eq_false htop, Bool.false_eq_true, if_false, hip, hnext]
    by_cases h : t.pointerAt bp = 0
    · exact ⟨result, if_pos h⟩
    · rw [if_neg h]
      refine frameLoop_of_chain n (frameIndex + 1) _ _ h (fun _ => Nat.succ_ne_zero _) hzero ?_
      intro m hm
      exact hall (m + 1) (Nat.succ_lt_succ hm)

theorem chain_of_frameLoop :
    ∀ (rounds frameIndex : ℕ) (bp : UInt64) (result l : List UInt64), bp ≠ 0 →
      (top = true → frameIndex ≠ 0) →
      t.frameLoop debug arch top lr rounds frameIndex bp result = some (.ok l) →
      t.ChainEnds debug bp
  | 0, _, _, _, _, _, _, h => by simp [frameLoop] at h
  | rounds + 1, frameIndex, bp, result, l, hbp, htop, h => by
    unfold frameLoop at h
    simp only [top_and_eq_false htop, Bool.false_eq_true, if_false] at h
    split at h
    · simp at h
    rename_i ip hip
    split at h
    · simp at h
    rename_i next hnext
    obtain ⟨hne, -⟩ := derefPtr_eq_ok hip
    obtain ⟨-, rfl⟩ := derefPtr_eq_ok hnext
    split_ifs at h with hz
    · refine ⟨1, hz, fun m hm => ?_⟩
      obtain rfl : m = 0 := by omega
      exact ⟨hbp, hne⟩
    · obtain ⟨n, hn, hall⟩ := chain_of_frameLoop rounds (frameIndex + 1) _ _ l hz
        (fun _ => Nat.succ_ne_zero _) h
      refine ⟨n + 1, hn, fun m hm => ?_⟩
      cases m with
      | zero => exact ⟨hbp, hne⟩
      | succ m => exact hall m (by omega)

/-- A frameless top function takes one more round, and leaves the base pointer alone. -/
theorem frameLoop_top {rounds : ℕ} {bp : UInt64} {result : List UInt64} (hbp : bp ≠ 0) :
    t.frameLoop debug arch true lr (rounds + 1) 0 bp result
      = t.frameLoop debug arch true lr rounds 1 bp
        (result ++ [t.stripPACFromPointer arch lr]) := by
  rw [frameLoop]
  simp [hbp]

theorem chainEnds_of_walkStack {gpr : GPR arch} {exc : EXC arch} {rounds : ℕ} {l : List UInt64}
    (hbp : gpr.basePointer ≠ 0) (h : t.walkStack debug rounds gpr exc = some (.ok l)) :
    t.ChainEnds debug gpr.basePointer := by
  rw [walkStack] at h
  simp only [hbp, if_false] at h
  generalize t.topPCNoStackFrame gpr exc = top at h
  cases top with
  | false => exact chain_of_frameLoop rounds 0 _ _ l hbp (by simp) h
  | true =>
    cases rounds with
    | zero => simp [frameLoop] at h
    | succ rounds =>
      rw [frameLoop_top hbp] at h
      exact chain_of_frameLoop rounds 1 _ _ l hbp (by simp) h

theorem walkStack_of_chainEnds {gpr : GPR arch} (exc : EXC arch) (hbp : gpr.basePointer ≠ 0)
    (h : t.ChainEnds debug gpr.basePointer) :
    ∃ rounds l, t.walkStack debug rounds gpr exc = some (.ok l) := by
  obtain ⟨n, hn, hall⟩ := h
  simp only [walkStack, hbp, if_false]
  generalize t.topPCNoStackFrame gpr exc = top
  cases top with
  | false =>
    have hloop : ∃ l, t.frameLoop debug arch false gpr.linkRegister n 0 gpr.basePointer
        [t.stripPACFromPointer arch gpr.instructionPointer] = some (.ok l) :=
      frameLoop_of_chain n 0 _ _ hbp (by simp) hn hall
    exact ⟨n, hloop⟩
  | true =>
    obtain ⟨l, h⟩ := frameLoop_of_chain n 1 _ ([t.stripPACFromPointer arch gpr.instructionPointer]
      ++ [t.stripPACFromPointer arch gpr.linkRegister]) hbp (by simp) hn hall
    exact ⟨n + 1, l, by rw [frameLoop_top hbp, h]⟩

/-- A walk returns exactly when there is no base pointer, or the chain from it ends. -/
theorem walkStack_returns_iff (t : WalkTarget) (debug : Bool) (gpr : GPR arch) (exc : EXC arch) :
    (∃ rounds l, t.walkStack debug rounds gpr exc = some (.ok l))
      ↔ gpr.basePointer = 0 ∨ t.ChainEnds debug gpr.basePointer := by
  by_cases hbp : gpr.basePointer = 0
  · simp [walkStack, hbp]
  constructor
  · rintro ⟨rounds, l, h⟩
    exact .inr (chainEnds_of_walkStack hbp h)
  · intro h
    exact walkStack_of_chainEnds exc hbp (h.resolve_left hbp)

end WalkTarget

/-- Memory in which the pointer at each address is the address, and code that has frames. -/
def selfPointing : WalkTarget where
  read ptr size := some (leBytes size.toNat ptr.toNat)
  memoryRegions := []
  xpaci ptr := ptr
  lookupStackFrameForPC _ := .hasFrame

theorem pointerAt_selfPointing (ptr : UInt64) : selfPointing.pointerAt ptr = ptr :=
  read64_le64 ptr

/-- The base pointer is `0x1000`. -/
def sampleGPR : GPR .arm64 where
  kind := 6
  nWordCount := 68
  gpr := ⟨(List.replicate 232 0 ++ le64 0x1000 ++ List.replicate 32 0).toArray, by
    simp only [List.size_toArray, List.length_append, List.length_replicate, length_le64,
      Arch.gprSize]⟩

def sampleEXC : EXC .arm64 := ⟨7, 4, Vector.replicate 16 0⟩

/-- A frame record that points to itself: no number of rounds ends the walk. -/
theorem not_returns_selfPointing :
    ¬ ∃ rounds l, selfPointing.walkStack false rounds sampleGPR sampleEXC = some (.ok l) := by
  rintro ⟨rounds, l, h⟩
  have hbp : sampleGPR.basePointer = 0x1000 := by decide +kernel
  obtain ⟨n, hn, -⟩ := WalkTarget.chainEnds_of_walkStack (by rw [hbp]; decide) h
  have hsame : ∀ n, selfPointing.basePointers 0x1000 n = 0x1000 := by
    intro n
    induction n with
    | zero => rfl
    | succ n ih => rw [WalkTarget.basePointers_succ, pointerAt_selfPointing, ih]
  rw [hbp, hsame] at hn
  exact absurd hn (by decide)

end MacMiniDump
