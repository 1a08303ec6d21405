import MacMiniDump.StackWalk

/-!
# The addresses a walk dereferences

Each round of the frame loop reads the return address behind the base pointer, then the base pointer
before it. The base pointer is never zero; the address of the return address is for the base pointer
whose word is the last of all, and then the assertion of `DerefPtr` fails (`walkStack_derefs_iff`).
-/

namespace MacMiniDump

namespace WalkTarget

variable {arch : Arch} (t : WalkTarget)

/-- What the frame loop hands to `DerefPtr` in so many rounds, from the base pointer on. -/
def frameDerefs (topPCNoStackFrame : Bool) : ℕ → ℕ → UInt64 → List UInt64
  | 0, _, _ => []
  | rounds + 1, frameIndex, prevBasePointer =>
    let top := topPCNoStackFrame && frameIndex == 0
    let nextBasePointer := if top then prevBasePointer else t.pointerAt prevBasePointer
    (if top then [] else [prevBasePointer + 8, prevBasePointer])
      ++ if nextBasePointer = 0 then []
        else frameDerefs topPCNoStackFrame rounds (frameIndex + 1) nextBasePointer

/-- What a walk hands to `DerefPtr` in so many rounds. -/
def walkDerefs (rounds : ℕ) (gpr : GPR arch) (exc : EXC arch) : List UInt64 :=
  if gpr.basePointer = 0 then []
  else t.frameDerefs (t.topPCNoStackFrame gpr exc) rounds 0 gpr.basePointer

section Derefs

variable {t} {top : Bool} {lr : UInt64}

/-- The assertion fails in a round that is handed zero. -/
theorem frameLoop_asserts_iff :
    ∀ (rounds frameIndex : ℕ) (bp : UInt64) (result : List UInt64),
      t.frameLoop true arch top lr rounds frameIndex bp result = some (.error .assertion)
        ↔ 0 ∈ t.frameDerefs top rounds frameIndex bp
  | 0, _, _, _ => by simp [frameLoop, frameDerefs]
  | rounds + 1, frameIndex, bp, result => by
    have ih := fun next result => frameLoop_asserts_iff rounds (frameIndex + 1) next result
    unfold frameLoop frameDerefs
    rcases htop : top && frameIndex == 0 with _ | _
    · simp only [Bool.false_eq_true, if_false, List.mem_append, List.mem_pair]
      by_cases hip : bp + 8 = 0
      · simp [derefPtr, hip]
      by_cases hbp : bp = 0
      · simp [derefPtr, hbp]
      have hderef : ∀ {ptr : UInt64}, ptr ≠ 0 → t.derefPtr true ptr = .ok (t.pointerAt ptr) :=
        fun h => derefPtr_of_ne fun _ => h
      rw [hderef hip, hderef hbp]
      simp only [Ne.symm hip, Ne.symm hbp, or_self, false_or]
      by_cases hz : t.pointerAt bp = 0
      · simp [hz]
      · rw [if_neg hz, if_neg hz]
        exact ih _ _
    · simp only [if_true, List.nil_append]
      by_cases hz : bp = 0
      · simp [hz]
      · rw [if_neg hz, if_neg hz]
        exact ih _ _

/-- Past the top frame, zero is the address of a return address. -/
theorem zero_mem_frameDerefs_iff :
    ∀ (rounds frameIndex : ℕ) (bp : UInt64), bp ≠ 0 → (top = true → frameIndex ≠ 0) →
      (0 ∈ t.frameDerefs top rounds frameIndex bp
        ↔ ∃ n < rounds, (∀ m ≤ n, t.basePointers bp m ≠ 0) ∧ t.basePointers bp n + 8 = 0)
  | 0, _, _, _, _ => by simp [frameDerefs]
  | rounds + 1, frameIndex, bp, hbp, htop => by
    have hfirst : (∃ n < rounds + 1, (∀ m ≤ n, t.basePointers bp m ≠ 0)
          ∧ t.basePointers bp n + 8 = 0)
        ↔ bp + 8 = 0 ∨ ∃ n < rounds, (∀ m ≤ n, t.basePointers (t.pointerAt bp) m ≠ 0)
          ∧ t.basePointers (t.pointerAt bp) n + 8 = 0 := by
      rw [Nat.exists_lt_succ_left]
      refine or_congr ?_ (exists_congr fun n => and_congr_right fun _ => and_congr_left' ?_)
      · simp only [Nat.le_zero, forall_eq]
        exact and_iff_right hbp
      · constructor
        · intro h m hm
          exact h (m + 1) (Nat.succ_le_succ hm)
        · intro h m hm
          cases m with
          | zero => exact hbp
          | succ m => exact h m (Nat.le_of_succ_le_succ hm)
    rw [hfirst, frameDerefs]
    simp only [top_and_eq_false htop, Bool.false_eq_true, if_false, List.mem_append,
      List.mem_pair, Ne.symm hbp, or_false, eq_comm (a := (0 : UInt64))]
    refine or_congr_right ?_
    by_cases hz : t.pointerAt bp = 0
    · rw [if_pos hz]
      refine iff_of_false List.not_mem_nil ?_
      rintro ⟨n, -, hall, -⟩
      exact hall 0 (Nat.zero_le n) hz
    · rw [if_neg hz]
      exact zero_mem_frameDerefs_iff rounds (frameIndex + 1) _ hz fun _ => Nat.succ_ne_zero _

/-- A frameless top function takes a round that dereferences nothing. -/
theorem frameDerefs_top {rounds : ℕ} {bp : UInt64} (hbp : bp ≠ 0) :
    t.frameDerefs true (rounds + 1) 0 bp = t.frameDerefs true rounds 1 bp := by
  rw [frameDerefs]
  simp [hbp]

theorem exists_zero_mem_walkDerefs_iff (gpr : GPR arch) (exc : EXC arch) :
    (∃ rounds, 0 ∈ t.walkDerefs rounds gpr exc)
      ↔ ∃ n, (∀ m ≤ n, t.basePointers gpr.basePointer m ≠ 0)
        ∧ t.basePointers gpr.basePointer n + 8 = 0 := by
  by_cases hbp : gpr.basePointer = 0
  · refine iff_of_false (by simp [walkDerefs, hbp]) ?_
    rintro ⟨n, hall, -⟩
    exact hall 0 (Nat.zero_le n) hbp
  simp only [walkDerefs, if_neg hbp]
  generalize t.topPCNoStackFrame gpr exc = top
  have hiff : ∀ rounds frameIndex, (top = true → frameIndex ≠ 0) →
      (0 ∈ t.frameDerefs top rounds frameIndex gpr.basePointer ↔ _) :=
    fun rounds frameIndex => zero_mem_frameDerefs_iff rounds frameIndex gpr.basePointer hbp
  cases top with
  | false =>
    constructor
    · rintro ⟨rounds, h⟩
      obtain ⟨n, -, hn⟩ := (hiff rounds 0 (by simp)).1 h
      exact ⟨n, hn⟩
    · rintro ⟨n, hn⟩
      exact ⟨n + 1, (hiff (n + 1) 0 (by simp)).2 ⟨n, Nat.lt_succ_self n, hn⟩⟩
  | true =>
    constructor
    · rintro ⟨rounds | rounds, h⟩
      · cases h
      · rw [frameDerefs_top hbp] at h
        obtain ⟨n, -, hn⟩ := (hiff rounds 1 (by simp)).1 h
        exact ⟨n, hn⟩
    · rintro ⟨n, hn⟩
      refine ⟨n + 2, ?_⟩
      rw [frameDerefs_top hbp]
      exact (hiff (n + 1) 1 (by simp)).2 ⟨n, Nat.lt_succ_self n, hn⟩

theorem walkStack_asserts_iff (rounds : ℕ) (gpr : GPR arch) (exc : EXC arch) :
    t.walkStack true rounds gpr exc = some (.error .assertion)
      ↔ 0 ∈ t.walkDerefs rounds gpr exc := by
  by_cases hbp : gpr.basePointer = 0
  · simp [walkStack, walkDerefs, hbp]
  · simp only [walkStack, walkDerefs, if_neg hbp]
    exact frameLoop_asserts_iff _ _ _ _

end Derefs

/-- No address is zero, and no assertion fails, exactly when the chain of base pointers does not
come to the last word of the address space. -/
theorem walkStack_derefs_iff (t : WalkTarget) (gpr : GPR arch) (exc : EXC arch) :
    ((∀ rounds, ∀ ptr ∈ t.walkDerefs rounds gpr exc, ptr ≠ 0)
        ∧ ∀ rounds, t.walkStack true rounds gpr exc ≠ some (.error .assertion))
      ↔ ∀ n, (∀ m ≤ n, t.basePointers gpr.basePointer m ≠ 0) →
        t.basePointers gpr.basePointer n ≠ 0xFFFFFFFFFFFFFFF8 := by
  have hlast : ∀ bp : UInt64, bp = 0xFFFFFFFFFFFFFFF8 ↔ bp + 8 = 0 := fun bp =>
    eq_sub_iff_add_eq (a := bp) (b := 0) (c := 8)
  have hzero := (exists_zero_mem_walkDerefs_iff (t := t) gpr exc).not
  simp only [not_exists, not_and, ← hlast] at hzero
  rw [← hzero]
  constructor
  · rintro ⟨hne, -⟩ rounds hmem
    exact hne rounds 0 hmem rfl
  · intro h
    refine ⟨fun rounds ptr hptr hz => h rounds (hz ▸ hptr), fun rounds hassert => ?_⟩
    exact h rounds ((walkStack_asserts_iff rounds gpr exc).1 hassert)

end WalkTarget

/-- The base pointer is the last word of the address space. -/
def lastWordGPR : GPR .arm64 where
  kind := 6
  nWordCount := 68
  gpr := ⟨(List.replicate 232 0 ++ le64 0xFFFFFFFFFFFFFFF8 ++ List.replicate 32 0).toArray, by
    simp only [List.size_toArray, List.length_append, List.length_replicate, length_le64,
      Arch.gprSize]⟩

/-- The return address would be at zero. -/
theorem walkStack_derefs_lastWord :
    selfPointing.walkDerefs 1 lastWordGPR sampleEXC = [0, 0xFFFFFFFFFFFFFFF8]
      ∧ selfPointing.walkStack true 1 lastWordGPR sampleEXC = some (.error .assertion) := by
  decide +kernel

end MacMiniDump
