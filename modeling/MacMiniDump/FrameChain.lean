import MacMiniDump.StackWalk

/-!
# The frames a walk reports

Past the top frame the walk is a plain chase of the saved base pointers (`walkStack_eq`). A top
function without a frame only puts the link register behind the instruction pointer
(`walkStack_frameless`). The chase stops at the record whose saved base pointer is zero before it
notes the return address of that record, so that one is missing unless it is zero
(`walkStack_reports_iff`).
-/

namespace MacMiniDump

namespace WalkTarget

variable {arch : Arch} (t : WalkTarget)

/-- It returns the list, after some number of rounds. -/
def Returns (debug : Bool) (gpr : GPR arch) (exc : EXC arch) (l : List UInt64) : Prop :=
  ∃ rounds, t.walkStack debug rounds gpr exc = some (.ok l)

/-- What the frame loop adds past the top frame. -/
def chase (debug : Bool) (arch : Arch) : ℕ → UInt64 → Option (Except Fault (List UInt64))
  | 0, _ => none
  | rounds + 1, basePointer =>
    match t.derefPtr debug (basePointer + 8) with
    | .error e => some (.error e)
    | .ok ip =>
      match t.derefPtr debug basePointer with
      | .error e => some (.error e)
      | .ok next =>
        if next = 0 then some (.ok [])
        else (chase debug arch rounds next).map fun r => r.map (t.stripPACFromPointer arch ip :: ·)

section Chase

variable {t} {debug : Bool}

theorem frameLoop_eq {top : Bool} {lr : UInt64} :
    ∀ (rounds frameIndex : ℕ) (bp : UInt64) (result : List UInt64),
      (top = true → frameIndex ≠ 0) →
      t.frameLoop debug arch top lr rounds frameIndex bp result
        = (t.chase debug arch rounds bp).map fun r => r.map (result ++ ·)
  | 0, _, _, _, _ => rfl
  | rounds + 1, frameIndex, bp, result, htop => by
    unfold frameLoop chase
    simp only [top_and_eq_false htop, Bool.false_eq_true, if_false]
    rcases t.derefPtr debug (bp + 8) with e | ip
    · rfl
    rcases t.derefPtr debug bp with e | next
    · rfl
    simp only []
    by_cases hz : next = 0
    · simp [hz, Except.map]
    · rw [if_neg hz, if_neg hz, frameLoop_eq rounds (frameIndex + 1) next _ fun _ =>
        Nat.succ_ne_zero _]
      rcases t.chase debug arch rounds next with _ | _ | l
      · rfl
      · rfl
      · simp [Except.map]

/-- The instruction pointer, the link register if the top function has no frame, and the chase. -/
theorem walkStack_eq {gpr : GPR arch} {exc : EXC arch} (hbp : gpr.basePointer ≠ 0) (rounds : ℕ) :
    t.walkStack debug (rounds + 1) gpr exc =
      if t.topPCNoStackFrame gpr exc then
        (t.chase debug arch rounds gpr.basePointer).map fun r => r.map
          (t.stripPACFromPointer arch gpr.instructionPointer
            :: t.stripPACFromPointer arch gpr.linkRegister :: ·)
      else (t.chase debug arch (rounds + 1) gpr.basePointer).map fun r => r.map
        (t.stripPACFromPointer arch gpr.instructionPointer :: ·) := by
  simp only [walkStack, hbp, if_false]
  generalize t.topPCNoStackFrame gpr exc = top
  cases top with
  | false => exact frameLoop_eq _ 0 _ _ (by simp)
  | true =>
    rw [frameLoop_top hbp, frameLoop_eq _ 1 _ _ fun _ => one_ne_zero]
    rfl

theorem chase_succ :
    ∀ {rounds : ℕ} {bp : UInt64} {r : Except Fault (List UInt64)},
      t.chase debug arch rounds bp = some r → t.chase debug arch (rounds + 1) bp = some r
  | 0, _, _, h => by simp [chase] at h
  | rounds + 1, bp, r, h => by
    unfold chase at h ⊢
    split at h
    · exact h
    split at h
    · exact h
    split_ifs at h ⊢
    · exact h
    · obtain ⟨r', hr', rfl⟩ := Option.map_eq_some_iff.1 h
      rw [chase_succ hr', Option.map_some]

theorem chase_of_le {bp : UInt64} {r : Except Fault (List UInt64)} {rounds rounds' : ℕ}
    (hle : rounds ≤ rounds') (h : t.chase debug arch rounds bp = some r) :
    t.chase debug arch rounds' bp = some r := by
  induction hle with
  | refl => exact h
  | step _ ih => exact chase_succ ih

/-- However many rounds it takes, the chase comes to the same. -/
theorem chase_unique {bp : UInt64} {r r' : Except Fault (List UInt64)} {rounds rounds' : ℕ}
    (h : t.chase debug arch rounds bp = some r) (h' : t.chase debug arch rounds' bp = some r') :
    r = r' := by
  rcases le_total rounds rounds' with hle | hle
  · exact Option.some.inj ((chase_of_le hle h).symm.trans h')
  · exact Option.some.inj (h.symm.trans (chase_of_le hle h'))

/-- What a walk returns, in terms of the chase. -/
theorem returns_iff {gpr : GPR arch} {exc : EXC arch} (hbp : gpr.basePointer ≠ 0)
    {l : List UInt64} :
    t.Returns debug gpr exc l ↔ ∃ rounds rest,
      t.chase debug arch rounds gpr.basePointer = some (.ok rest)
        ∧ l = t.stripPACFromPointer arch gpr.instructionPointer
          :: ((if t.topPCNoStackFrame gpr exc then [t.stripPACFromPointer arch gpr.linkRegister]
            else []) ++ rest) := by
  have hzero : t.walkStack debug 0 gpr exc = none := by simp [walkStack, hbp, frameLoop]
  constructor
  · rintro ⟨_ | rounds, h⟩
    · simp [hzero] at h
    rw [walkStack_eq hbp] at h
    split_ifs at h ⊢
    · obtain ⟨r, hr, hmap⟩ := Option.map_eq_some_iff.1 h
      rcases r with e | rest
      · simp [Except.map] at hmap
      · simp only [Except.map, Except.ok.injEq] at hmap
        exact ⟨rounds, rest, hr, hmap.symm⟩
    · obtain ⟨r, hr, hmap⟩ := Option.map_eq_some_iff.1 h
      rcases r with e | rest
      · simp [Except.map] at hmap
      · simp only [Except.map, Except.ok.injEq] at hmap
        exact ⟨rounds + 1, rest, hr, hmap.symm⟩
  · rintro ⟨rounds, rest, h, rfl⟩
    refine ⟨rounds + 1, ?_⟩
    rw [walkStack_eq hbp]
    split_ifs
    · rw [h]
      rfl
    · rw [chase_succ h]
      rfl

end Chase

/-- Targets with the same memory chase the same frames. -/
theorem chase_congr {t t' : WalkTarget} {debug : Bool} (hread : t'.read = t.read)
    (hxpaci : t'.xpaci = t.xpaci) :
    ∀ (rounds : ℕ) (bp : UInt64), t'.chase debug arch rounds bp = t.chase debug arch rounds bp
  | 0, _ => rfl
  | rounds + 1, bp => by
    have hderef : t'.derefPtr debug = t.derefPtr debug := by
      funext ptr
      unfold derefPtr pointerAt
      rw [hread]
    have hstrip : t'.stripPACFromPointer arch = t.stripPACFromPointer arch := by
      funext ptr
      unfold stripPACFromPointer
      rw [hxpaci]
    unfold chase
    simp only [hderef, hstrip, chase_congr hread hxpaci rounds]

theorem exists_chase {t : WalkTarget} {debug : Bool} :
    ∀ {n : ℕ} {bp : UInt64}, t.basePointers bp n = 0 → bp ≠ 0 →
      (∀ m < n, t.basePointers bp m ≠ 0 ∧ (debug = true → t.basePointers bp m + 8 ≠ 0)) →
      ∃ rest, t.chase debug arch n bp = some (.ok rest)
  | 0, bp, hn, hbp, _ => absurd hn hbp
  | n + 1, bp, hn, hbp, hall => by
    have hip : t.derefPtr debug (bp + 8) = .ok (t.pointerAt (bp + 8)) :=
      derefPtr_of_ne (hall 0 (Nat.succ_pos n)).2
    have hnext : t.derefPtr debug bp = .ok (t.pointerAt bp) := derefPtr_of_ne fun _ => hbp
    unfold chase
    simp only [hip, hnext]
    by_cases hz : t.pointerAt bp = 0
    · exact ⟨[], if_pos hz⟩
    · obtain ⟨rest, hrest⟩ : ∃ rest,
          t.chase debug arch n (t.pointerAt bp) = some (.ok rest) :=
        exists_chase hn hz fun m hm =>
          hall (m + 1) (Nat.succ_lt_succ hm)
      rw [if_neg hz, hrest]
      exact ⟨_, rfl⟩

/-- Over the same memory and registers, a walk that finds the top function to have no frame returns
what one that finds a frame does, with the link register after the instruction pointer. -/
theorem walkStack_frameless {t t' : WalkTarget} {debug : Bool} {gpr : GPR .arm64}
    {exc exc' : EXC .arm64} (hread : t'.read = t.read) (hxpaci : t'.xpaci = t.xpaci)
    (hbp : gpr.basePointer ≠ 0) (hchain : t.ChainEnds debug gpr.basePointer)
    (hframeless : t.topPCNoStackFrame gpr exc = true)
    (hframe : t'.topPCNoStackFrame gpr exc' = false) :
    ∃ frames, (∀ l, t'.Returns debug gpr exc' l ↔ l = t.xpaci gpr.instructionPointer :: frames)
      ∧ ∀ l, t.Returns debug gpr exc l
        ↔ l = t.xpaci gpr.instructionPointer :: t.xpaci gpr.linkRegister :: frames := by
  obtain ⟨n, hn, hall⟩ := hchain
  obtain ⟨frames, hframes⟩ : ∃ frames, t.chase debug .arm64 n gpr.basePointer = some (.ok frames) :=
    exists_chase hn hbp hall
  refine ⟨frames, fun l => ?_, fun l => ?_⟩
  · rw [returns_iff hbp, hframe]
    simp only [chase_congr hread hxpaci, stripPACFromPointer, hxpaci]
    constructor
    · rintro ⟨rounds, rest, h, rfl⟩
      obtain rfl : rest = frames := by simpa using chase_unique h hframes
      rfl
    · rintro rfl
      exact ⟨n, frames, hframes, rfl⟩
  · rw [returns_iff hbp, hframeless]
    constructor
    · rintro ⟨rounds, rest, h, rfl⟩
      obtain rfl : rest = frames := by simpa using chase_unique h hframes
      rfl
    · rintro rfl
      exact ⟨n, frames, hframes, rfl⟩

/-! ## The return addresses -/

/-- The return address of the record that the chain comes to after `i` steps. -/
def returnAddress (bp : UInt64) (i : ℕ) : UInt64 := t.pointerAt (t.basePointers bp i + 8)

/-- The records at `bp` and after make a chain of `n + 1`: each is in memory and can be read, and
the base pointer saved in the last one is zero. -/
structure FrameChain (bp : UInt64) (n : ℕ) : Prop where
  nonzero : ∀ i ≤ n, t.basePointers bp i ≠ 0
  inMemory : ∀ i ≤ n, (t.basePointers bp i).toNat + 16 ≤ 2 ^ 64
  savedPointer : ∀ i ≤ n, (t.read (t.basePointers bp i) 8).isSome = true
  savedAddress : ∀ i ≤ n, (t.read (t.basePointers bp i + 8) 8).isSome = true
  ends : t.basePointers bp (n + 1) = 0

/-- All return addresses of the chain. -/
def returnAddresses (bp : UInt64) (n : ℕ) : List UInt64 :=
  (List.range (n + 1)).map (t.returnAddress bp)

/-- The list is what was there before the frames, and then the return addresses that are not zero,
each once and in order; one that is zero may be among them or not. -/
def Reports (arch : Arch) (top addresses l : List UInt64) : Prop :=
  ∃ kept : List UInt64, kept.Sublist addresses
    ∧ kept.filter (· ≠ 0) = addresses.filter (· ≠ 0)
    ∧ l = top ++ kept.map (t.stripPACFromPointer arch)

/-- What a walk puts before the frames. -/
def topOfWalk (gpr : GPR arch) (exc : EXC arch) : List UInt64 :=
  t.stripPACFromPointer arch gpr.instructionPointer
    :: if t.topPCNoStackFrame gpr exc then [t.stripPACFromPointer arch gpr.linkRegister] else []

section Reports

variable {t}

theorem FrameChain.tail {bp : UInt64} {n : ℕ} (h : t.FrameChain bp (n + 1)) :
    t.FrameChain (t.pointerAt bp) n where
  nonzero i hi := h.nonzero (i + 1) (by omega)
  inMemory i hi := h.inMemory (i + 1) (by omega)
  savedPointer i hi := h.savedPointer (i + 1) (by omega)
  savedAddress i hi := h.savedAddress (i + 1) (by omega)
  ends := h.ends

theorem FrameChain.add_eight_ne {bp : UInt64} {n : ℕ} (h : t.FrameChain bp n) : bp + 8 ≠ 0 := by
  intro hz
  have hmem : bp.toNat + 16 ≤ 2 ^ 64 := h.inMemory 0 (Nat.zero_le n)
  have h8 : (8 : UInt64).toNat = 8 := rfl
  have hsum := congrArg UInt64.toNat hz
  rw [UInt64.toNat_add, h8, UInt64.toNat_zero, Nat.mod_eq_of_lt (by omega)] at hsum
  omega

/-- The chase notes the return addresses of all records but the last. -/
theorem chase_of_frameChain {debug : Bool} :
    ∀ {n : ℕ} {bp : UInt64}, t.FrameChain bp n →
      t.chase debug arch (n + 1) bp = some (.ok
        ((List.range n).map fun i => t.stripPACFromPointer arch (t.returnAddress bp i)))
  | n, bp, h => by
    have hbp : bp ≠ 0 := h.nonzero 0 (Nat.zero_le n)
    have hip : t.derefPtr debug (bp + 8) = .ok (t.pointerAt (bp + 8)) :=
      derefPtr_of_ne fun _ => h.add_eight_ne
    have hnext : t.derefPtr debug bp = .ok (t.pointerAt bp) := derefPtr_of_ne fun _ => hbp
    unfold chase
    simp only [hip, hnext]
    cases n with
    | zero =>
      have hend : t.pointerAt bp = 0 := h.ends
      rw [if_pos hend]
      rfl
    | succ n =>
      have hne : t.pointerAt bp ≠ 0 := h.nonzero 1 (by omega)
      rw [if_neg hne, chase_of_frameChain h.tail, List.range_succ_eq_map, List.map_cons,
        List.map_map]
      rfl

/-- The walk of a chain returns the return addresses of all records but the last. -/
theorem returns_of_frameChain {debug : Bool} {gpr : GPR arch} {exc : EXC arch} {n : ℕ}
    (h : t.FrameChain gpr.basePointer n) {l : List UInt64} :
    t.Returns debug gpr exc l ↔ l = t.topOfWalk gpr exc
      ++ ((t.returnAddresses gpr.basePointer n).dropLast).map (t.stripPACFromPointer arch) := by
  have hdrop : (t.returnAddresses gpr.basePointer n).dropLast
      = (List.range n).map (t.returnAddress gpr.basePointer) := by
    rw [returnAddresses, List.range_succ, List.map_append, List.map_singleton, List.dropLast_concat]
  have hchase : t.chase debug arch (n + 1) gpr.basePointer = _ := chase_of_frameChain h
  rw [returns_iff (h.nonzero 0 (Nat.zero_le n)), hdrop, List.map_map, topOfWalk, List.cons_append]
  constructor
  · rintro ⟨rounds, rest, hr, rfl⟩
    have hrest := chase_unique hr hchase
    simp only [Except.ok.injEq] at hrest
    rw [hrest]
    rfl
  · rintro rfl
    exact ⟨n + 1, _, hchase, rfl⟩

/-- When all but the last of the values are mapped to what one of them is, after it was left out,
they are all mapped to the same from that one on. -/
theorem map_eq_of_shift {f : UInt64 → UInt64} :
    ∀ {l : List UInt64} {a last : UInt64}, (l ++ [last]).map f = (a :: l).map f →
      ∀ x ∈ l ++ [last], f x = f a
  | [], a, last, h, x, hx => by
    obtain rfl : x = last := by simpa using hx
    simpa using h
  | b :: l, a, last, h, x, hx => by
    simp only [List.cons_append, List.map_cons, List.cons.injEq] at h
    rcases List.mem_cons.1 hx with rfl | hx
    · exact h.1
    · rw [← h.1]
      refine map_eq_of_shift ?_ x hx
      simpa using h.2

/-- All but the last value stand for all that are not zero when the last one is zero, or when from
some zero on nothing can be told apart. -/
theorem exists_kept_iff {f : UInt64 → UInt64} :
    ∀ {init : List UInt64} {last : UInt64}, (∃ kept : List UInt64, kept.Sublist (init ++ [last])
        ∧ kept.filter (· ≠ 0) = (init ++ [last]).filter (· ≠ 0)
        ∧ init.map f = kept.map f)
      ↔ last = 0 ∨ ∃ pre post, init = pre ++ 0 :: post ∧ ∀ x ∈ post ++ [last], f x = f 0
  | init, last => by
    constructor
    · rintro ⟨kept, hsub, hfilter, hmap⟩
      by_cases hlast : last = 0
      · exact .inl hlast
      right
      induction init generalizing kept with
      | nil =>
        obtain rfl : kept = [] := by simpa using hmap.symm
        simp [hlast] at hfilter
      | cons a init ih =>
        obtain ⟨k, kept, rfl⟩ : ∃ k kept', kept = k :: kept' := by
          cases kept with
          | nil => simp at hmap
          | cons k kept => exact ⟨k, kept, rfl⟩
        simp only [List.map_cons, List.cons.injEq] at hmap
        rw [List.cons_append] at hsub hfilter
        rcases List.cons_sublist_cons'.1 hsub with hall | ⟨rfl, hinit⟩
        · -- the first one is left out, and the rest are all there
          have hlen : (k :: kept).length = (init ++ [last]).length := by
            have := congrArg List.length hmap.2
            simpa using this.symm
          have hkept : k :: kept = init ++ [last] := hall.eq_of_length hlen
          have hzero : a = 0 := by
            by_contra hne
            rw [hkept, List.filter_cons_of_pos (by simpa using hne)] at hfilter
            have := congrArg List.length hfilter
            simp at this
          refine ⟨[], init, by rw [hzero]; rfl, fun x hx => ?_⟩
          rw [← hzero]
          refine map_eq_of_shift ?_ x hx
          rw [← hkept, List.map_cons, List.map_cons, hmap.1, hmap.2]
        · have hfilter' : kept.filter (· ≠ 0) = (init ++ [last]).filter (· ≠ 0) := by
            by_cases hk : k = 0
            · rwa [List.filter_cons_of_neg (by simpa using hk),
                List.filter_cons_of_neg (by simpa using hk)] at hfilter
            · rw [List.filter_cons_of_pos (by simpa using hk),
                List.filter_cons_of_pos (by simpa using hk)] at hfilter
              exact (List.cons.inj hfilter).2
          obtain ⟨pre, post, rfl, hall⟩ := ih kept hinit hfilter' hmap.2
          exact ⟨k :: pre, post, rfl, hall⟩
    · rintro (rfl | ⟨pre, post, rfl, hall⟩)
      · refine ⟨init, List.sublist_append_left _ _, ?_, rfl⟩
        simp
      · refine ⟨pre ++ (post ++ [last]), ?_, ?_, ?_⟩
        · rw [List.append_assoc]
          exact (List.Sublist.refl _).append (List.sublist_cons_self _ _)
        · simp
        · have hconst : ∀ l : List UInt64, (∀ x ∈ l, f x = f 0) →
              l.map f = List.replicate l.length (f 0) := by
            intro l hl
            rw [List.map_congr_left hl, List.map_const']
          have hpost : ∀ x ∈ post, f x = f 0 := fun x hx => hall x (List.mem_append_left _ hx)
          rw [List.map_append, List.map_append, List.map_cons, hconst _ hpost, hconst _ hall]
          simp [List.replicate_succ]

end Reports

/-- The outermost record has no return address, or one that cannot be told from that of a record
further in which has none, and neither can those between them. -/
def OutermostIsZero (arch : Arch) (bp : UInt64) (n : ℕ) : Prop :=
  t.returnAddress bp n = 0 ∨ ∃ j < n, t.returnAddress bp j = 0
    ∧ ∀ i, j < i → i ≤ n →
      t.stripPACFromPointer arch (t.returnAddress bp i) = t.stripPACFromPointer arch 0

theorem exists_split_range_iff {f : ℕ → UInt64} {g : UInt64 → UInt64} {n : ℕ} :
    (∃ pre post, (List.range n).map f = pre ++ 0 :: post ∧ ∀ x ∈ post ++ [f n], g x = g 0)
      ↔ ∃ j < n, f j = 0 ∧ ∀ i, j < i → i ≤ n → g (f i) = g 0 := by
  constructor
  · rintro ⟨pre, post, heq, hall⟩
    have hget : ∀ i (hi : i < n), (pre ++ 0 :: post)[i]? = some (f i) := by
      intro i hi
      rw [← heq, List.getElem?_map, List.getElem?_range hi, Option.map_some]
    have hlen : n = pre.length + (post.length + 1) := by
      simpa using congrArg List.length heq
    refine ⟨pre.length, by omega, ?_, fun i hji hin => ?_⟩
    · have := hget pre.length (by omega)
      simpa using this.symm
    · rcases hin.lt_or_eq with hlt | rfl
      · refine hall _ (List.mem_append_left _ ?_)
        have := hget i hlt
        rw [List.getElem?_append_right hji.le] at this
        obtain ⟨d, hd⟩ : ∃ d, i - pre.length = d + 1 := ⟨i - pre.length - 1, by omega⟩
        rw [hd, List.getElem?_cons_succ] at this
        exact List.mem_of_getElem? this
      · exact hall _ (by simp)
  · rintro ⟨j, hj, hzero, hall⟩
    refine ⟨(List.range j).map f, (List.range' (j + 1) (n - j - 1)).map f, ?_, fun x hx => ?_⟩
    · have hsplit : List.range n = List.range j ++ j :: List.range' (j + 1) (n - j - 1) := by
        obtain ⟨d, rfl⟩ : ∃ d, n = j + (d + 1) := ⟨n - j - 1, by omega⟩
        rw [List.range_eq_range', List.range_eq_range', ← List.range'_append_1,
          Nat.zero_add, List.range'_succ]
        congr 3
        omega
      rw [hsplit, List.map_append, List.map_cons, hzero]
    · rcases List.mem_append.1 hx with hx | hx
      · obtain ⟨i, hi, rfl⟩ := List.mem_map.1 hx
        rw [List.mem_range'_1] at hi
        exact hall i (by omega) (by omega)
      · obtain rfl := List.mem_singleton.1 hx
        exact hall n hj le_rfl

/-- The walk of a chain reports every return address exactly when the outermost record has none. -/
theorem walkStack_reports_iff (t : WalkTarget) (debug : Bool) (gpr : GPR arch) (exc : EXC arch)
    (n : ℕ) (h : t.FrameChain gpr.basePointer n) :
    (∃ l, t.Returns debug gpr exc l ∧ t.Reports arch (t.topOfWalk gpr exc)
        (t.returnAddresses gpr.basePointer n) l)
      ↔ t.OutermostIsZero arch gpr.basePointer n := by
  have hsplit : t.returnAddresses gpr.basePointer n
      = (List.range n).map (t.returnAddress gpr.basePointer)
        ++ [t.returnAddress gpr.basePointer n] := by
    rw [returnAddresses, List.range_succ, List.map_append, List.map_singleton]
  rw [OutermostIsZero, ← exists_split_range_iff (g := t.stripPACFromPointer arch),
    ← exists_kept_iff]
  constructor
  · rintro ⟨l, hl, kept, hsub, hfilter, hmap⟩
    rw [returns_of_frameChain h] at hl
    rw [hsplit] at hsub hfilter hl
    rw [List.dropLast_concat] at hl
    exact ⟨kept, hsub, hfilter, List.append_cancel_left (hl.symm.trans hmap)⟩
  · rintro ⟨kept, hsub, hfilter, hmap⟩
    refine ⟨_, (returns_of_frameChain h).2 rfl, kept, ?_, ?_, ?_⟩
    · rwa [hsplit]
    · rwa [hsplit]
    · rw [hsplit, List.dropLast_concat, hmap]

end WalkTarget

/-- The frame record at `0x1000` is the outermost one, and has a return address. -/
def oneRecord : WalkTarget where
  read ptr _ := some (if ptr = 0x1008 then le64 0x4000 else le64 0)
  memoryRegions := []
  xpaci ptr := ptr
  lookupStackFrameForPC _ := .hasFrame

/-- Records at `0x1000`, `0x2000` and `0x3000`, of which the last is the outermost one. -/
def threeRecords : WalkTarget where
  read ptr _ := some (le64 ([((0x1000 : UInt64), (0x2000 : UInt64)), (0x1008, 0x4000),
    (0x2000, 0x3000), (0x2008, 0x5000), (0x3008, 0x6000)].lookup ptr |>.getD 0))
  memoryRegions := []
  xpaci ptr := ptr
  lookupStackFrameForPC _ := .hasFrame

theorem frameChain_oneRecord : oneRecord.FrameChain sampleGPR.basePointer 0 := by
  have hbp : sampleGPR.basePointer = 0x1000 := by decide +kernel
  rw [hbp]
  refine ⟨?_, ?_, ?_, ?_, by decide +kernel⟩
  all_goals
    intro i hi
    obtain rfl := Nat.le_zero.1 hi
    decide +kernel

theorem frameChain_threeRecords : threeRecords.FrameChain sampleGPR.basePointer 2 := by
  have hbp : sampleGPR.basePointer = 0x1000 := by decide +kernel
  rw [hbp]
  refine ⟨?_, ?_, ?_, ?_, by decide +kernel⟩
  all_goals decide +kernel

theorem walkStack_reports_iff_threeRecords :
    (∃ l, threeRecords.Returns true sampleGPR sampleEXC l
        ∧ threeRecords.Reports .arm64 (threeRecords.topOfWalk sampleGPR sampleEXC)
          (threeRecords.returnAddresses sampleGPR.basePointer 2) l)
      ↔ threeRecords.OutermostIsZero .arm64 sampleGPR.basePointer 2 :=
  WalkTarget.walkStack_reports_iff threeRecords true sampleGPR sampleEXC 2 frameChain_threeRecords

/-- The return address in the outermost record is not reported. -/
theorem not_reports_oneRecord :
    oneRecord.FrameChain sampleGPR.basePointer 0
      ∧ ¬ ∃ l, oneRecord.Returns true sampleGPR sampleEXC l
        ∧ oneRecord.Reports .arm64 (oneRecord.topOfWalk sampleGPR sampleEXC)
          (oneRecord.returnAddresses sampleGPR.basePointer 0) l := by
  refine ⟨frameChain_oneRecord, ?_⟩
  rintro ⟨l, hl, kept, hsub, hfilter, hmap⟩
  have haddr : oneRecord.returnAddresses sampleGPR.basePointer 0 = [0x4000] := by decide +kernel
  rw [WalkTarget.returns_of_frameChain frameChain_oneRecord, haddr] at hl
  rw [haddr] at hsub hfilter
  have hkept : kept = [] := by simpa using List.append_cancel_left (hl.symm.trans hmap)
  rw [hkept] at hfilter
  exact absurd hfilter (by decide)

/-- The three records under code that has no frame. -/
theorem walkStack_frameless_threeRecords :
    ∃ frames, (∀ l, threeRecords.Returns true sampleGPR sampleEXC l
        ↔ l = sampleGPR.instructionPointer :: frames)
      ∧ ∀ l, { threeRecords with lookupStackFrameForPC := fun _ => .frameless }.Returns true
          sampleGPR sampleEXC l
        ↔ l = sampleGPR.instructionPointer :: sampleGPR.linkRegister :: frames := by
  have hbp : sampleGPR.basePointer ≠ 0 := frameChain_threeRecords.nonzero 0 (Nat.zero_le 2)
  exact WalkTarget.walkStack_frameless
    (t := { threeRecords with lookupStackFrameForPC := fun _ => .frameless }) rfl rfl hbp
    ⟨3, by decide +kernel, by decide +kernel⟩ (by decide +kernel) (by decide +kernel)

end MacMiniDump
