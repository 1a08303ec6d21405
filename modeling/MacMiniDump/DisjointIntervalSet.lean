import MacMiniDump.Lib.Bytes
import MacMiniDump.Lib.Intervals
import MacMiniDump.Lib.OrderedMap

/-!
# `DisjointIntervalSet`

The ranges to dump, as a map from their starts to their ends. Inserting an interval merges it with
all that overlap or touch it, so the set stays separated and covers what was inserted
(`insertAndMergeIfNeeded_of_lt`), as long as the end of the interval does not overflow.
-/

namespace MacMiniDump

namespace DisjointIntervalSet

/-- The loop that merges the interval with those that overlap or touch it: the merged interval, and
the ones left. -/
def mergeLoop (start stop : UInt64) :
    List (UInt64 × UInt64) → UInt64 × UInt64 × List (UInt64 × UInt64)
  | [] => (start, stop, [])
  | it :: rest =>
    if it.1 ≤ stop then
      if it.2 ≥ start then mergeLoop (min start it.1) (max stop it.2) rest
      else
        let r := mergeLoop start stop rest
        (r.1, r.2.1, it :: r.2.2)
    else (start, stop, it :: rest)

def insertAndMergeIfNeeded (start length : UInt64) (m : List (UInt64 × UInt64)) :
    List (UInt64 × UInt64) :=
  if length = 0 then m
  else
    let stop := start + length
    -- the upper bound of `start` comes after these, and the loop starts at the last of them
    let lower := m.takeWhile (·.1 ≤ start)
    let before := lower.dropLast
    let r := mergeLoop start stop (m.drop before.length)
    assign r.1 r.2.1 (before ++ r.2.2)

/-- The arguments of the calls that `ForEach` makes. -/
def forEachArgs (m : List (UInt64 × UInt64)) : List (UInt64 × UInt64) :=
  m.map fun i => (i.1, i.2 - i.1)

section Merge

/-- What the loop makes of a separated list: an interval that meets none of those left, and covers
with them what was covered before. -/
structure Merges (s e : UInt64) (l : List (UInt64 × UInt64)) (s' e' : UInt64)
    (kept : List (UInt64 × UInt64)) : Prop where
  start_le : s' ≤ s
  le_stop : e ≤ e'
  sublist : kept.Sublist l
  apart : ∀ i ∈ kept, i.2 < s' ∨ e' < i.1
  bound : ∀ b, b < s → (∀ i ∈ l, b < i.1) → b < s'
  covers : ∀ x, ((s' ≤ x ∧ x < e') ∨ Covers kept x) ↔ ((s ≤ x ∧ x < e) ∨ Covers l x)

theorem mergeLoop_merges :
    ∀ {l : List (UInt64 × UInt64)} {s e : UInt64}, Separated l → s < e →
      Merges s e l (mergeLoop s e l).1 (mergeLoop s e l).2.1 (mergeLoop s e l).2.2
  | [], s, e, _, _ => ⟨le_rfl, le_rfl, .refl _, by simp [mergeLoop], fun _ h _ => h,
      fun _ => Iff.rfl⟩
  | (a, b) :: rest, s, e, hl, hse => by
    obtain ⟨hab, hrest⟩ := hl.head_lt
    simp only at hab hrest
    unfold mergeLoop
    simp only [ge_iff_le]
    split_ifs with hae hsb
    · -- overlapping or adjacent
      have hlt : min s a < max e b :=
        calc min s a ≤ s := min_le_left _ _
          _ < e := hse
          _ ≤ max e b := le_max_left _ _
      obtain ⟨h1, h2, h3, h4, h5, h6⟩ := mergeLoop_merges hl.tail hlt
      refine ⟨h1.trans (min_le_left _ _), (le_max_left _ _).trans h2, h3.cons _, h4, ?_, ?_⟩
      · intro c hcs hc
        refine h5 c (lt_min hcs (hc _ List.mem_cons_self)) fun i hi => ?_
        exact hc i (List.mem_cons_of_mem _ hi)
      · intro x
        rw [h6 x, mem_merge_iff hae hsb, covers_cons, or_assoc]
    · -- it ends before the interval starts
      have hbs : b < s := not_le.1 hsb
      obtain ⟨h1, h2, h3, h4, h5, h6⟩ := mergeLoop_merges hl.tail hse
      refine ⟨h1, h2, h3.cons_cons _, ?_, ?_, ?_⟩
      · intro i hi
        rcases List.mem_cons.1 hi with rfl | hi
        · exact .inl (h5 b hbs hrest)
        · exact h4 i hi
      · intro c hcs hc
        exact h5 c hcs fun i hi => hc i (List.mem_cons_of_mem _ hi)
      · intro x
        have := h6 x
        rw [covers_cons, covers_cons]
        tauto
    · -- it starts after the interval ends, and so do the rest
      have hea : e < a := not_le.1 hae
      refine ⟨le_rfl, le_rfl, .refl _, fun i hi => .inr ?_, fun _ h _ => h, fun _ => Iff.rfl⟩
      rcases List.mem_cons.1 hi with rfl | hi
      · exact hea
      · calc e < a := hea
          _ < b := hab
          _ < i.1 := hrest i hi

/-- Before the place where the loop starts, the intervals end before `start`. -/
theorem lt_of_mem_before {m : List (UInt64 × UInt64)} (hm : Separated m) (start : UInt64) :
    ∀ i ∈ (m.takeWhile (·.1 ≤ start)).dropLast, i.2 < start := by
  intro i hi
  have hsub : (m.takeWhile (·.1 ≤ start)).Sublist m := List.takeWhile_sublist _
  have hne : m.takeWhile (·.1 ≤ start) ≠ [] := by
    intro h
    simp [h] at hi
  have hsplit := List.dropLast_append_getLast hne
  have hlast : ((m.takeWhile (·.1 ≤ start)).getLast hne).1 ≤ start := by
    simpa using List.mem_takeWhile_imp (List.getLast_mem hne)
  have hgap := (hm.sublist hsub).gap
  rw [← hsplit] at hgap
  exact ((List.pairwise_append.1 hgap).2.2 i hi _ List.mem_cons_self).trans_le hlast

theorem append_drop_of_isPrefix {α : Type*} {p m : List α} (h : p <+: m) :
    p ++ m.drop p.length = m := by
  obtain ⟨t, rfl⟩ := h
  rw [List.drop_left]

/-- Inserting an interval that does not overflow keeps the set separated and adds its points. -/
theorem insertAndMergeIfNeeded_of_lt {start length : UInt64} {m : List (UInt64 × UInt64)}
    (hm : Separated m) (hlt : start < start + length) :
    Separated (insertAndMergeIfNeeded start length m)
      ∧ ∀ x, Covers (insertAndMergeIfNeeded start length m) x
        ↔ (start ≤ x ∧ x < start + length) ∨ Covers m x := by
  have hzero : length ≠ 0 := by
    rintro rfl
    simp at hlt
  have hpre : (m.takeWhile (·.1 ≤ start)).dropLast <+: m :=
    (List.dropLast_prefix _).trans (List.takeWhile_prefix _)
  have hsplit := append_drop_of_isPrefix hpre
  have hbefore := lt_of_mem_before hm start
  rw [insertAndMergeIfNeeded, if_neg hzero]
  simp only []
  generalize (m.takeWhile (·.1 ≤ start)).dropLast = before at hsplit hbefore ⊢
  generalize m.drop before.length = suf at hsplit ⊢
  subst hsplit
  obtain ⟨-, hsuf, hcross⟩ := List.pairwise_append.1 hm.gap
  have hsufsep : Separated suf := hm.sublist (List.sublist_append_right _ _)
  obtain ⟨h1, h2, h3, h4, h5, h6⟩ := mergeLoop_merges hsufsep hlt
  generalize mergeLoop start (start + length) suf = r at h1 h2 h3 h4 h5 h6 ⊢
  have hsep : Separated (before ++ r.2.2) := hm.sublist (List.Sublist.append (.refl _) h3)
  have hapart : ∀ i ∈ before ++ r.2.2, i.2 < r.1 ∨ r.2.1 < i.1 := by
    intro i hi
    rcases List.mem_append.1 hi with hi | hi
    · exact .inl (h5 _ (hbefore i hi) fun j hj => hcross i hi j hj)
    · exact h4 i hi
  have hmerged : r.1 < r.2.1 :=
    calc r.1 ≤ start := h1
      _ < start + length := hlt
      _ ≤ r.2.1 := h2
  obtain ⟨hs, hc⟩ := assign_separated hsep hmerged hapart
  refine ⟨hs, fun x => ?_⟩
  have hx := h6 x
  rw [hc x, covers_append, covers_append]
  tauto

/-- Where the range around `UINT64_MAX - 256` starts, whose end overflows to zero. -/
def topStart : UInt64 := 0 - 513

/-- A separated set that may be followed by the range with the overflown end. -/
structure WithTop (m c : List (UInt64 × UInt64)) : Prop where
  eq : ∃ t, (t = [] ∨ t = [(topStart, 0)]) ∧ m = c ++ t
  separated : Separated c
  below : ∀ i ∈ c, i.1 < topStart

theorem mergeLoop_append_top :
    ∀ {l : List (UInt64 × UInt64)} {s e : UInt64}, (∀ i ∈ l, i.1 < topStart) →
      ∃ t, (t = [] ∨ t = [(topStart, 0)])
        ∧ mergeLoop s e (l ++ [(topStart, 0)])
          = ((mergeLoop s e l).1, (mergeLoop s e l).2.1, (mergeLoop s e l).2.2 ++ t)
  | [], s, e, _ => by
    unfold mergeLoop
    simp only [List.nil_append, ge_iff_le]
    split_ifs with h1 h2
    · have hs : s = 0 := le_antisymm h2 (UInt64.zero_le)
      refine ⟨[], .inl rfl, ?_⟩
      subst hs
      have h3 : max e 0 = e := max_eq_left (UInt64.zero_le)
      have h4 : min (0 : UInt64) topStart = 0 := min_eq_left (UInt64.zero_le)
      simp only [mergeLoop, h3, h4]
    · exact ⟨_, .inr rfl, rfl⟩
    · exact ⟨_, .inr rfl, rfl⟩
  | i :: l, s, e, hl => by
    have hl' : ∀ j ∈ l, j.1 < topStart := fun j hj => hl j (List.mem_cons_of_mem _ hj)
    unfold mergeLoop
    simp only [List.cons_append, ge_iff_le]
    split_ifs with h1 h2
    · exact mergeLoop_append_top hl'
    · obtain ⟨t, ht, heq⟩ := mergeLoop_append_top (s := s) (e := e) hl'
      exact ⟨t, ht, by rw [heq]; rfl⟩
    · exact ⟨_, .inr rfl, rfl⟩

theorem assign_append_top {k v : UInt64} (hk : k < topStart) :
    ∀ l : List (UInt64 × UInt64), assign k v (l ++ [(topStart, 0)])
      = assign k v l ++ [(topStart, 0)]
  | [] => by simp [assign, hk]
  | i :: l => by
    simp only [List.cons_append, assign]
    split_ifs
    · rfl
    · rfl
    · rw [assign_append_top hk l, List.cons_append]

/-- What does not overflow goes into the separated set. -/
theorem insertAndMergeIfNeeded_append_top {start length : UInt64} {c : List (UInt64 × UInt64)}
    (hc : Separated c) (hbelow : ∀ i ∈ c, i.1 < topStart) (hlt : start < start + length)
    (hs : start < topStart) :
    ∃ t, (t = [] ∨ t = [(topStart, 0)]) ∧ insertAndMergeIfNeeded start length
      (c ++ [(topStart, 0)]) = insertAndMergeIfNeeded start length c ++ t := by
  have htake : (c ++ [(topStart, 0)]).takeWhile (·.1 ≤ start) = c.takeWhile (·.1 ≤ start) := by
    rw [List.takeWhile_append]
    split_ifs with h
    · have hstop : ([(topStart, 0)] : List (UInt64 × UInt64)).takeWhile (·.1 ≤ start) = [] := by
        simp [hs]
      rw [hstop, List.append_nil, (List.takeWhile_prefix _).eq_of_length h]
    · rfl
  have hpre : (c.takeWhile (·.1 ≤ start)).dropLast.length ≤ c.length :=
    ((List.dropLast_prefix _).trans (List.takeWhile_prefix _)).length_le
  have hzero : length ≠ 0 := by
    rintro rfl
    simp at hlt
  obtain ⟨t, ht, hloop⟩ := mergeLoop_append_top (s := start) (e := start + length)
    (l := c.drop (c.takeWhile (·.1 ≤ start)).dropLast.length)
    fun i hi => hbelow i (List.mem_of_mem_drop hi)
  have hsep : Separated (c.drop (c.takeWhile (·.1 ≤ start)).dropLast.length) :=
    hc.sublist (List.drop_sublist _ _)
  have hkey := ((mergeLoop_merges hsep hlt).start_le.trans_lt hs)
  refine ⟨t, ht, ?_⟩
  rw [insertAndMergeIfNeeded, insertAndMergeIfNeeded, if_neg hzero, if_neg hzero, htake]
  simp only []
  rw [List.drop_append_of_le_length hpre, hloop]
  rcases ht with rfl | rfl
  · simp only [List.append_nil]
  · rw [← List.append_assoc, assign_append_top hkey]

theorem insertAndMergeIfNeeded_withTop {start length : UInt64} {m c : List (UInt64 × UInt64)}
    (h : WithTop m c) (hlt : start < start + length) (hs : start < topStart) :
    WithTop (insertAndMergeIfNeeded start length m) (insertAndMergeIfNeeded start length c) := by
  obtain ⟨⟨t, ht, rfl⟩, hc, hbelow⟩ := h
  obtain ⟨hsep, hcov⟩ := insertAndMergeIfNeeded_of_lt hc hlt
  refine ⟨?_, hsep, fun i hi => ?_⟩
  · rcases ht with rfl | rfl
    · exact ⟨[], .inl rfl, by simp⟩
    · exact insertAndMergeIfNeeded_append_top hc hbelow hlt hs
  · -- a start is a covered point, with one before it that is not
    have hrun := hsep.mem_iff_isRun.1 hi
    have hstart : ∀ a b, a ≤ i.1 → i.1 < b → a < topStart →
        (∀ x, a ≤ x → x < b → Covers (insertAndMergeIfNeeded start length c) x) →
        i.1 < topStart := by
      intro a b hai hib hat hall
      rcases hai.lt_or_eq with hlt' | rfl
      · obtain ⟨x, h1, h2, h3⟩ := hrun.left a hlt'
        exact absurd (hall x h1 (h2.trans hib)) h3
      · exact hat
    rcases (hcov i.1).1 ⟨i, hi, le_rfl, hsep.lt i hi⟩ with ⟨h1, h2⟩ | ⟨j, hj, h1, h2⟩
    · exact hstart _ _ h1 h2 hs fun x hx hx' => (hcov x).2 (.inl ⟨hx, hx'⟩)
    · exact hstart _ _ h1 h2 (hbelow j hj) fun x hx hx' => (hcov x).2 (.inr ⟨j, hj, hx, hx'⟩)

/-- The range whose end overflows leaves the separated set alone. -/
theorem insertAndMergeIfNeeded_top {m c : List (UInt64 × UInt64)} (h : WithTop m c) :
    WithTop (insertAndMergeIfNeeded topStart 513 m) c := by
  obtain ⟨⟨t, ht, rfl⟩, hc, hbelow⟩ := h
  refine ⟨?_, hc, hbelow⟩
  have hstop : topStart + 513 = 0 := by decide
  have hle : ∀ i ∈ c ++ t, i.1 ≤ topStart := by
    intro i hi
    rcases List.mem_append.1 hi with hi | hi
    · exact (hbelow i hi).le
    · rcases ht with rfl | rfl
      · simp at hi
      · exact (List.mem_singleton.1 hi) ▸ le_rfl
  have htake : (c ++ t).takeWhile (·.1 ≤ topStart) = c ++ t :=
    List.takeWhile_eq_self_iff.2 fun i hi => by simpa using hle i hi
  rw [insertAndMergeIfNeeded, if_neg (by decide), htake, hstop]
  simp only []
  rcases ht with rfl | rfl
  · rcases List.eq_nil_or_concat' c with rfl | ⟨init, last, rfl⟩
    · exact ⟨[(topStart, 0)], .inr rfl, rfl⟩
    rw [List.append_nil, List.dropLast_concat, List.drop_left]
    have happend := assign_append_end (v := 0) hbelow
    simp only [mergeLoop, ge_iff_le]
    split_ifs with h1 h2
    · -- the only interval starts at zero and reaches up to here
      have hzero : last.1 = 0 := le_antisymm h1 UInt64.zero_le
      have hinit : init = [] := by
        refine List.eq_nil_iff_forall_not_mem.2 fun i hi => ?_
        have hlt := (List.pairwise_append.1 hc.ordered).2.2 i hi last List.mem_cons_self
        rw [hzero] at hlt
        exact absurd hlt (not_lt.2 UInt64.zero_le)
      have hmin : min topStart last.1 = last.1 := by
        rw [hzero]
        exact min_eq_right UInt64.zero_le
      have hmax : max 0 last.2 = last.2 := max_eq_right UInt64.zero_le
      rw [hinit, hmin, hmax]
      exact ⟨[], .inl rfl, rfl⟩
    · exact ⟨_, .inr rfl, happend⟩
    · exact ⟨_, .inr rfl, happend⟩
  · rw [List.dropLast_concat, List.drop_left]
    have hloop : mergeLoop topStart 0 [(topStart, 0)] = (topStart, 0, [(topStart, 0)]) := by
      decide
    have hord : Ordered (c ++ [(topStart, (0 : UInt64))]) := by
      refine List.pairwise_append.2 ⟨hc.ordered, List.pairwise_singleton _ _, fun i hi j hj => ?_⟩
      rw [List.mem_singleton.1 hj]
      exact hbelow i hi
    rw [hloop]
    exact ⟨_, .inr rfl, assign_of_mem hord (by simp)⟩

end Merge

/-- The set after ranges, each a start and a length, have been inserted one after another. -/
def insertAll (ranges m : List (UInt64 × UInt64)) : List (UInt64 × UInt64) :=
  ranges.foldl (fun m r => insertAndMergeIfNeeded r.1 r.2 m) m

/-- A point of one of the ranges. -/
def InRanges (ranges : List (UInt64 × UInt64)) (x : UInt64) : Prop :=
  ∃ r ∈ ranges, r.1 ≤ x ∧ x < r.1 + r.2

/-- Ranges whose end does not overflow, and the one that ends at `2 ^ 64`. -/
def Guarded (r : UInt64 × UInt64) : Prop :=
  r = (topStart, 513) ∨ r.2 = 0 ∨ (r.1 < r.1 + r.2 ∧ r.1 < topStart)

theorem insertAndMergeIfNeeded_zero (start : UInt64) (m : List (UInt64 × UInt64)) :
    insertAndMergeIfNeeded start 0 m = m := if_pos rfl

theorem inRanges_cons {r : UInt64 × UInt64} {ranges : List (UInt64 × UInt64)} {x : UInt64} :
    InRanges (r :: ranges) x ↔ (r.1 ≤ x ∧ x < r.1 + r.2) ∨ InRanges ranges x := by
  simp [InRanges]

/-- Ranges that do not overflow are covered, and nothing else is. -/
theorem insertAll_covers :
    ∀ {ranges m : List (UInt64 × UInt64)}, Separated m →
      (∀ r ∈ ranges, r.2 = 0 ∨ r.1 < r.1 + r.2) →
      Separated (insertAll ranges m)
        ∧ ∀ x, Covers (insertAll ranges m) x ↔ InRanges ranges x ∨ Covers m x
  | [], m, hm, _ => ⟨hm, fun x => by simp [insertAll, InRanges]⟩
  | r :: ranges, m, hm, hr => by
    have hrest : ∀ r' ∈ ranges, r'.2 = 0 ∨ r'.1 < r'.1 + r'.2 :=
      fun r' hr' => hr r' (List.mem_cons_of_mem _ hr')
    rcases hr r List.mem_cons_self with hz | hlt
    · have hskip : insertAll (r :: ranges) m = insertAll ranges m := by
        rw [insertAll, List.foldl_cons, hz, insertAndMergeIfNeeded_zero]
        rfl
      obtain ⟨hs, hc⟩ := insertAll_covers hm hrest
      rw [hskip]
      refine ⟨hs, fun x => ?_⟩
      have hempty : ¬ (r.1 ≤ x ∧ x < r.1 + r.2) := by
        rw [hz, add_zero]
        exact fun h => absurd h.1 (not_le.2 h.2)
      rw [hc x, inRanges_cons, or_iff_right hempty]
    · obtain ⟨hs, hc⟩ := insertAndMergeIfNeeded_of_lt hm hlt
      obtain ⟨hs', hc'⟩ := insertAll_covers hs hrest
      refine ⟨hs', fun x => ?_⟩
      show Covers (insertAll ranges (insertAndMergeIfNeeded r.1 r.2 m)) x ↔ _
      rw [hc' x, hc x, inRanges_cons, ← or_assoc, or_comm (a := InRanges ranges x)]

theorem insertAll_withTop :
    ∀ {ranges m c : List (UInt64 × UInt64)}, WithTop m c → (∀ r ∈ ranges, Guarded r) →
      WithTop (insertAll ranges m) (insertAll (ranges.filter (· ≠ (topStart, 513))) c)
  | [], m, c, h, _ => h
  | r :: ranges, m, c, h, hr => by
    have hrest : ∀ r' ∈ ranges, Guarded r' := fun r' hr' => hr r' (List.mem_cons_of_mem _ hr')
    have hcons : insertAll (r :: ranges) m = insertAll ranges (insertAndMergeIfNeeded r.1 r.2 m) :=
      rfl
    rw [hcons]
    by_cases htop : r = (topStart, 513)
    · rw [List.filter_cons_of_neg (by simpa using htop), htop]
      exact insertAll_withTop (insertAndMergeIfNeeded_top h) hrest
    rw [List.filter_cons_of_pos (by simpa using htop)]
    refine insertAll_withTop ?_ hrest
    rcases (hr r List.mem_cons_self).resolve_left htop with hz | ⟨hlt, hs⟩
    · simpa only [hz, insertAndMergeIfNeeded_zero] using h
    · exact insertAndMergeIfNeeded_withTop h hlt hs

theorem withTop_nil : WithTop [] [] where
  eq := ⟨[], .inl rfl, rfl⟩
  separated := .nil
  below := by simp

/-- A point of one of the ranges, in exact arithmetic. -/
def InUnion (ranges : List (UInt64 × UInt64)) (x : UInt64) : Prop :=
  ∃ r ∈ ranges, r.1.toNat ≤ x.toNat ∧ x.toNat < r.1.toNat + r.2.toNat

/-- The list of the maximal runs of the points: no interval is empty, between two of them there is
an address that is not covered, and the points covered are these. -/
structure Canonical (points : UInt64 → Prop) (m : List (UInt64 × UInt64)) : Prop where
  nonempty : ∀ i ∈ m, i.1 < i.2
  apart : m.Pairwise fun i j => ∃ x, i.2 ≤ x ∧ x < j.1 ∧ ¬ points x
  covers : ∀ x, Covers m x ↔ points x
  runs : ∀ s e, (s, e) ∈ m ↔ IsRun points s e

section Canonical

variable {ranges ranges' : List (UInt64 × UInt64)}

/-- Ranges that end below `2 ^ 64` do not overflow. -/
theorem plain_of_fits (h : ∀ r ∈ ranges, r.1.toNat + r.2.toNat < 2 ^ 64) :
    ∀ r ∈ ranges, (r.1 + r.2).toNat = r.1.toNat + r.2.toNat := by
  intro r hr
  rw [UInt64.toNat_add]
  exact Nat.mod_eq_of_lt (h r hr)

theorem inRanges_iff_inUnion (h : ∀ r ∈ ranges, r.1.toNat + r.2.toNat < 2 ^ 64) (x : UInt64) :
    InRanges ranges x ↔ InUnion ranges x := by
  refine exists_congr fun r => and_congr_right fun hr => ?_
  rw [UInt64.le_iff_toNat_le, UInt64.lt_iff_toNat_lt, plain_of_fits h r hr]

/-- The set covers what was inserted. -/
theorem insertAll_inUnion (h : ∀ r ∈ ranges, r.1.toNat + r.2.toNat < 2 ^ 64) :
    Separated (insertAll ranges []) ∧ ∀ x, Covers (insertAll ranges []) x ↔ InUnion ranges x := by
  have hplain : ∀ r ∈ ranges, r.2 = 0 ∨ r.1 < r.1 + r.2 := by
    intro r hr
    have hsum := plain_of_fits h r hr
    by_cases hz : r.2 = 0
    · exact .inl hz
    · have hpos : r.2.toNat ≠ 0 := fun hz' => hz (UInt64.toNat_inj.1 hz')
      refine .inr ?_
      rw [UInt64.lt_iff_toNat_lt, hsum]
      omega
  obtain ⟨hs, hc⟩ := insertAll_covers Separated.nil hplain
  refine ⟨hs, fun x => ?_⟩
  rw [hc x, inRanges_iff_inUnion h, or_iff_left (covers_nil x)]

/-- Ranges with the same points make the same set. -/
theorem insertAll_congr (h : ∀ r ∈ ranges, r.1.toNat + r.2.toNat < 2 ^ 64)
    (h' : ∀ r ∈ ranges', r.1.toNat + r.2.toNat < 2 ^ 64)
    (hsame : ∀ x, InUnion ranges' x ↔ InUnion ranges x) :
    insertAll ranges' [] = insertAll ranges [] := by
  obtain ⟨hs, hc⟩ := insertAll_inUnion h
  obtain ⟨hs', hc'⟩ := insertAll_inUnion h'
  refine hs'.ext hs fun x => ?_
  rw [hc' x, hsame x, hc x]

/-- Inserting ranges makes the list of the maximal runs of their union, whatever order they come in
and however often each of them does. -/
theorem insertAll_canonical (ranges : List (UInt64 × UInt64))
    (h : ∀ r ∈ ranges, r.1.toNat + r.2.toNat < 2 ^ 64) :
    Canonical (InUnion ranges) (insertAll ranges [])
      ∧ ∀ ranges' : List (UInt64 × UInt64), (∀ r, r ∈ ranges' ↔ r ∈ ranges) →
        insertAll ranges' [] = insertAll ranges [] := by
  obtain ⟨hs, hc⟩ := insertAll_inUnion h
  refine ⟨⟨hs.lt, ?_, hc, fun s e => ?_⟩, fun ranges' hsame => ?_⟩
  · refine hs.gap.imp_of_mem fun {i j} hi _ hij => ?_
    exact ⟨i.2, le_rfl, hij, fun hx => hs.not_covers_end hi ((hc i.2).2 hx)⟩
  · have hpoints : Covers (insertAll ranges []) = InUnion ranges := funext fun x => propext (hc x)
    rw [← hpoints]
    exact hs.mem_iff_isRun
  · refine insertAll_congr h (fun r hr => h r ((hsame r).1 hr)) fun x => ?_
    exact exists_congr fun r => and_congr_left fun _ => hsame r

/-- Two ranges that touch, one of them twice, and one apart. -/
theorem insertAll_canonical_sample :
    Canonical (InUnion [(5, 3), (1, 4), (10, 2), (5, 3)])
        (insertAll [(5, 3), (1, 4), (10, 2), (5, 3)] [])
      ∧ insertAll [(10, 2), (1, 4), (5, 3)] []
        = insertAll [(5, 3), (1, 4), (10, 2), (5, 3)] [] := by
  obtain ⟨hcan, hsame⟩ := insertAll_canonical [(5, 3), (1, 4), (10, 2), (5, 3)] (by simp)
  exact ⟨hcan, hsame [(10, 2), (1, 4), (5, 3)] fun r => by simp; tauto⟩

end Canonical

end DisjointIntervalSet

end MacMiniDump
