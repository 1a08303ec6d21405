import Mathlib.Order.Lattice
import Mathlib.Order.MinMax
import Mathlib.Data.List.Pairwise

/-!
# Lists of half-open intervals

A list of non-empty intervals in ascending order, with a gap after each, is determined by the
points it covers: its members are the maximal runs of covered points (`Separated.mem_iff_isRun`),
so two such lists with the same points are equal (`Separated.ext`).
-/

namespace MacMiniDump

variable {κ : Type*} [LinearOrder κ]

/-- Some interval of the list holds `x`. -/
def Covers (l : List (κ × κ)) (x : κ) : Prop := ∃ i ∈ l, i.1 ≤ x ∧ x < i.2

/-- The intervals are non-empty and ascending, and no two of them overlap or touch. -/
structure Separated (l : List (κ × κ)) : Prop where
  lt : ∀ i ∈ l, i.1 < i.2
  gap : l.Pairwise fun i j => i.2 < j.1

/-- `[s, e)` is a maximal run of `S`. -/
structure IsRun (S : κ → Prop) (s e : κ) : Prop where
  lt : s < e
  inside : ∀ x, s ≤ x → x < e → S x
  right : ¬ S e
  left : ∀ y < s, ∃ x, y ≤ x ∧ x < s ∧ ¬ S x

@[simp] theorem covers_nil (x : κ) : ¬ Covers ([] : List (κ × κ)) x := by simp [Covers]

@[simp] theorem covers_cons {i : κ × κ} {l : List (κ × κ)} {x : κ} :
    Covers (i :: l) x ↔ (i.1 ≤ x ∧ x < i.2) ∨ Covers l x := by simp [Covers]

@[simp] theorem covers_append {l l' : List (κ × κ)} {x : κ} :
    Covers (l ++ l') x ↔ Covers l x ∨ Covers l' x := by
  simp only [Covers, List.mem_append]
  constructor
  · rintro ⟨i, hi | hi, hx⟩
    · exact .inl ⟨i, hi, hx⟩
    · exact .inr ⟨i, hi, hx⟩
  · rintro (⟨i, hi, hx⟩ | ⟨i, hi, hx⟩)
    · exact ⟨i, .inl hi, hx⟩
    · exact ⟨i, .inr hi, hx⟩

/-- Two intervals that overlap or touch make up the interval between their outer ends. -/
theorem mem_merge_iff {s e a b x : κ} (hae : a ≤ e) (hsb : s ≤ b) :
    (min s a ≤ x ∧ x < max e b) ↔ (s ≤ x ∧ x < e) ∨ (a ≤ x ∧ x < b) := by
  simp only [min_le_iff, lt_max_iff]
  constructor
  · rintro ⟨hl, hr⟩
    by_cases hxe : x < e
    · by_cases hsx : s ≤ x
      · exact .inl ⟨hsx, hxe⟩
      · push Not at hsx
        exact .inr ⟨hl.resolve_left (not_le.2 hsx), hsx.trans_le hsb⟩
    · push Not at hxe
      exact .inr ⟨hae.trans hxe, hr.resolve_left (not_lt.2 hxe)⟩
  · rintro (⟨h1, h2⟩ | ⟨h1, h2⟩)
    · exact ⟨.inl h1, .inl h2⟩
    · exact ⟨.inr h1, .inr h2⟩

namespace Separated

theorem nil : Separated ([] : List (κ × κ)) := ⟨by simp, .nil⟩

theorem tail {i : κ × κ} {l : List (κ × κ)} (h : Separated (i :: l)) : Separated l :=
  ⟨fun j hj => h.lt j (List.mem_cons_of_mem _ hj), (List.pairwise_cons.1 h.gap).2⟩

theorem head_lt {i : κ × κ} {l : List (κ × κ)} (h : Separated (i :: l)) :
    i.1 < i.2 ∧ ∀ j ∈ l, i.2 < j.1 :=
  ⟨h.lt i List.mem_cons_self, (List.pairwise_cons.1 h.gap).1⟩

theorem sublist {l l' : List (κ × κ)} (h : Separated l) (hs : l'.Sublist l) : Separated l' :=
  ⟨fun i hi => h.lt i (hs.subset hi), h.gap.sublist hs⟩

/-- Two members are equal, or one ends before the other starts. -/
theorem trichotomy {l : List (κ × κ)} (h : Separated l) {i j : κ × κ} (hi : i ∈ l) (hj : j ∈ l) :
    i = j ∨ i.2 < j.1 ∨ j.2 < i.1 := by
  induction l with
  | nil => simp at hi
  | cons k l ih =>
    obtain ⟨-, hk⟩ := h.head_lt
    rcases List.mem_cons.1 hi with rfl | hi' <;> rcases List.mem_cons.1 hj with rfl | hj'
    · exact .inl rfl
    · exact .inr (.inl (hk j hj'))
    · exact .inr (.inr (hk i hi'))
    · exact ih h.tail hi' hj'

/-- The end of a member is in no member. -/
theorem not_covers_end {l : List (κ × κ)} (h : Separated l) {i : κ × κ} (hi : i ∈ l) :
    ¬ Covers l i.2 := by
  rintro ⟨j, hj, h1, h2⟩
  rcases h.trichotomy hi hj with rfl | h' | h'
  · exact lt_irrefl _ h2
  · exact absurd h1 (not_le.2 h')
  · exact lt_asymm h2 (h'.trans (h.lt i hi))

/-- A stretch of covered points is in one member. -/
theorem exists_mem_of_covers {l : List (κ × κ)} (h : Separated l) {a b : κ} (hab : a < b)
    (hc : ∀ x, a ≤ x → x < b → Covers l x) : ∃ i ∈ l, i.1 ≤ a ∧ b ≤ i.2 := by
  obtain ⟨i, hi, h1, h2⟩ := hc a le_rfl hab
  refine ⟨i, hi, h1, ?_⟩
  by_contra hlt
  exact h.not_covers_end hi (hc i.2 h2.le (not_le.1 hlt))

/-- The members are the maximal runs of the covered points. -/
theorem mem_iff_isRun {l : List (κ × κ)} (h : Separated l) {s e : κ} :
    (s, e) ∈ l ↔ IsRun (Covers l) s e := by
  constructor
  · intro hm
    refine ⟨h.lt _ hm, fun x hs he => ⟨_, hm, hs, he⟩, h.not_covers_end hm, fun y hy => ?_⟩
    by_cases hc : Covers l y
    · obtain ⟨j, hj, h1, h2⟩ := hc
      have hjs : j.2 < s := by
        rcases h.trichotomy hj hm with rfl | h' | h'
        · exact absurd h1 (not_le.2 hy)
        · exact h'
        · have hself : s < s :=
            calc s < e := h.lt _ hm
              _ < j.1 := h'
              _ ≤ y := h1
              _ < s := hy
          exact absurd hself (lt_irrefl _)
      exact ⟨j.2, h2.le, hjs, h.not_covers_end hj⟩
    · exact ⟨y, le_rfl, hy, hc⟩
  · intro hr
    obtain ⟨j, hj, h1, h2⟩ := hr.inside s le_rfl hr.lt
    have hs : j.1 = s := by
      by_contra hne
      obtain ⟨x, hx1, hx2, hx3⟩ := hr.left j.1 (lt_of_le_of_ne h1 hne)
      exact hx3 ⟨j, hj, hx1, hx2.trans h2⟩
    have he : j.2 = e := by
      rcases lt_trichotomy j.2 e with h' | h' | h'
      · exact absurd (hr.inside j.2 h2.le h') (h.not_covers_end hj)
      · exact h'
      · exact absurd ⟨j, hj, hs.le.trans hr.lt.le, h'⟩ hr.right
    rwa [← hs, ← he]

/-- Separated lists with the same members are equal. -/
theorem eq_of_mem_iff {l l' : List (κ × κ)} (h : Separated l) (h' : Separated l')
    (hm : ∀ i, i ∈ l ↔ i ∈ l') : l = l' := by
  have hlt : ∀ {l : List (κ × κ)}, Separated l → l.Pairwise fun i j => i.1 < j.1 := by
    intro l h
    refine h.gap.imp_of_mem ?_
    intro i j hi _ hij
    exact (h.lt i hi).trans hij
  have hn : ∀ {l : List (κ × κ)}, Separated l → l.Nodup := by
    intro l h
    refine (hlt h).imp ?_
    rintro i _ hij rfl
    exact lt_irrefl _ hij
  refine List.Perm.eq_of_pairwise ?_ (hlt h) (hlt h')
    ((List.perm_ext_iff_of_nodup (hn h) (hn h')).2 hm)
  intro i j _ _ hij hji
  exact absurd hij (lt_asymm hji)

/-- A separated list is determined by the points it covers. -/
theorem ext {l l' : List (κ × κ)} (h : Separated l) (h' : Separated l')
    (hc : ∀ x, Covers l x ↔ Covers l' x) : l = l' := by
  refine h.eq_of_mem_iff h' fun i => ?_
  rw [show i = (i.1, i.2) from rfl, h.mem_iff_isRun, h'.mem_iff_isRun,
    show Covers l = Covers l' from funext fun x => propext (hc x)]

/-- An interval that meets no member, put in its place. -/
theorem insert {lo hi : List (κ × κ)} {s e : κ} (h : Separated (lo ++ hi)) (hse : s < e)
    (hlo : ∀ i ∈ lo, i.2 < s) (hhi : ∀ i ∈ hi, e < i.1) : Separated (lo ++ (s, e) :: hi) := by
  obtain ⟨h1, h2, h3⟩ := List.pairwise_append.1 h.gap
  refine ⟨fun i hi' => ?_, List.pairwise_append.2 ⟨h1, List.pairwise_cons.2 ⟨hhi, h2⟩, ?_⟩⟩
  · rcases List.mem_append.1 hi' with hm | hm
    · exact h.lt i (List.mem_append_left _ hm)
    · rcases List.mem_cons.1 hm with rfl | hm
      · exact hse
      · exact h.lt i (List.mem_append_right _ hm)
  · intro i hi' j hj
    rcases List.mem_cons.1 hj with rfl | hj
    · exact hlo i hi'
    · exact h3 i hi' j hj

end Separated

/-- The points from `s` to `x` are all in `S`, and there is no such point before `s`. -/
structure RunFrom (S : κ → Prop) (s x : κ) : Prop where
  le : s ≤ x
  inside : ∀ y, s ≤ y → y ≤ x → S y
  left : ∀ y < s, ∃ z, y ≤ z ∧ z < s ∧ ¬ S z

/-- Where a run starts does not depend on the points after it. -/
theorem RunFrom.congr {S T : κ → Prop} {s x : κ} (hST : ∀ y ≤ x, S y ↔ T y) :
    RunFrom S s x ↔ RunFrom T s x := by
  have imp : ∀ {S T : κ → Prop}, (∀ y ≤ x, S y ↔ T y) → RunFrom S s x → RunFrom T s x := by
    intro S T hST h
    refine ⟨h.le, fun y h1 h2 => (hST y h2).1 (h.inside y h1 h2), fun y hy => ?_⟩
    obtain ⟨z, h1, h2, h3⟩ := h.left y hy
    exact ⟨z, h1, h2, fun hz => h3 ((hST z (h2.le.trans h.le)).2 hz)⟩
  exact ⟨imp hST, imp fun y hy => (hST y hy).symm⟩

/-- The maximal run around a point is where the run up to it starts. -/
theorem IsRun.runFrom_iff {S : κ → Prop} {s e s' x : κ} (h : IsRun S s e) (hx : s ≤ x ∧ x < e) :
    RunFrom S s' x ↔ s' = s := by
  constructor
  · intro h'
    rcases lt_trichotomy s' s with hlt | heq | hlt
    · obtain ⟨z, h1, h2, h3⟩ := h.left s' hlt
      exact absurd (h'.inside z h1 (h2.le.trans hx.1)) h3
    · exact heq
    · obtain ⟨z, h1, h2, h3⟩ := h'.left s hlt
      have hze : z < e :=
        calc z < s' := h2
          _ ≤ x := h'.le
          _ < e := hx.2
      exact absurd (h.inside z h1 hze) h3
  · rintro rfl
    exact ⟨hx.1, fun y h1 h2 => h.inside y h1 (h2.trans_lt hx.2), h.left⟩

end MacMiniDump
