import Mathlib.Data.List.Pairwise
import Mathlib.Data.Nat.ModEq
import Mathlib.Tactic

/-!
# Ranges that wrap around

Ranges of 64-bit positions, each given by its start and its size. Ranges laid out one after another
do not meet as long as they do not come around to where the first one starts, even when there is one
gap between them (`laidApart_iff`).
-/

namespace MacMiniDump

def Inside (x : UInt64 × UInt64) (a : UInt64) : Prop := a - x.1 < x.2

instance (x : UInt64 × UInt64) (a : UInt64) : Decidable (Inside x a) :=
  inferInstanceAs (Decidable (_ < _))

/-- A part of a range. -/
theorem Inside.of_part {p i m size a : UInt64} (h : Inside (p + i, m) a)
    (hle : i.toNat + m.toNat ≤ size.toNat) : Inside (p, size) a := by
  unfold Inside at h ⊢
  simp only [UInt64.lt_iff_toNat_lt] at h ⊢
  have hsplit : a - p = i + (a - (p + i)) := by grind
  have hlt := size.toNat_lt
  rw [hsplit, UInt64.toNat_add, Nat.mod_eq_of_lt (by omega)]
  omega

/-- The range from one position up to another, around the end of all positions if need be. -/
def upTo (start stop : UInt64) : UInt64 × UInt64 := (start, stop - start)

section UpTo

variable {start stop a : UInt64}

theorem inside_upTo_iff : Inside (upTo start stop) a
    ↔ if start ≤ stop then start ≤ a ∧ a < stop else start ≤ a ∨ a < stop := by
  have hstart := start.toNat_lt
  have hstop := stop.toNat_lt
  have ha := a.toNat_lt
  unfold Inside upTo
  split_ifs with h
  all_goals
    simp only [UInt64.lt_iff_toNat_lt, UInt64.le_iff_toNat_le, UInt64.toNat_sub] at h ⊢
    omega

theorem inside_upTo_of_le (h : start ≤ stop) :
    Inside (upTo start stop) a ↔ start ≤ a ∧ a < stop := by
  rw [inside_upTo_iff, if_pos h]

theorem inside_upTo_of_lt (h : stop < start) :
    Inside (upTo start stop) a ↔ start ≤ a ∨ a < stop := by
  rw [inside_upTo_iff, if_neg (UInt64.not_le.2 h)]

theorem not_inside_upTo_self : ¬ Inside (upTo start start) a := by
  rw [inside_upTo_of_le (UInt64.le_refl start)]
  exact fun h => UInt64.lt_irrefl a (UInt64.lt_of_lt_of_le h.2 h.1)

theorem inside_upTo_start (h : start ≠ stop) : Inside (upTo start stop) start := by
  rcases UInt64.le_total start stop with hle | hle
  · exact (inside_upTo_of_le hle).2 ⟨UInt64.le_refl start, UInt64.lt_of_le_of_ne hle h⟩
  · exact (inside_upTo_of_lt (UInt64.lt_of_le_of_ne hle h.symm)).2 (.inl (UInt64.le_refl start))

end UpTo

/-- No position is in both ranges. -/
def Apart (x y : UInt64 × UInt64) : Prop := ∀ a, ¬ (a - x.1 < x.2 ∧ a - y.1 < y.2)

theorem Apart.symm {x y : UInt64 × UInt64} (h : Apart x y) : Apart y x :=
  fun a ha => h a ha.symm

/-- Two ranges that start at one position are apart only if one of them is empty. -/
theorem not_apart_self {p s s' : UInt64} (h : s ≠ 0) (h' : s' ≠ 0) : ¬ Apart (p, s) (p, s') := by
  intro hap
  refine hap p ⟨?_, ?_⟩
  · simpa [UInt64.pos_iff_ne_zero] using h
  · simpa [UInt64.pos_iff_ne_zero] using h'

theorem sub_ofNat_lt_iff {n : ℕ} {s a : UInt64} :
    a - UInt64.ofNat n < s ↔ ∃ j < s.toNat, a = UInt64.ofNat (n + j) := by
  constructor
  · intro h
    refine ⟨(a - UInt64.ofNat n).toNat, UInt64.lt_iff_toNat_lt.1 h, ?_⟩
    rw [UInt64.ofNat_add, UInt64.ofNat_toNat, UInt64.add_comm, UInt64.sub_add_cancel]
  · rintro ⟨j, hj, rfl⟩
    have hlt : j < 2 ^ 64 := hj.trans s.toNat_lt
    rw [UInt64.ofNat_add, UInt64.add_comm, UInt64.add_sub_cancel, UInt64.lt_iff_toNat_lt,
      UInt64.toNat_ofNat_of_lt' hlt]
    exact hj

/-- Ranges of natural numbers are apart when the second ends before the first comes around. -/
theorem apart_of_le {m n : ℕ} {s t : UInt64} (h : m + s.toNat ≤ n)
    (hend : n + t.toNat ≤ m + 2 ^ 64) : Apart (UInt64.ofNat m, s) (UInt64.ofNat n, t) := by
  rintro a ⟨hx, hy⟩
  obtain ⟨i, hi, rfl⟩ := sub_ofNat_lt_iff.1 hx
  obtain ⟨j, hj, heq⟩ := sub_ofNat_lt_iff.1 hy
  have hi : i < s.toNat := hi
  have hj : j < t.toNat := hj
  have hmod := congrArg UInt64.toNat heq
  rw [UInt64.toNat_ofNat', UInt64.toNat_ofNat'] at hmod
  omega

/-- Ranges that hold numbers of one residue are not. -/
theorem not_apart_of_mem {m n p q : ℕ} {s t : UInt64} (hp : m ≤ p ∧ p < m + s.toNat)
    (hq : n ≤ q ∧ q < n + t.toNat) (hpq : UInt64.ofNat p = UInt64.ofNat q) :
    ¬ Apart (UInt64.ofNat m, s) (UInt64.ofNat n, t) := by
  intro h
  refine h (UInt64.ofNat p) ⟨sub_ofNat_lt_iff.2 ⟨p - m, show p - m < s.toNat by omega, ?_⟩,
    sub_ofNat_lt_iff.2 ⟨q - n, show q - n < t.toNat by omega, ?_⟩⟩
  · rw [Nat.add_sub_cancel' hp.1]
  · rw [hpq, Nat.add_sub_cancel' hq.1]

/-- Ranges of the given sizes, one after another. -/
def layout : ℕ → List UInt64 → List (ℕ × UInt64)
  | _, [] => []
  | start, s :: sizes => (start, s) :: layout (start + s.toNat) sizes

def total (sizes : List UInt64) : ℕ := (sizes.map UInt64.toNat).sum

@[simp] theorem total_nil : total [] = 0 := rfl

@[simp] theorem total_cons (s : UInt64) (sizes : List UInt64) :
    total (s :: sizes) = s.toNat + total sizes := rfl

theorem total_pos {sizes : List UInt64} (hne : sizes ≠ []) (h : ∀ s ∈ sizes, s ≠ 0) :
    0 < total sizes := by
  cases sizes with
  | nil => exact absurd rfl hne
  | cons s sizes =>
    have hs : s.toNat ≠ 0 := by
      rw [ne_eq, ← UInt64.toNat_zero, UInt64.toNat_inj]
      exact h s List.mem_cons_self
    rw [total_cons]
    omega

theorem layout_bounds :
    ∀ {sizes : List UInt64} {start : ℕ} {x : ℕ × UInt64}, x ∈ layout start sizes →
      start ≤ x.1 ∧ x.1 + x.2.toNat ≤ start + total sizes
  | [], _, _, hx => by simp [layout] at hx
  | s :: sizes, start, x, hx => by
    rw [layout, List.mem_cons] at hx
    rw [total_cons]
    rcases hx with rfl | hx
    · exact ⟨le_rfl, by simp only; omega⟩
    · obtain ⟨h1, h2⟩ := layout_bounds hx
      exact ⟨by omega, by omega⟩

theorem layout_pairwise :
    ∀ (sizes : List UInt64) (start : ℕ),
      (layout start sizes).Pairwise fun x y => x.1 + x.2.toNat ≤ y.1
  | [], _ => .nil
  | _ :: sizes, _ =>
    List.pairwise_cons.2 ⟨fun _ hy => (layout_bounds hy).1, layout_pairwise sizes _⟩

/-- The ranges leave nothing out. -/
theorem exists_mem_layout :
    ∀ {sizes : List UInt64} {start p : ℕ}, start ≤ p → p < start + total sizes →
      ∃ x ∈ layout start sizes, x.1 ≤ p ∧ p < x.1 + x.2.toNat
  | [], _, _, h1, h2 => by
    rw [total_nil] at h2
    omega
  | s :: sizes, start, p, h1, h2 => by
    rw [total_cons] at h2
    rcases Nat.lt_or_ge p (start + s.toNat) with hlt | hge
    · exact ⟨(start, s), List.mem_cons_self, h1, hlt⟩
    · have hend : p < start + s.toNat + total sizes := by omega
      obtain ⟨x, hx, hp⟩ := exists_mem_layout hge hend
      exact ⟨x, List.mem_cons_of_mem _ hx, hp⟩

/-- The ranges apart, as positions. -/
def LaidApart (l : List (ℕ × UInt64)) : Prop :=
  l.Pairwise fun x y => Apart (UInt64.ofNat x.1, x.2) (UInt64.ofNat y.1, y.2)

theorem laidApart_of_le {l : List (ℕ × UInt64)} (start : ℕ)
    (hp : l.Pairwise fun x y => x.1 + x.2.toNat ≤ y.1)
    (hb : ∀ x ∈ l, start ≤ x.1 ∧ x.1 + x.2.toNat ≤ start + 2 ^ 64) : LaidApart l := by
  refine List.Pairwise.imp_of_mem (fun {x y} hx hy hxy => ?_) hp
  have h1 := hb x hx
  have h2 := hb y hy
  exact apart_of_le hxy (by omega)

theorem ofNat_add_two_pow (n : ℕ) : UInt64.ofNat (n + 2 ^ 64) = UInt64.ofNat n := by
  rw [← UInt64.toNat_inj, UInt64.toNat_ofNat', UInt64.toNat_ofNat', Nat.add_mod_right]

section Two

variable {sizes sizes' : List UInt64} {start start' : ℕ}

/-- Two layouts, the second behind the first, are apart when they do not come around. -/
theorem laidApart_append (hle : start + total sizes ≤ start') (hsize : total sizes ≤ 2 ^ 64)
    (hend : sizes' ≠ [] → start' + total sizes' ≤ start + 2 ^ 64) :
    LaidApart (layout start sizes ++ layout start' sizes') := by
  have hordered : (layout start sizes ++ layout start' sizes').Pairwise
      fun x y => x.1 + x.2.toNat ≤ y.1 := by
    refine List.pairwise_append.2 ⟨layout_pairwise _ _, layout_pairwise _ _, fun x hx y hy => ?_⟩
    have hbx := layout_bounds hx
    have hby := layout_bounds hy
    omega
  refine laidApart_of_le start hordered fun x hx => ?_
  rcases List.mem_append.1 hx with hx | hx
  · have hb := layout_bounds hx
    omega
  · have hb := layout_bounds hx
    have hend := hend (by rintro rfl; simp [layout] at hx)
    omega

/-- And only then. -/
theorem laidApart_iff (hne : sizes ≠ []) (hs : ∀ s ∈ sizes, s ≠ 0) (hs' : ∀ s ∈ sizes', s ≠ 0)
    (hle : start + total sizes ≤ start') (hgap : start' < start + total sizes + 2 ^ 64) :
    LaidApart (layout start sizes ++ layout start' sizes')
      ↔ total sizes ≤ 2 ^ 64 ∧ (sizes' ≠ [] → start' + total sizes' ≤ start + 2 ^ 64) := by
  have hpos := total_pos hne hs
  refine ⟨fun h => ?_, fun h => laidApart_append hle h.1 h.2⟩
  obtain ⟨hfirst, -, hcross⟩ := List.pairwise_append.1 h
  refine ⟨?_, fun hne' => ?_⟩
  · by_contra hlt
    rw [not_le] at hlt
    obtain ⟨x, hx, hpx⟩ := exists_mem_layout le_rfl (show start < start + total sizes by omega)
    obtain ⟨y, hy, hpy⟩ := exists_mem_layout (Nat.le_add_right start (2 ^ 64))
      (show start + 2 ^ 64 < start + total sizes by omega)
    have hxy : x ≠ y := by
      rintro rfl
      have := x.2.toNat_lt
      have := (layout_bounds hx).1
      omega
    have hsymm : Std.Symm fun x y : ℕ × UInt64 =>
        Apart (UInt64.ofNat x.1, x.2) (UInt64.ofNat y.1, y.2) := ⟨fun _ _ h => h.symm⟩
    have hap := List.Pairwise.forall hfirst hx hy hxy
    exact not_apart_of_mem hpx hpy (ofNat_add_two_pow start).symm hap
  · by_contra hlt
    rw [not_le] at hlt
    rcases Nat.lt_or_ge (start + 2 ^ 64) start' with hgt | hge
    -- the gap goes past the start: the second layout starts in the first
    · have hpos' := total_pos hne' hs'
      obtain ⟨y, hy, hpy⟩ := exists_mem_layout le_rfl
        (show start' < start' + total sizes' by omega)
      obtain ⟨x, hx, hpx⟩ := exists_mem_layout (show start ≤ start' - 2 ^ 64 by omega)
        (show start' - 2 ^ 64 < start + total sizes by omega)
      refine not_apart_of_mem hpx hpy ?_ (hcross x hx y hy)
      rw [← ofNat_add_two_pow, Nat.sub_add_cancel (by omega)]
    · obtain ⟨x, hx, hpx⟩ := exists_mem_layout le_rfl (show start < start + total sizes by omega)
      obtain ⟨y, hy, hpy⟩ := exists_mem_layout hge hlt
      exact not_apart_of_mem hpx hpy (ofNat_add_two_pow start).symm (hcross x hx y hy)

end Two

end MacMiniDump
