import Mathlib.Data.List.Basic

/-!
# Pieces of a buffer

What is written into a buffer, each piece with its position. Pieces that are laid out one behind the
other are apart, and in a buffer that is as large as all of them together (`keptApart_laidOut`).
-/

namespace MacMiniDump

variable {α : Type*}

/-- The pieces one behind the other, from the position on. -/
def laidOut : ℕ → List (List α) → List (ℕ × List α)
  | _, [] => []
  | pos, d :: ds => (pos, d) :: laidOut (pos + d.length) ds

/-- Every piece is in the buffer, and none is where another is. -/
structure KeptApart (total : ℕ) (pieces : List (ℕ × List α)) : Prop where
  inside : ∀ p ∈ pieces, p.1 + p.2.length ≤ total
  apart : pieces.Pairwise fun p q => p.1 + p.2.length ≤ q.1 ∨ q.1 + q.2.length ≤ p.1

@[simp] theorem length_laidOut : ∀ (pos : ℕ) (ds : List (List α)), (laidOut pos ds).length
    = ds.length
  | _, [] => rfl
  | pos, d :: ds => congrArg (· + 1) (length_laidOut (pos + d.length) ds)

theorem laidOut_append :
    ∀ (pos : ℕ) (ds es : List (List α)),
      laidOut pos (ds ++ es) = laidOut pos ds ++ laidOut (pos + ds.flatten.length) es
  | _, [], es => by simp [laidOut]
  | pos, d :: ds, es => by
    rw [List.cons_append, laidOut, laidOut, laidOut_append (pos + d.length) ds es,
      List.flatten_cons, List.length_append, Nat.add_assoc, List.cons_append]

theorem bounds_of_mem_laidOut :
    ∀ {pos : ℕ} {ds : List (List α)} {p : ℕ × List α}, p ∈ laidOut pos ds →
      pos ≤ p.1 ∧ p.1 + p.2.length ≤ pos + ds.flatten.length
  | pos, d :: ds, p, hp => by
    rw [List.flatten_cons, List.length_append]
    rcases List.mem_cons.1 hp with rfl | hp
    · exact ⟨Nat.le_refl _, by simp only; omega⟩
    · obtain ⟨hlo, hhi⟩ := bounds_of_mem_laidOut hp
      exact ⟨by omega, by omega⟩

/-- The last of the pieces ends where all of them do. -/
theorem exists_end_laidOut :
    ∀ (pos : ℕ) {ds : List (List α)}, ds ≠ [] →
      ∃ p ∈ laidOut pos ds, p.1 + p.2.length = pos + ds.flatten.length
  | pos, [d], _ => ⟨_, List.mem_cons_self, by simp⟩
  | pos, d :: e :: ds, _ => by
    obtain ⟨p, hp, hend⟩ := exists_end_laidOut (pos + d.length) (List.cons_ne_nil e ds)
    refine ⟨p, List.mem_cons_of_mem _ hp, ?_⟩
    rw [hend, List.flatten_cons (l := d), List.length_append, Nat.add_assoc]

theorem pairwise_laidOut :
    ∀ (pos : ℕ) (ds : List (List α)), (laidOut pos ds).Pairwise fun p q => p.1 + p.2.length ≤ q.1
  | _, [] => List.Pairwise.nil
  | pos, d :: ds =>
    List.pairwise_cons.2
      ⟨fun _ hq => (bounds_of_mem_laidOut hq).1, pairwise_laidOut (pos + d.length) ds⟩

theorem keptApart_laidOut (ds : List (List α)) : KeptApart ds.flatten.length (laidOut 0 ds) := by
  refine ⟨fun p hp => ?_, (pairwise_laidOut 0 ds).imp Or.inl⟩
  have hend := (bounds_of_mem_laidOut hp).2
  rwa [Nat.zero_add] at hend

end MacMiniDump
