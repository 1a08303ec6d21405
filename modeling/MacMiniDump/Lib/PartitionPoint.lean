import Mathlib.Data.List.Basic
import Mathlib.Order.Defs.LinearOrder
import Mathlib.Tactic

/-!
# Partition points

A binary search for the end of the entries that pass a test, in a table whose entries are read one
by one and may not be there. In a sorted table it comes to the entry that a scan would find last
(`lastPassing_eq`), and it asks for no entry past the end of the table (`lastPassing_congr`).
-/

namespace MacMiniDump

variable {α : Type*}

section Search

/-- The loop, for so many rounds. -/
def search (probe : ℕ → Option Bool) : ℕ → ℕ → ℕ → Option ℕ
  | 0, low, _ => some low
  | rounds + 1, low, high =>
    if low < high then
      match probe (low + (high - low) / 2) with
      | none => none
      | some true => search probe rounds (low + (high - low) / 2 + 1) high
      | some false => search probe rounds low (low + (high - low) / 2)
    else some low

/-- Each round leaves less than before, so as many rounds as there are entries will do. -/
def partitionPoint (probe : ℕ → Option Bool) (count : ℕ) : Option ℕ := search probe count 0 count

/-- The entry before the partition point. -/
def lastPassing (entry : ℕ → Option α) (pass : α → Bool) (count : ℕ) : Option α :=
  match partitionPoint (fun i => (entry i).map pass) count with
  | none => none
  | some 0 => none
  | some (k + 1) => entry k

variable {probe probe' : ℕ → Option Bool} {n k : ℕ}

/-- Between `low` and `high` the search comes to the place where the answers turn. -/
theorem search_eq (hp : ∀ i < n, probe i = some (decide (i < k))) :
    ∀ rounds low high : ℕ, high - low ≤ rounds → low ≤ k → k ≤ high → high ≤ n →
      search probe rounds low high = some k
  | 0, low, high, hr, hl, hh, _ => by
    obtain rfl : low = k := by omega
    rfl
  | rounds + 1, low, high, hr, hl, hh, hn => by
    unfold search
    split_ifs with hlt
    · rw [hp _ (by omega)]
      by_cases hm : low + (high - low) / 2 < k
      · simp only [hm, decide_true]
        exact search_eq hp rounds _ high (by omega) (by omega) hh hn
      · simp only [hm, decide_false]
        exact search_eq hp rounds low _ (by omega) hl (by omega) (by omega)
    · obtain rfl : low = k := by omega
      rfl

theorem partitionPoint_eq (hp : ∀ i < n, probe i = some (decide (i < k))) (hk : k ≤ n) :
    partitionPoint probe n = some k :=
  search_eq hp n 0 n (by omega) (Nat.zero_le k) hk le_rfl

theorem search_congr (hp : ∀ i < n, probe i = probe' i) :
    ∀ rounds low high : ℕ, high ≤ n → search probe rounds low high = search probe' rounds low high
  | 0, _, _, _ => rfl
  | rounds + 1, low, high, hn => by
    unfold search
    split_ifs with hlt
    · rw [hp _ (by omega)]
      rcases probe' (low + (high - low) / 2) with _ | _ | _
      · rfl
      · exact search_congr hp rounds low _ (by omega)
      · exact search_congr hp rounds _ high hn
    · rfl

/-- What the search comes to is between its bounds. -/
theorem search_le :
    ∀ (rounds low high r : ℕ), low ≤ high → search probe rounds low high = some r → r ≤ high
  | 0, low, high, r, hl, h => by
    simp only [search, Option.some.injEq] at h
    omega
  | rounds + 1, low, high, r, hl, h => by
    unfold search at h
    split_ifs at h with hlt
    · split at h
      · simp at h
      · exact search_le rounds _ high r (by omega) h
      · exact (search_le rounds low _ r (by omega) h).trans (by omega)
    · simp only [Option.some.injEq] at h
      omega

theorem lastPassing_congr {entry entry' : ℕ → Option α} (h : ∀ i < n, entry i = entry' i)
    (pass : α → Bool) : lastPassing entry pass n = lastPassing entry' pass n := by
  have hpoint : partitionPoint (fun i => (entry i).map pass) n
      = partitionPoint (fun i => (entry' i).map pass) n :=
    search_congr (n := n) (fun i hi => by rw [h i hi]) n 0 n le_rfl
  unfold lastPassing
  rw [← hpoint]
  split
  · rfl
  · rfl
  · rename_i j hj
    exact h j (search_le n 0 n (j + 1) (Nat.zero_le n) hj)

/-- Where all the entries pass, it is the last one. -/
theorem lastPassing_of_forall {entry : ℕ → Option α} {pass : α → Bool}
    (h : ∀ i ≤ n, ∃ a, entry i = some a ∧ pass a = true) :
    lastPassing entry pass (n + 1) = entry n := by
  have hpoint : partitionPoint (fun i => (entry i).map pass) (n + 1) = some (n + 1) := by
    refine partitionPoint_eq (fun i hi => ?_) le_rfl
    obtain ⟨a, ha, hpass⟩ := h i (by omega)
    simp [ha, hpass, hi]
  rw [lastPassing, hpoint]

/-- What is found is an entry of the table. -/
theorem exists_of_lastPassing {entry : ℕ → Option α} {pass : α → Bool} {a : α}
    (h : lastPassing entry pass n = some a) : ∃ i < n, entry i = some a := by
  unfold lastPassing at h
  split at h
  · simp at h
  · simp at h
  · rename_i j hj
    have hle := search_le n 0 n (j + 1) (Nat.zero_le n) hj
    exact ⟨j, hle, h⟩

end Search

section Sorted

variable {κ : Type*} [LinearOrder κ] {key : α → κ} {x : κ}

/-- The last entry whose key is not past `x`, by a scan of all of them. -/
def lastNotPast (key : α → κ) (x : κ) (l : List α) : Option α :=
  (l.filter fun a => key a ≤ x).getLast?

theorem lastNotPast_le {l : List α} {a : α} (h : lastNotPast key x l = some a) : key a ≤ x := by
  have hmem := List.mem_of_getLast? h
  simpa using (List.mem_filter.1 hmem).2

/-- The number of entries that are not past `x`. -/
def countNotPast (key : α → κ) (x : κ) (l : List α) : ℕ := (l.filter fun a => key a ≤ x).length

theorem countNotPast_le (l : List α) : countNotPast key x l ≤ l.length := List.length_filter_le _ _

/-- In a sorted table, they are those in front. -/
theorem filter_eq_take :
    ∀ {l : List α}, (l.Pairwise fun a b => key a ≤ key b) →
      (l.filter fun a => key a ≤ x) = l.take (countNotPast key x l)
        ∧ ∀ i (hi : i < l.length), key l[i] ≤ x ↔ i < countNotPast key x l
  | [], _ => ⟨rfl, fun i hi => absurd hi (Nat.not_lt_zero i)⟩
  | a :: l, h => by
    obtain ⟨ha, hl⟩ := List.pairwise_cons.1 h
    obtain ⟨htake, hlt⟩ := filter_eq_take hl
    by_cases hax : key a ≤ x
    · have hcount : countNotPast key x (a :: l) = countNotPast key x l + 1 := by
        simp [countNotPast, hax]
      rw [hcount, List.filter_cons_of_pos (by simpa using hax), List.take_succ_cons, htake]
      refine ⟨by rw [← htake], fun i hi => ?_⟩
      rcases i with _ | i
      · simpa using hax
      · rw [List.getElem_cons_succ, hlt i (by simpa using hi)]
        omega
    · have hnone : ∀ b ∈ a :: l, ¬ key b ≤ x := by
        intro b hb hbx
        rcases List.mem_cons.1 hb with rfl | hb
        · exact hax hbx
        · exact hax ((ha b hb).trans hbx)
      have hnil : (a :: l).filter (fun a => key a ≤ x) = [] :=
        List.filter_eq_nil_iff.2 fun b hb => by simpa using hnone b hb
      have hcount : countNotPast key x (a :: l) = 0 := by rw [countNotPast, hnil, List.length_nil]
      rw [hnil, hcount]
      refine ⟨rfl, fun i hi => ?_⟩
      simp [hnone _ (List.getElem_mem hi)]

/-- In a sorted table, the search finds what the scan does. -/
theorem lastPassing_eq {entry : ℕ → Option α} {l : List α}
    (hs : l.Pairwise fun a b => key a ≤ key b)
    (he : ∀ i (hi : i < l.length), entry i = some l[i]) :
    lastPassing entry (fun a => decide (key a ≤ x)) l.length = lastNotPast key x l := by
  obtain ⟨htake, hlt⟩ := filter_eq_take (x := x) hs
  have hpoint : partitionPoint (fun i => (entry i).map fun a => decide (key a ≤ x)) l.length
      = some (countNotPast key x l) := by
    refine partitionPoint_eq (fun i hi => ?_) (countNotPast_le l)
    rw [he i hi, Option.map_some]
    simp only [hlt i hi]
  unfold lastPassing
  rw [hpoint, lastNotPast, htake]
  rcases hc : countNotPast key x l with _ | k
  · rfl
  · have hk : k < l.length := by
      have hle : countNotPast key x l ≤ l.length := countNotPast_le l
      omega
    have hlen : (l.take (k + 1)).length - 1 = k := by
      rw [List.length_take]
      omega
    show entry k = (l.take (k + 1)).getLast?
    rw [he k hk, List.getLast?_eq_getElem?, hlen, List.getElem?_take_of_lt (by omega),
      List.getElem?_eq_getElem hk]

end Sorted

end MacMiniDump
