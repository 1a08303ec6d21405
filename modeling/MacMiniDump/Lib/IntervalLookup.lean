import Mathlib.Data.List.TakeWhile
import MacMiniDump.Lib.OrderedMap

/-!
# Looking up intervals by their starts

A map of disjoint intervals, keyed by their starts, and a point. The entry to look at is the last
one that starts at or before the point (`floor_of_candidate`), so that nothing is missed. With the
ends taken to be inside, what is found is what a linear scan finds, unless the point is the end of
an interval and no other one starts there (`lookup_eq_scan_iff`).
-/

namespace MacMiniDump

variable {κ β : Type*} [LinearOrder κ]

/-- The last entry that starts at or before the point. -/
structure Floor (l : List (κ × β)) (k : κ) (i : κ × β) : Prop where
  mem : i ∈ l
  le : i.1 ≤ k
  last : ∀ j ∈ l, j.1 ≤ k → j.1 ≤ i.1

/-- The last entry before the point is the floor, when the entries after it start past the point. -/
theorem floor_of_getLast? {l : List (κ × β)} (ho : Ordered l) {k : κ} {prev : κ × β}
    (hprev : (l.takeWhile (·.1 < k)).getLast? = some prev)
    (hafter : ∀ j ∈ l.dropWhile (·.1 < k), k < j.1) : Floor l k prev := by
  have hsplit : l.takeWhile (·.1 < k) ++ l.dropWhile (·.1 < k) = l :=
    List.takeWhile_append_dropWhile
  have hmem : prev ∈ l.takeWhile (·.1 < k) := List.mem_of_getLast? hprev
  have hlt : prev.1 < k := by simpa using List.mem_takeWhile_imp hmem
  refine ⟨(List.takeWhile_sublist _).subset hmem, hlt.le, fun j hj hjk => ?_⟩
  have hinit : Ordered (l.takeWhile (·.1 < k)) := ho.sublist (List.takeWhile_sublist _)
  obtain ⟨init, hi⟩ := List.getLast?_eq_some_iff.1 hprev
  rw [← hsplit] at hj
  rcases List.mem_append.1 hj with hj | hj
  · rw [hi] at hj hinit
    rcases List.mem_append.1 hj with hj | hj
    · exact ((List.pairwise_append.1 hinit).2.2 j hj prev List.mem_cons_self).le
    · rw [List.mem_singleton.1 hj]
  · exact absurd hjk (not_le.2 (hafter j hj))

/-- What is looked at is the floor, unless every entry starts past the point. -/
theorem floor_of_candidate {l : List (κ × β)} (ho : Ordered l) {k : κ} {i : κ × β}
    (h : candidate l k = some i) : Floor l k i ∨ ∀ j ∈ l, k < j.1 := by
  have hsplit : l.takeWhile (·.1 < k) ++ l.dropWhile (·.1 < k) = l :=
    List.takeWhile_append_dropWhile
  have hlast := fun prev => @floor_of_getLast? κ β _ l ho k prev
  unfold candidate at h
  split at h
  · rename_i hd
    rw [hd] at hsplit hlast
    rw [List.append_nil] at hsplit
    rw [hsplit] at hlast
    exact .inl (hlast i h (by simp))
  · rename_i it rest hd
    have hit : k ≤ it.1 := by
      have hnot := List.head?_dropWhile_not (fun i : κ × β => decide (i.1 < k)) l
      rw [hd] at hnot
      simpa using hnot
    have hmem : it ∈ l := (List.dropWhile_sublist _).subset (hd ▸ List.mem_cons_self)
    have hdrop : Ordered (it :: rest) := hd ▸ ho.sublist (List.dropWhile_sublist _)
    have hafter : k ≠ it.1 → ∀ j ∈ it :: rest, k < j.1 := by
      intro hne j hj
      rcases List.mem_cons.1 hj with rfl | hj
      · exact lt_of_le_of_ne hit hne
      · exact hit.trans_lt ((List.pairwise_cons.1 hdrop).1 j hj)
    have hexact : k = it.1 → Floor l k it := fun heq => ⟨hmem, heq.ge, fun j _ hjk => heq ▸ hjk⟩
    rw [hd] at hlast hsplit
    split at h
    · rename_i prev hp
      split_ifs at h with hne
      · exact .inl (Option.some.inj h ▸ hlast prev hp (hafter hne))
      · exact .inl (Option.some.inj h ▸ hexact (not_not.1 hne))
    · rename_i hp
      rcases eq_or_ne k it.1 with heq | hne
      · exact .inl (Option.some.inj h ▸ hexact heq)
      · rw [List.getLast?_eq_none_iff.1 hp, List.nil_append] at hsplit
        exact .inr (hsplit ▸ hafter hne)

theorem candidate_eq_none {l : List (κ × β)} {k : κ} (h : candidate l k = none) : l = [] := by
  unfold candidate at h
  split at h
  · exact List.getLast?_eq_none_iff.1 h
  · split at h
    · split_ifs at h
    · simp at h

theorem Ordered.rel_of_lt {R : κ × β → κ × β → Prop} :
    ∀ {l : List (κ × β)}, Ordered l → l.Pairwise R → ∀ {i j}, i ∈ l → j ∈ l → i.1 < j.1 → R i j
  | a :: l, ho, hR, i, j, hi, hj, hlt => by
    obtain ⟨hkey, ho'⟩ := List.pairwise_cons.1 ho
    obtain ⟨hrel, hR'⟩ := List.pairwise_cons.1 hR
    rcases List.mem_cons.1 hj with rfl | hj'
    · rcases List.mem_cons.1 hi with rfl | hi'
      · exact absurd hlt (lt_irrefl _)
      · exact absurd hlt (lt_asymm (hkey i hi'))
    · rcases List.mem_cons.1 hi with rfl | hi'
      · exact hrel j hj'
      · exact Ordered.rel_of_lt ho' hR' hi' hj' hlt

theorem Ordered.eq_of_key :
    ∀ {l : List (κ × β)}, Ordered l → ∀ {i j}, i ∈ l → j ∈ l → i.1 = j.1 → i = j
  | a :: l, ho, i, j, hi, hj, heq => by
    obtain ⟨hkey, ho'⟩ := List.pairwise_cons.1 ho
    rcases List.mem_cons.1 hi with rfl | hi' <;> rcases List.mem_cons.1 hj with rfl | hj'
    · rfl
    · exact absurd heq (hkey j hj').ne
    · exact absurd heq (hkey i hi').ne'
    · exact Ordered.eq_of_key ho' hi' hj' heq

theorem Floor.eq {l : List (κ × β)} (ho : Ordered l) {k : κ} {i j : κ × β} (hi : Floor l k i)
    (hj : Floor l k j) : i = j :=
  ho.eq_of_key hi.mem hj.mem (le_antisymm (hj.last i hi.mem hi.le) (hi.last j hj.mem hj.le))

section Lookup

variable {δ : Type*} [LinearOrder δ] {l : List (κ × β)} {pos : κ → δ} {stop : κ × β → δ} {k : κ}

/-- The entry to look at, when the point is in it or at its end. -/
def lookup (l : List (κ × β)) (pos : κ → δ) (stop : κ × β → δ) (k : κ) : Option (κ × β) :=
  (candidate l k).filter fun i => i.1 ≤ k ∧ pos k ≤ stop i

/-- The first entry the point is in. -/
def scan (l : List (κ × β)) (pos : κ → δ) (stop : κ × β → δ) (k : κ) : Option (κ × β) :=
  l.find? fun i => i.1 ≤ k ∧ pos k < stop i

/-- The intervals are not empty, and no point is in two of them. An end need not be a point. -/
structure Separate (l : List (κ × β)) (pos : κ → δ) (stop : κ × β → δ) : Prop where
  ordered : Ordered l
  mono : StrictMono pos
  lt : ∀ i ∈ l, pos i.1 < stop i
  disjoint : l.Pairwise fun i j =>
    ∀ k, ¬ ((i.1 ≤ k ∧ pos k < stop i) ∧ j.1 ≤ k ∧ pos k < stop j)

/-- An entry ends before a later one starts. -/
theorem Separate.stop_le (h : Separate l pos stop) {i j : κ × β} (hi : i ∈ l) (hj : j ∈ l)
    (hlt : i.1 < j.1) : stop i ≤ pos j.1 := by
  by_contra hreach
  exact h.ordered.rel_of_lt h.disjoint hi hj hlt j.1 ⟨⟨hlt.le, not_le.1 hreach⟩, le_rfl, h.lt j hj⟩

/-- An entry with the point in it, or at its end with no entry there, is its floor. -/
theorem Separate.floor (h : Separate l pos stop) {i : κ × β} (hi : i ∈ l) (hle : i.1 ≤ k)
    (hbefore : ∀ j ∈ l, j.1 ≤ k → pos j.1 < stop i) : Floor l k i := by
  refine ⟨hi, hle, fun j hj hjk => ?_⟩
  by_contra hlt
  exact absurd (hbefore j hj hjk) (not_lt.2 (h.stop_le hi hj (not_le.1 hlt)))

theorem lookup_eq_some_iff (ho : Ordered l) {i : κ × β} :
    lookup l pos stop k = some i ↔ Floor l k i ∧ pos k ≤ stop i := by
  unfold lookup
  rw [Option.filter_eq_some_iff, Bool.decide_and, Bool.and_eq_true, decide_eq_true_eq,
    decide_eq_true_eq]
  constructor
  · rintro ⟨hc, hle, hstop⟩
    rcases floor_of_candidate ho hc with hfloor | hafter
    · exact ⟨hfloor, hstop⟩
    · exact absurd hle (not_le.2 (hafter i (mem_of_candidate hc)))
  · rintro ⟨hi, hstop⟩
    rcases hc : candidate l k with _ | c
    · exact absurd hi.mem (by simp [candidate_eq_none hc])
    · rcases floor_of_candidate ho hc with hfloor | hafter
      · exact ⟨congrArg some (hfloor.eq ho hi), hi.le, hstop⟩
      · exact absurd hi.le (not_le.2 (hafter i hi.mem))

theorem scan_eq_some_iff (h : Separate l pos stop) {i : κ × β} :
    scan l pos stop k = some i ↔ i ∈ l ∧ i.1 ≤ k ∧ pos k < stop i := by
  have hin : ∀ {i}, scan l pos stop k = some i → i ∈ l ∧ i.1 ≤ k ∧ pos k < stop i := by
    intro i hi
    refine ⟨List.mem_of_find?_eq_some hi, ?_⟩
    simpa using List.find?_some hi
  have hfloor : ∀ {i}, i ∈ l → i.1 ≤ k → pos k < stop i → Floor l k i := fun hi hle hlt =>
    h.floor hi hle fun j _ hjk => (h.mono.monotone hjk).trans_lt hlt
  refine ⟨hin, fun ⟨hi, hle, hlt⟩ => ?_⟩
  rcases hs : scan l pos stop k with _ | j
  · have hnone := List.find?_eq_none.1 hs i hi
    simp only [decide_eq_true_eq] at hnone
    exact absurd ⟨hle, hlt⟩ hnone
  · -- both are the floor
    obtain ⟨hj, hjle, hjlt⟩ := hin hs
    rw [(hfloor hi hle hlt).eq h.ordered (hfloor hj hjle hjlt)]

/-- An entry is found for the points in it, and for its end when no entry starts there. -/
theorem lookup_eq_some_iff_of_mem (h : Separate l pos stop) {i : κ × β} (hi : i ∈ l) :
    lookup l pos stop k = some i
      ↔ (i.1 ≤ k ∧ pos k < stop i) ∨ (stop i = pos k ∧ ∀ j ∈ l, j.1 ≠ k) := by
  rw [lookup_eq_some_iff h.ordered]
  constructor
  · rintro ⟨hfloor, hle⟩
    rcases lt_or_eq_of_le hle with hlt | heq
    · exact .inl ⟨hfloor.le, hlt⟩
    · refine .inr ⟨heq.symm, ?_⟩
      rintro j hj rfl
      have hlast := h.mono.monotone (hfloor.last j hj le_rfl)
      exact absurd (h.lt i hi) (not_lt.2 (heq ▸ hlast))
  · rintro (⟨hle, hlt⟩ | ⟨heq, hnone⟩)
    · exact ⟨h.floor hi hle fun j hj hjk => (h.mono.monotone hjk).trans_lt hlt, hlt.le⟩
    · have hle : i.1 ≤ k := (h.mono.lt_iff_lt.1 (heq ▸ h.lt i hi)).le
      refine ⟨h.floor hi hle fun j hj hjk => ?_, heq.ge⟩
      rw [heq]
      exact h.mono (lt_of_le_of_ne hjk (hnone j hj))

/-- Taking the ends to be inside makes a difference at an end where no entry starts, and nowhere
else. -/
theorem lookup_eq_scan_iff (h : Separate l pos stop) :
    lookup l pos stop k = scan l pos stop k ↔ ¬ ∃ i ∈ l, stop i = pos k ∧ ∀ j ∈ l, j.1 ≠ k := by
  constructor
  · rintro heq ⟨i, hi, hend, hnone⟩
    rw [(lookup_eq_some_iff_of_mem h hi).2 (.inr ⟨hend, hnone⟩), eq_comm, scan_eq_some_iff h] at heq
    exact absurd hend heq.2.2.ne'
  · intro hends
    refine Option.ext fun i => ?_
    rw [scan_eq_some_iff h]
    constructor
    · intro hi
      have hmem := ((lookup_eq_some_iff h.ordered).1 hi).1.mem
      rcases (lookup_eq_some_iff_of_mem h hmem).1 hi with hin | hend
      · exact ⟨hmem, hin⟩
      · exact absurd ⟨i, hmem, hend⟩ hends
    · rintro ⟨hi, hin⟩
      exact (lookup_eq_some_iff_of_mem h hi).2 (.inl hin)

/-- The same when all that is returned is the value, which has its key. -/
theorem map_lookup_eq_iff (h : Separate l pos stop) {key : β → κ} (hkey : ∀ i ∈ l, i.1 = key i.2) :
    (lookup l pos stop k).map Prod.snd = (scan l pos stop k).map Prod.snd
      ↔ ¬ ∃ i ∈ l, stop i = pos k ∧ ∀ j ∈ l, j.1 ≠ k := by
  rw [← lookup_eq_scan_iff h]
  refine ⟨fun heq => ?_, fun heq => congrArg (Option.map Prod.snd) heq⟩
  rcases hi : lookup l pos stop k with _ | i <;> rcases hj : scan l pos stop k with _ | j
  · rfl
  · simp [hi, hj] at heq
  · simp [hi, hj] at heq
  · rw [hi, hj, Option.map_some, Option.map_some, Option.some.injEq] at heq
    have hmi := ((lookup_eq_some_iff h.ordered).1 hi).1.mem
    have hmj := ((scan_eq_some_iff h).1 hj).1
    rw [Option.some.injEq]
    exact Prod.ext (by rw [hkey i hmi, hkey j hmj, heq]) heq

end Lookup

end MacMiniDump
