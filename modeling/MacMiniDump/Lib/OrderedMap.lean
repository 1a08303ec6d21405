import MacMiniDump.Lib.Intervals

/-!
# Ordered maps

A map whose entries are kept in the order of their keys, as the list of its entries. Assigning to a
key that is not there puts the entry in its place (`assign_eq`), and `candidate` is the entry that
a point between two keys belongs to, if it belongs to any.
-/

namespace MacMiniDump

variable {κ β : Type*} [LinearOrder κ]

/-- Keys in ascending order. -/
def Ordered (l : List (κ × β)) : Prop := l.Pairwise fun i j => i.1 < j.1

/-- `m[k] = v` -/
def assign (k : κ) (v : β) : List (κ × β) → List (κ × β)
  | [] => [(k, v)]
  | i :: rest =>
    if k < i.1 then (k, v) :: i :: rest
    else if k = i.1 then (k, v) :: rest
    else i :: assign k v rest

/-- `m.insert ({ k, v })`, which keeps the entry that is there. -/
def insertNew (k : κ) (v : β) (l : List (κ × β)) : List (κ × β) :=
  if ∃ i ∈ l, i.1 = k then l else assign k v l

/-- The entry at the key, or the last one before it; the first one when all keys are greater. -/
def candidate (l : List (κ × β)) (k : κ) : Option (κ × β) :=
  match l.dropWhile (·.1 < k) with
  | [] => l.getLast?
  | it :: _ =>
    match (l.takeWhile (·.1 < k)).getLast? with
    | some prev => if k ≠ it.1 then some prev else some it
    | none => some it

theorem assign_eq {k : κ} {v : β} :
    ∀ {l : List (κ × β)}, Ordered l → (∀ i ∈ l, i.1 ≠ k) →
      ∃ lo hi, l = lo ++ hi ∧ assign k v l = lo ++ (k, v) :: hi ∧ (∀ i ∈ lo, i.1 < k)
        ∧ ∀ i ∈ hi, k < i.1
  | [], _, _ => ⟨[], [], rfl, rfl, by simp, by simp⟩
  | i :: rest, ho, hk => by
    obtain ⟨hi, hrest⟩ := List.pairwise_cons.1 ho
    by_cases hlt : k < i.1
    · refine ⟨[], i :: rest, rfl, by rw [assign, if_pos hlt, List.nil_append], by simp, ?_⟩
      intro j hj
      rcases List.mem_cons.1 hj with rfl | hj
      · exact hlt
      · exact hlt.trans (hi j hj)
    · obtain ⟨lo, hi', rfl, ha, hlo, hhi⟩ :=
        assign_eq (v := v) hrest fun j hj => hk j (List.mem_cons_of_mem _ hj)
      have hne : k ≠ i.1 := fun h => hk i List.mem_cons_self h.symm
      refine ⟨i :: lo, hi', rfl, ?_, fun j hj => ?_, hhi⟩
      · rw [assign, if_neg hlt, if_neg hne, ha, List.cons_append]
      · rcases List.mem_cons.1 hj with rfl | hj
        · exact lt_of_le_of_ne (not_lt.1 hlt) hne.symm
        · exact hlo j hj

theorem assign_append_end {k : κ} {v : β} :
    ∀ {l : List (κ × β)}, (∀ i ∈ l, i.1 < k) → assign k v l = l ++ [(k, v)]
  | [], _ => rfl
  | i :: rest, h => by
    have hi : i.1 < k := h i List.mem_cons_self
    rw [assign, if_neg hi.not_gt, if_neg hi.ne',
      assign_append_end fun j hj => h j (List.mem_cons_of_mem _ hj), List.cons_append]

theorem insertNew_append_end {k : κ} {v : β} {l : List (κ × β)} (h : ∀ i ∈ l, i.1 < k) :
    insertNew k v l = l ++ [(k, v)] := by
  rw [insertNew, if_neg, assign_append_end h]
  rintro ⟨i, hi, rfl⟩
  exact lt_irrefl _ (h i hi)

theorem ordered_insertNew {l : List (κ × β)} (ho : Ordered l) (k : κ) (v : β) :
    Ordered (insertNew k v l) := by
  unfold insertNew
  split_ifs with hmem
  · exact ho
  · obtain ⟨lo, hi, rfl, ha, hlo, hhi⟩ := assign_eq (v := v) ho fun i hi h => hmem ⟨i, hi, h⟩
    rw [ha]
    obtain ⟨hpre, hpost, hcross⟩ := List.pairwise_append.1 ho
    refine List.pairwise_append.2 ⟨hpre, List.pairwise_cons.2 ⟨hhi, hpost⟩, fun i hi' j hj => ?_⟩
    rcases List.mem_cons.1 hj with rfl | hj
    · exact hlo i hi'
    · exact hcross i hi' j hj

theorem mem_insertNew {l : List (κ × β)} (ho : Ordered l) {k : κ} {v : β} {i : κ × β} :
    i ∈ insertNew k v l ↔ i ∈ l ∨ i = (k, v) ∧ ∀ j ∈ l, j.1 ≠ k := by
  unfold insertNew
  split_ifs with hmem
  · refine ⟨Or.inl, fun h => ?_⟩
    rcases h with h | ⟨-, hnew⟩
    · exact h
    · obtain ⟨j, hj, hjk⟩ := hmem
      exact absurd hjk (hnew j hj)
  · have hnew : ∀ j ∈ l, j.1 ≠ k := fun j hj h => hmem ⟨j, hj, h⟩
    obtain ⟨lo, hi, rfl, ha, -, -⟩ := assign_eq (v := v) ho hnew
    rw [ha, and_iff_left hnew]
    simp only [List.mem_append, List.mem_cons]
    rw [or_left_comm, or_comm]

theorem length_insertNew_le {l : List (κ × β)} (ho : Ordered l) (k : κ) (v : β) :
    (insertNew k v l).length ≤ l.length + 1 := by
  unfold insertNew
  split_ifs with hmem
  · exact Nat.le_succ _
  · obtain ⟨lo, hi, rfl, ha, -, -⟩ := assign_eq (v := v) ho fun i hi h => hmem ⟨i, hi, h⟩
    rw [ha]
    simp only [List.length_append, List.length_cons]
    omega

/-- Of many entries with one key, the first is kept. -/
theorem mem_foldl_insertNew :
    ∀ (l m : List (κ × β)), Ordered m → ∀ i, i ∈ l.foldl (fun m e => insertNew e.1 e.2 m) m
      ↔ i ∈ m ∨ (∀ j ∈ m, j.1 ≠ i.1) ∧ l.find? (fun e => decide (e.1 = i.1)) = some i
  | [], m, _, i => by simp
  | e :: l, m, ho, i => by
    have ih := mem_foldl_insertNew l (insertNew e.1 e.2 m) (ordered_insertNew ho e.1 e.2) i
    have hkeys : (∀ j ∈ insertNew e.1 e.2 m, j.1 ≠ i.1) ↔ (∀ j ∈ m, j.1 ≠ i.1) ∧ e.1 ≠ i.1 := by
      constructor
      · intro h
        have hold : ∀ j ∈ m, j.1 ≠ i.1 := fun j hj => h j ((mem_insertNew ho).2 (.inl hj))
        refine ⟨hold, fun hei => ?_⟩
        refine h e ((mem_insertNew ho).2 (.inr ⟨rfl, fun j hj => ?_⟩)) hei
        rw [hei]
        exact hold j hj
      · rintro ⟨hold, hei⟩ j hj
        rcases (mem_insertNew ho).1 hj with hj | ⟨rfl, -⟩
        · exact hold j hj
        · exact hei
    rw [List.foldl_cons, ih, mem_insertNew ho, hkeys]
    by_cases hei : e.1 = i.1
    · rw [List.find?_cons_of_pos (by simpa using hei), Option.some_inj]
      simp only [hei, ne_eq, not_true_eq_false, and_false, false_and, or_false]
      rw [and_comm, eq_comm]
      simp only [Prod.ext_iff, hei, true_and]
    · rw [List.find?_cons_of_neg (by simpa using hei)]
      have hne : i ≠ (e.1, e.2) := fun h => hei (congrArg Prod.fst h).symm
      simp only [hne, false_and, or_false, hei, ne_eq, not_false_eq_true, and_true]

theorem assign_of_mem {k : κ} {v : β} :
    ∀ {l : List (κ × β)}, Ordered l → (k, v) ∈ l → assign k v l = l
  | i :: rest, ho, hm => by
    obtain ⟨hi, hrest⟩ := List.pairwise_cons.1 ho
    rcases List.mem_cons.1 hm with rfl | hm
    · rw [assign, if_neg (lt_irrefl _), if_pos rfl]
    · have hlt := hi _ hm
      rw [assign, if_neg hlt.not_gt, if_neg hlt.ne', assign_of_mem hrest hm]

theorem mem_of_candidate {l : List (κ × β)} {k : κ} {i : κ × β} (h : candidate l k = some i) :
    i ∈ l := by
  unfold candidate at h
  split at h
  · exact List.mem_of_getLast? h
  · rename_i it rest hd
    have hit : it ∈ l := (List.dropWhile_sublist _).subset (hd ▸ List.mem_cons_self)
    split at h
    · rename_i prev hp
      have hprev : prev ∈ l := (List.takeWhile_sublist _).subset (List.mem_of_getLast? hp)
      split_ifs at h
      · exact Option.some.inj h ▸ hprev
      · exact Option.some.inj h ▸ hit
    · exact Option.some.inj h ▸ hit

/-- Changing the values changes no keys, so the entry is the changed one. -/
theorem candidate_map {β' : Type*} {f : κ × β → κ × β'} (hf : ∀ i, (f i).1 = i.1)
    (l : List (κ × β)) (k : κ) : candidate (l.map f) k = (candidate l k).map f := by
  have hkeys : (fun i => decide (i.1 < k)) ∘ f = fun i => decide (i.1 < k) := by
    funext i
    rw [Function.comp_apply, hf]
  unfold candidate
  rw [List.dropWhile_map, List.takeWhile_map, hkeys, List.getLast?_map, List.getLast?_map]
  generalize List.dropWhile _ l = notBelow
  generalize (List.takeWhile _ l).getLast? = below
  rcases notBelow with _ | ⟨it, rest⟩
  · rfl
  rcases below with _ | prev
  · rfl
  · simp only [List.map_cons, Option.map_some, hf]
    split_ifs <;> rfl

theorem Separated.ordered {m : List (κ × κ)} (hm : Separated m) : Ordered m :=
  hm.gap.imp_of_mem fun hi _ hij => (hm.lt _ hi).trans hij

/-- An interval apart from all others goes between them. -/
theorem assign_separated {m : List (κ × κ)} {s e : κ} (hm : Separated m)
    (hse : s < e) (hapart : ∀ i ∈ m, i.2 < s ∨ e < i.1) :
    Separated (assign s e m) ∧ ∀ x, Covers (assign s e m) x ↔ (s ≤ x ∧ x < e) ∨ Covers m x := by
  have hkey : ∀ i ∈ m, i.1 ≠ s := by
    rintro i hi heq
    rcases hapart i hi with h | h
    · exact lt_asymm (hm.lt i hi) (heq ▸ h)
    · exact lt_asymm hse (heq ▸ h)
  obtain ⟨lo, hi, rfl, ha, hlo, hhi⟩ := assign_eq (v := e) (hm.ordered) hkey
  rw [ha]
  refine ⟨Separated.insert hm hse (fun i hmem => ?_) fun i hmem => ?_, fun x => ?_⟩
  · rcases hapart i (List.mem_append_left _ hmem) with h | h
    · exact h
    · exact absurd (h.trans (hlo i hmem)) (lt_asymm hse)
  · rcases hapart i (List.mem_append_right _ hmem) with h | h
    · exact absurd (hm.lt i (List.mem_append_right _ hmem)) (lt_asymm (h.trans (hhi i hmem)))
    · exact h
  · rw [covers_append, covers_cons, covers_append]
    exact or_left_comm

end MacMiniDump
