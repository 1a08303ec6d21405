import Mathlib.Data.List.Basic

/-!
# Loops that may leave the function

`forEach` runs a body over a list; the body may fault, which ends the program, or return `false`,
which ends the function the loop is in. An invariant of the body holds after the loop, and a body
that always finishes under its invariant makes a loop that does (`forEach_finishes`).
-/

namespace MacMiniDump

variable {ε ι σ : Type*}

/-- A `for` loop: the first element whose body returns `false` ends it. -/
def forEach (body : ι → σ → Except ε (Bool × σ)) : List ι → σ → Except ε (Bool × σ)
  | [], s => .ok (true, s)
  | i :: is, s =>
    match body i s with
    | .ok (true, s') => forEach body is s'
    | r => r

/-- One statement after another, the second only when the first did not leave the function. -/
def seq (f g : σ → Except ε (Bool × σ)) (s : σ) : Except ε (Bool × σ) :=
  match f s with
  | .ok (true, s') => g s'
  | r => r

theorem ok_bind {α β : Type} (a : α) (f : α → Except ε β) : (Except.ok a >>= f) = f a := rfl

/-- What ends well has got a result of its first part. -/
theorem exists_of_bind_ok {α β : Type} {x : Except ε α} {f : α → Except ε β} {r : β}
    (h : x >>= f = .ok r) : ∃ a, x = .ok a ∧ f a = .ok r := by
  rcases x with e | a
  · cases h
  · exact ⟨a, rfl, h⟩

/-- What ends badly does so in its first part, or after it. -/
theorem error_of_bind {α β : Type} {x : Except ε α} {f : α → Except ε β} {e : ε}
    (h : x >>= f = .error e) : x = .error e ∨ ∃ a, x = .ok a ∧ f a = .error e := by
  rcases x with e' | a
  · obtain rfl : e' = e := Except.error.inj h
    exact .inl rfl
  · exact .inr ⟨a, rfl, h⟩

/-- What is found by running a function holds of a run that succeeds. -/
theorem exists_of_toOption {α : Type*} {x : Except ε (Bool × σ)} {f : σ → α} {v : α}
    (h : x.toOption.map (fun r => (r.1, f r.2)) = some (true, v)) :
    ∃ s, x = .ok (true, s) ∧ f s = v := by
  rcases x with e | ⟨r, s⟩
  · cases h
  · obtain ⟨rfl, hv⟩ := Prod.mk.inj (Option.some.inj h)
    exact ⟨s, rfl, hv⟩

theorem seq_of_ok {f g : σ → Except ε (Bool × σ)} {s s' : σ} (h : f s = .ok (true, s')) :
    seq f g s = g s' := by
  rw [seq, h]

/-- The function is left by the first statement, or ends with the second. -/
theorem seq_cases {f g : σ → Except ε (Bool × σ)} {s : σ} {b : Bool} {s' : σ}
    (h : seq f g s = .ok (b, s')) :
    (b = false ∧ f s = .ok (false, s')) ∨ ∃ s₁, f s = .ok (true, s₁) ∧ g s₁ = .ok (b, s') := by
  unfold seq at h
  split at h
  · rename_i s₁ hs
    exact .inr ⟨s₁, hs, h⟩
  · rename_i hr
    rcases b with _ | _
    · exact .inl ⟨rfl, h⟩
    · exact absurd h (hr s')

theorem seq_keeps {f g : σ → Except ε (Bool × σ)} (P : σ → Prop)
    (hf : ∀ s b s', P s → f s = .ok (b, s') → P s')
    (hg : ∀ s b s', P s → g s = .ok (b, s') → P s') {s : σ} {b : Bool} {s' : σ} (hP : P s)
    (h : seq f g s = .ok (b, s')) : P s' := by
  unfold seq at h
  split at h
  · rename_i s₁ hs
    exact hg s₁ b s' (hf s true s₁ hP hs) h
  · exact hf s b s' hP h

/-- When every body finishes from a state that meets the invariant, so does the loop. -/
theorem forEach_finishes {body : ι → σ → Except ε (Bool × σ)} (I : List ι → σ → Prop)
    {all : List ι}
    (step : ∀ (done : List ι) i rest s, done ++ i :: rest = all → I done s →
      ∃ s', body i s = .ok (true, s') ∧ I (done ++ [i]) s') :
    ∀ (rest done : List ι) (s : σ), done ++ rest = all → I done s →
      ∃ s', forEach body rest s = .ok (true, s') ∧ I all s'
  | [], done, s, hall, hI => by
    rw [List.append_nil] at hall
    exact ⟨s, rfl, hall ▸ hI⟩
  | i :: is, done, s, hall, hI => by
    obtain ⟨s₁, hs, hI₁⟩ := step done i is s hall hI
    obtain ⟨s₂, h₂, hI₂⟩ := forEach_finishes I step is (done ++ [i]) s₁ (by simpa using hall) hI₁
    exact ⟨s₂, by rw [forEach, hs]; exact h₂, hI₂⟩

/-- A loop whose bodies never leave it, when it ends at all, ends with the invariant of all. -/
theorem forEach_invariant {body : ι → σ → Except ε (Bool × σ)} (I : List ι → σ → Prop)
    (step : ∀ done i s b s', I done s → body i s = .ok (b, s') → b = true ∧ I (done ++ [i]) s') :
    ∀ (rest done : List ι) (s : σ) (b : Bool) (s' : σ), I done s →
      forEach body rest s = .ok (b, s') → b = true ∧ I (done ++ rest) s'
  | [], done, s, b, s', hI, h => by
    simp only [forEach, Except.ok.injEq, Prod.mk.injEq] at h
    obtain ⟨rfl, rfl⟩ := h
    exact ⟨rfl, by rwa [List.append_nil]⟩
  | i :: is, done, s, b, s', hI, h => by
    rcases hb : body i s with e | ⟨b₁, s₁⟩
    · simp [forEach, hb] at h
    obtain ⟨rfl, hI₁⟩ := step done i s b₁ s₁ hI hb
    simp only [forEach, hb] at h
    obtain ⟨hb', hI'⟩ := forEach_invariant I step is (done ++ [i]) s₁ b s' hI₁ h
    exact ⟨hb', by simpa using hI'⟩

/-- A loop over the numbers below `n`: each body carries the invariant on by one, and the one that
leaves the loop, if any, leaves it with `E`. -/
theorem forEach_range'_ends {body : ℕ → σ → Except ε (Bool × σ)} {n : ℕ} (I : ℕ → σ → Prop)
    (E : σ → Prop) (step : ∀ k s b s', k < n → I k s → body k s = .ok (b, s') →
      (b = true → I (k + 1) s') ∧ (b = false → E s')) :
    ∀ (m k : ℕ) (s : σ) (b : Bool) (s' : σ), k + m = n → I k s →
      forEach body (List.range' k m) s = .ok (b, s') → (b = true → I n s') ∧ (b = false → E s')
  | 0, k, s, b, s', hn, hI, h => by
    simp only [List.range'_zero, forEach, Except.ok.injEq, Prod.mk.injEq] at h
    obtain ⟨rfl, rfl⟩ := h
    rw [Nat.add_zero] at hn
    exact ⟨fun _ => hn ▸ hI, by simp⟩
  | m + 1, k, s, b, s', hn, hI, h => by
    rw [List.range'_succ] at h
    unfold forEach at h
    split at h
    · rename_i s₁ hs
      have hI₁ := (step k s true s₁ (by omega) hI hs).1 rfl
      exact forEach_range'_ends I E step m (k + 1) s₁ b s' (by omega) hI₁ h
    · rename_i hr
      have hb : b = false := Bool.eq_false_iff.2 fun ht => hr s' (ht ▸ h)
      exact ⟨fun ht => by simp [hb] at ht, (step k s b s' (by omega) hI h).2⟩

theorem forEach_range_ends {body : ℕ → σ → Except ε (Bool × σ)} {n : ℕ} (I : ℕ → σ → Prop)
    (E : σ → Prop) (step : ∀ k s b s', k < n → I k s → body k s = .ok (b, s') →
      (b = true → I (k + 1) s') ∧ (b = false → E s')) {s : σ} {b : Bool} {s' : σ} (hI : I 0 s)
    (h : forEach body (List.range n) s = .ok (b, s')) : (b = true → I n s')
      ∧ (b = false → E s') := by
  rw [List.range_eq_range'] at h
  exact forEach_range'_ends I E step n 0 s b s' (by omega) hI h

/-- A loop faults as its bodies do. -/
theorem forEach_fault {body : ι → σ → Except ε (Bool × σ)} {P : ε → Prop}
    (step : ∀ i s e, body i s = .error e → P e) :
    ∀ (is : List ι) (s : σ) (e : ε), forEach body is s = .error e → P e
  | [], s, e, h => by cases h
  | i :: is, s, e, h => by
    unfold forEach at h
    split at h
    · exact forEach_fault step is _ e h
    · exact step i s e h

/-- What every body keeps, whatever it returns, the loop keeps. -/
theorem forEach_keeps {body : ι → σ → Except ε (Bool × σ)} (P : σ → Prop)
    (step : ∀ i s b s', P s → body i s = .ok (b, s') → P s') :
    ∀ (is : List ι) (s : σ) (b : Bool) (s' : σ), P s → forEach body is s = .ok (b, s') → P s'
  | [], s, b, s', hP, h => by
    simp only [forEach, Except.ok.injEq, Prod.mk.injEq] at h
    exact h.2 ▸ hP
  | i :: is, s, b, s', hP, h => by
    unfold forEach at h
    split at h
    · rename_i s₁ hs
      exact forEach_keeps P step is s₁ b s' (step i s true s₁ hP hs) h
    · exact step i s b s' hP h

/-- What a loop that pushes something for some of its elements pushes for the first of them. -/
theorem filterMap_cons_toList {α β : Type*} (f : α → Option β) (a : α) (l : List α) :
    (a :: l).filterMap f = (f a).toList ++ l.filterMap f := by
  rcases hf : f a with _ | b <;> simp [hf]

end MacMiniDump
