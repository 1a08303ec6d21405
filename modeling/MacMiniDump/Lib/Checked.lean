import MacMiniDump.Lib.Loop

/-!
# Checks

Two versions of a program, of which the first makes checks that the other leaves out. It fails one
of them, or does what the second does, up to a relation between what they return. So do programs
that are put together of such parts (`Checked.bind`, `Checked.seq`, `Checked.forEach`).
-/

namespace MacMiniDump

variable {ε α β γ δ σ τ : Type} {ι : Type*}

/-- The first result is a failed check, or they are the same up to `R`. -/
inductive Checked (Failed : ε → Prop) (R : α → β → Prop) : Except ε α → Except ε β → Prop
  | check {e : ε} {y : Except ε β} (h : Failed e) : Checked Failed R (.error e) y
  | error (e : ε) : Checked Failed R (.error e) (.error e)
  | ok {a : α} {b : β} (h : R a b) : Checked Failed R (.ok a) (.ok b)

/-- The same answer, and states that are related. -/
def SameAnswer (R : σ → τ → Prop) (a : Bool × σ) (b : Bool × τ) : Prop := a.1 = b.1 ∧ R a.2 b.2

namespace Checked

variable {Failed : ε → Prop} {R : α → β → Prop}

theorem refl (x : Except ε α) : Checked Failed Eq x x := by
  cases x with
  | error e => exact .error e
  | ok a => exact .ok rfl

/-- A check failed, or nothing differs. -/
theorem cases_eq {x y : Except ε α} (h : Checked Failed Eq x y) :
    (∃ e, Failed e ∧ x = .error e) ∨ x = y := by
  cases h with
  | check h => exact .inl ⟨_, h, rfl⟩
  | error e => exact .inr rfl
  | ok h => exact .inr (congrArg _ h)

theorem bind {S : γ → δ → Prop} {x : Except ε α} {y : Except ε β} {f : α → Except ε γ}
    {g : β → Except ε δ} (h : Checked Failed R x y)
    (hf : ∀ a b, R a b → Checked Failed S (f a) (g b)) : Checked Failed S (x >>= f) (y >>= g) := by
  cases h with
  | check h => exact .check h
  | error e => exact .error e
  | ok h => exact hf _ _ h

theorem map {S : γ → δ → Prop} {x : Except ε α} {y : Except ε β} {f : α → γ} {g : β → δ}
    (h : Checked Failed R x y) (hf : ∀ a b, R a b → S (f a) (g b)) :
    Checked Failed S (x.map f) (y.map g) := by
  cases h with
  | check h => exact .check h
  | error e => exact .error e
  | ok h => exact .ok (hf _ _ h)

variable {Q : σ → τ → Prop}

theorem seq {f g : σ → Except ε (Bool × σ)} {f' g' : τ → Except ε (Bool × τ)}
    (hf : ∀ s t, Q s t → Checked Failed (SameAnswer Q) (f s) (f' t))
    (hg : ∀ s t, Q s t → Checked Failed (SameAnswer Q) (g s) (g' t)) :
    ∀ s t, Q s t → Checked Failed (SameAnswer Q) (MacMiniDump.seq f g s)
      (MacMiniDump.seq f' g' t) := by
  intro s t hst
  have h := hf s t hst
  unfold MacMiniDump.seq
  generalize f s = x at h
  generalize f' t = y at h
  cases h with
  | check h => exact .check h
  | error e => exact .error e
  | @ok a b h =>
    obtain ⟨r, s₁⟩ := a
    obtain ⟨r', t₁⟩ := b
    obtain ⟨rfl, hst₁⟩ := h
    cases r with
    | false => exact .ok ⟨rfl, hst₁⟩
    | true => exact hg s₁ t₁ hst₁

theorem forEach {body : ι → σ → Except ε (Bool × σ)} {body' : ι → τ → Except ε (Bool × τ)}
    (hbody : ∀ i s t, Q s t → Checked Failed (SameAnswer Q) (body i s) (body' i t)) :
    ∀ (is : List ι) (s : σ) (t : τ), Q s t →
      Checked Failed (SameAnswer Q) (MacMiniDump.forEach body is s) (MacMiniDump.forEach body' is t)
  | [], _, _, hst => .ok ⟨rfl, hst⟩
  | i :: is, s, t, hst => seq (hbody i) (forEach hbody is) s t hst

end Checked

end MacMiniDump
