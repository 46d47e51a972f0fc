import Mathlib.Tactic

/-! Relational rules for programs with a state and exceptions: two runs from
related states both fail, or both return related values in related states. -/

namespace TwoRuns

variable {ε σ α β γ δ : Type}

/-- From states related by `R`, both programs fail, or both return, with values
and states related by `Q`. -/
def Rel (R : σ → σ → Prop) (m : EStateM ε σ α) (m' : EStateM ε σ β)
    (Q : α → β → σ → σ → Prop) : Prop :=
  ∀ s s', R s s' → match m.run s, m'.run s' with
    | .ok a t, .ok b t' => Q a b t t'
    | .error _ _, .error _ _ => True
    | _, _ => False

/-- Equal values in related states. -/
def Same (R : σ → σ → Prop) (a b : α) (s s' : σ) : Prop := a = b ∧ R s s'

variable {R R' : σ → σ → Prop} {m : EStateM ε σ α} {m' : EStateM ε σ β}
  {Q Q' : α → β → σ → σ → Prop}

theorem Rel.pure {a : α} {b : β} (h : ∀ s s', R s s' → Q a b s s') :
    Rel R (pure a : EStateM ε σ α) (Pure.pure b) Q := h

theorem Rel.throw {e e' : ε} : Rel R (throw e : EStateM ε σ α) (throw e' : EStateM ε σ β) Q :=
  fun _ _ _ => trivial

theorem Rel.bind {f : α → EStateM ε σ γ} {f' : β → EStateM ε σ δ}
    {S : γ → δ → σ → σ → Prop} (h : Rel R m m' Q) (hf : ∀ a b, Rel (Q a b) (f a) (f' b) S) :
    Rel R (m >>= f) (m' >>= f') S := by
  intro s s' hs
  have hm := h s s' hs
  simp only [EStateM.run_bind]
  cases hrun : m.run s <;> cases hrun' : m'.run s' <;> simp only [hrun, hrun'] at hm ⊢
  exact hf _ _ _ _ hm

/-- The rule of consequence. -/
theorem Rel.imp (h : Rel R m m' Q) (hpre : ∀ s s', R' s s' → R s s')
    (hpost : ∀ a b s s', Q a b s s' → Q' a b s s') : Rel R' m m' Q' := by
  intro s s' hs
  have hm := h s s' (hpre s s' hs)
  cases hrun : m.run s <;> cases hrun' : m'.run s' <;> simp only [hrun, hrun'] at hm ⊢
  exact hpost _ _ _ _ hm

/-- A precondition that depends on no state is a hypothesis. -/
theorem Rel.of_and {p : Prop} (h : p → Rel R m m' Q) :
    Rel (fun s s' => p ∧ R s s') m m' Q :=
  fun s s' hs => h hs.1 s s' hs.2

/-- Equal values in between. -/
theorem Rel.bind_same {n n' : EStateM ε σ α} {f f' : α → EStateM ε σ γ}
    {S : γ → γ → σ → σ → Prop} (h : Rel R n n' (Same R')) (hf : ∀ a, Rel R' (f a) (f' a) S) :
    Rel R (n >>= f) (n' >>= f') S :=
  h.bind fun a _ => Rel.of_and fun hab => hab ▸ hf a

/-- Two loops over the same list. -/
theorem Rel.forM {f f' : γ → EStateM ε σ PUnit} (xs : List γ)
    (h : ∀ x ∈ xs, Rel R (f x) (f' x) fun _ _ => R) :
    Rel R (xs.forM f) (xs.forM f') fun _ _ => R := by
  induction xs with
  | nil => exact Rel.pure fun _ _ hs => hs
  | cons x xs ih =>
    exact (h x (by simp)).bind fun _ _ => ih fun y hy => h y (by simp [hy])

/-- What a pair of runs that must agree says of one that returns. -/
theorem Rel.ok {n : EStateM ε σ α} {s s' t : σ} {a : α} (h : Rel R n n (Same R')) (hs : R s s')
    (hrun : n.run s = .ok a t) : ∃ t', n.run s' = .ok a t' ∧ R' t t' := by
  have hm := h s s' hs
  rw [hrun] at hm
  cases hrun' : n.run s' with
  | ok b t' =>
    simp only [hrun'] at hm
    exact ⟨t', by rw [hm.1], hm.2⟩
  | error e t' => simp only [hrun'] at hm

end TwoRuns
