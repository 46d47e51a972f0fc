import Mathlib.Tactic

/-! Frame rules for programs with a state and exceptions: what a run leaves alone,
whether it returns or fails. -/

namespace Frames

variable {ε σ α β γ : Type}

/-- The state a run ends in. -/
def final : EStateM.Result ε σ α → σ
  | .ok _ s => s
  | .error _ s => s

/-- What follows and changes no state leaves the last state as it is. -/
theorem final_bind {m : EStateM ε σ α} {f : α → EStateM ε σ β}
    (hf : ∀ a s, final ((f a).run s) = s) (s : σ) : final ((m >>= f).run s) = final (m.run s) := by
  rw [EStateM.run_bind]
  cases m.run s with
  | ok a t => exact hf a t
  | error e t => rfl

theorem final_bind_pure (m : EStateM ε σ α) (f : α → β) (s : σ) :
    final ((m >>= fun a => (pure (f a) : EStateM ε σ β)).run s) = final (m.run s) :=
  final_bind (fun _ _ => rfl) s

/-- Every run relates its first state to its last by `R`. -/
def Frame (R : σ → σ → Prop) (m : EStateM ε σ α) : Prop := ∀ s, R s (final (m.run s))

variable {R : σ → σ → Prop}

theorem Frame.bind [IsTrans σ R] {m : EStateM ε σ α} {f : α → EStateM ε σ β} (hm : Frame R m)
    (hf : ∀ a, Frame R (f a)) : Frame R (m >>= f) := by
  intro s
  have hfirst := hm s
  rw [EStateM.run_bind]
  cases hrun : m.run s with
  | ok a t =>
    rw [hrun] at hfirst
    exact IsTrans.trans _ _ _ hfirst (hf a t)
  | error e t =>
    rw [hrun] at hfirst
    exact hfirst

variable [Std.Refl R]

theorem Frame.pure (a : α) : Frame R (pure a : EStateM ε σ α) := fun s => Std.Refl.refl s

theorem Frame.throw (e : ε) : Frame R (throw e : EStateM ε σ α) := fun s => Std.Refl.refl s

theorem Frame.get : Frame R (get : EStateM ε σ σ) := fun s => Std.Refl.refl s

theorem Frame.forM [IsTrans σ R] {f : γ → EStateM ε σ PUnit} (xs : List γ)
    (hf : ∀ x, Frame R (f x)) : Frame R (xs.forM f) := by
  induction xs with
  | nil => exact Frame.pure _
  | cons x xs ih => exact (hf x).bind fun _ => ih

/-! ## Exceptions -/

/-- Every exception that a run raises meets `p`. -/
def Raises (p : ε → Prop) (m : EStateM ε σ α) : Prop := ∀ s e t, m.run s = .error e t → p e

variable {p : ε → Prop}

theorem Raises.bind {m : EStateM ε σ α} {f : α → EStateM ε σ β} (hm : Raises p m)
    (hf : ∀ a, Raises p (f a)) : Raises p (m >>= f) := by
  intro s e t h
  rw [EStateM.run_bind] at h
  cases hrun : m.run s with
  | ok a u =>
    rw [hrun] at h
    exact hf a u e t h
  | error e' u =>
    rw [hrun] at h
    cases h
    exact hm s e t hrun

theorem Raises.pure (a : α) : Raises p (pure a : EStateM ε σ α) := fun _ _ _ h => by cases h

theorem Raises.throw {e : ε} (he : p e) : Raises p (throw e : EStateM ε σ α) :=
  fun _ _ _ h => by cases h; exact he

theorem Raises.get : Raises p (get : EStateM ε σ σ) := fun _ _ _ h => by cases h

theorem Raises.forM {f : γ → EStateM ε σ PUnit} (xs : List γ) (hf : ∀ x, Raises p (f x)) :
    Raises p (xs.forM f) := by
  induction xs with
  | nil => exact Raises.pure _
  | cons x xs ih => exact (hf x).bind fun _ => ih

end Frames
