import GoAnalyze.Lib.Frame
import GoAnalyze.Lib.Runs
import GoAnalyze.Lib.TwoRuns
import Mathlib.Data.List.Forall2

/-! Noninterference of runs: what is left of a run when the steps that an observer
should not notice are taken out of it. -/

namespace Runs

variable {σ α : Type*} {step : σ → α → σ → Prop}

/-- The unwinding conditions, for the steps that meet `C`: an invisible step keeps `R`, and
a visible one can be taken in the related state too, with a label that looks the same. -/
structure Unwinding (step : σ → α → σ → Prop) (C : σ → α → Prop) (visible : α → Prop)
    (R : σ → σ → Prop) (Same : α → α → Prop) : Prop where
  respect : ∀ s u a s', R s u → C s a → ¬ visible a → step s a s' → R s' u
  consistent : ∀ s u a s', R s u → C s a → visible a → step s a s' →
    ∃ b u', step u b u' ∧ Same a b ∧ R s' u'

/-- The visible steps of a run are a run of their own, which looks the same. -/
theorem Unwinding.purge {C : σ → α → Prop} {visible : α → Prop} [DecidablePred visible]
    {R : σ → σ → Prop} {Same : α → α → Prop} (h : Unwinding step C visible R Same) {s₀ u₀ : σ}
    (h₀ : R s₀ u₀) {as : List α} {s : σ} (hrun : Run.Every step C s₀ as s) :
    ∃ bs u, Run step u₀ bs u ∧ List.Forall₂ Same (as.filter visible) bs ∧ R s u := by
  induction hrun with
  | nil => exact ⟨[], u₀, .nil, .nil, h₀⟩
  | @snoc as s s' a _ hC hs ih =>
    obtain ⟨bs, u, hbs, hsame, hR⟩ := ih
    rw [List.filter_append]
    by_cases ha : visible a
    · obtain ⟨b, u', hb, hab, hR'⟩ := h.consistent s u a s' hR hC ha hs
      rw [List.filter_cons_of_pos (by simpa using ha), List.filter_nil]
      exact ⟨bs ++ [b], u', hbs.snoc hb, List.rel_append hsame (.cons hab .nil), hR'⟩
    · rw [List.filter_cons_of_neg (by simpa using ha), List.filter_nil, List.append_nil]
      exact ⟨bs, u, hbs, hsame, h.respect s u a s' hR hC ha hs⟩

end Runs

/-! ## Failures -/

namespace Frames

variable {ε σ α : Type}

/-- A run that fails leaves the state as it was. -/
def Restores (m : EStateM ε σ α) : Prop := ∀ s e t, m.run s = .error e t → t = s

theorem Restores.of_frame {m : EStateM ε σ α} (h : Frame Eq m) : Restores m := by
  intro s e t hrun
  have hfinal := h s
  rw [hrun] at hfinal
  exact hfinal.symm

end Frames

namespace TwoRuns

open Frames

variable {ε σ α β γ δ : Type} {R : σ → σ → Prop} {m : EStateM ε σ α} {m' : EStateM ε σ β}
  {Q : α → β → σ → σ → Prop} {E : σ → σ → Prop}

/-- From states related by `R`, both programs return, with values and states related by
`Q`, or both fail, in states related by `E`. -/
def Both (R : σ → σ → Prop) (m : EStateM ε σ α) (m' : EStateM ε σ β)
    (Q : α → β → σ → σ → Prop) (E : σ → σ → Prop) : Prop :=
  ∀ s s', R s s' → match m.run s, m'.run s' with
    | .ok a t, .ok b t' => Q a b t t'
    | .error _ t, .error _ t' => E t t'
    | _, _ => False

/-- Programs that restore the state when they fail. -/
theorem Both.of_rel (h : Rel R m m' Q) (hm : Restores m) (hm' : Restores m')
    (hE : ∀ s s', R s s' → E s s') : Both R m m' Q E := by
  intro s s' hs
  have hrel := h s s' hs
  cases hrun : m.run s <;> cases hrun' : m'.run s' <;> simp only [hrun, hrun'] at hrel ⊢
  · exact hrel
  · rw [hm s _ _ hrun, hm' s' _ _ hrun']
    exact hE s s' hs

theorem Both.bind {f : α → EStateM ε σ γ} {f' : β → EStateM ε σ δ}
    {S : γ → δ → σ → σ → Prop} (h : Both R m m' Q E) (hf : ∀ a b, Both (Q a b) (f a) (f' b) S E) :
    Both R (m >>= f) (m' >>= f') S E := by
  intro s s' hs
  have hm := h s s' hs
  simp only [EStateM.run_bind]
  cases hrun : m.run s <;> cases hrun' : m'.run s' <;> simp only [hrun, hrun'] at hm ⊢
  · exact hf _ _ _ _ hm
  · exact hm

/-- A precondition that depends on no state is a hypothesis. -/
theorem Both.of_and {p : Prop} (h : p → Both R m m' Q E) :
    Both (fun s s' => p ∧ R s s') m m' Q E :=
  fun s s' hs => h hs.1 s s' hs.2

/-- Equal values in between. -/
theorem Both.bind_same {R' : σ → σ → Prop} {n n' : EStateM ε σ α} {f f' : α → EStateM ε σ γ}
    {S : γ → γ → σ → σ → Prop} (h : Both R n n' (Same R') E)
    (hf : ∀ a, Both R' (f a) (f' a) S E) : Both R (n >>= f) (n' >>= f') S E :=
  h.bind fun a _ => Both.of_and fun hab => hab ▸ hf a

end TwoRuns
