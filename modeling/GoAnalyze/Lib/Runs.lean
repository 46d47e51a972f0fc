import Mathlib.Data.List.Infix

/-! Labelled transition systems: runs, invariants of runs, and what holds of
every step of a run. -/

namespace Runs

variable {σ α : Type*} (step : σ → α → σ → Prop)

/-- A run from `s₀`, with the labels of its steps in order. -/
inductive Run (s₀ : σ) : List α → σ → Prop where
  | nil : Run s₀ [] s₀
  | snoc {as : List α} {s s' : σ} {a : α} : Run s₀ as s → step s a s' → Run s₀ (as ++ [a]) s'

variable {step} {s₀ : σ}

/-- What holds at the start and is kept by every step holds after every run. -/
theorem Run.invariant {I : σ → Prop} (h0 : I s₀)
    (hstep : ∀ s a s', I s → step s a s' → I s') {as : List α} {s : σ}
    (h : Run step s₀ as s) : I s := by
  induction h with
  | nil => exact h0
  | snoc _ hs ih => exact hstep _ _ _ ih hs

/-- The same for a property of the labels and the state together. -/
theorem Run.history {I : List α → σ → Prop} (h0 : I [] s₀)
    (hstep : ∀ as s a s', I as s → step s a s' → I (as ++ [a]) s') {as : List α} {s : σ}
    (h : Run step s₀ as s) : I as s := by
  induction h with
  | nil => exact h0
  | snoc _ hs ih => exact hstep _ _ _ _ ih hs

theorem Run.append {as bs : List α} {s s' : σ} (h : Run step s₀ as s) (h' : Run step s bs s') :
    Run step s₀ (as ++ bs) s' := by
  induction h' with
  | nil => simpa using h
  | snoc _ hs ih => rw [← List.append_assoc]; exact .snoc ih hs

theorem Run.of_concat {as : List α} {a : α} {s' : σ} (h : Run step s₀ (as ++ [a]) s') :
    ∃ s, Run step s₀ as s ∧ step s a s' := by
  generalize hbs : as ++ [a] = bs at h
  cases h with
  | nil => exact absurd hbs (by simp)
  | snoc hrun hs =>
    obtain ⟨rfl, hlast⟩ := List.append_inj' hbs rfl
    obtain rfl := List.singleton_inj.mp hlast
    exact ⟨_, hrun, hs⟩

/-- Every step of the run is taken from a state, and with a label, that meet `C`. -/
inductive Run.Every (step : σ → α → σ → Prop) (C : σ → α → Prop) (s₀ : σ) :
    List α → σ → Prop where
  | nil : Run.Every step C s₀ [] s₀
  | snoc {as : List α} {s s' : σ} {a : α} :
      Run.Every step C s₀ as s → C s a → step s a s' → Run.Every step C s₀ (as ++ [a]) s'

theorem Run.Every.run {C : σ → α → Prop} {as : List α} {s : σ} (h : Run.Every step C s₀ as s) :
    Run step s₀ as s := by
  induction h with
  | nil => exact .nil
  | snoc _ _ hs ih => exact .snoc ih hs

/-- A condition on single steps may be replaced by another that they meet in every state
reached. -/
theorem Run.Every.mono {C D : σ → α → Prop}
    (hCD : ∀ as s a s', Run step s₀ as s → step s a s' → C s a → D s a) {as : List α} {s : σ}
    (h : Run.Every step C s₀ as s) : Run.Every step D s₀ as s := by
  induction h with
  | nil => exact .nil
  | snoc hrun hC hs ih => exact .snoc ih (hCD _ _ _ _ hrun.run hs hC) hs

/-- What the steps that meet `C` keep holds after every run of such steps. -/
theorem Run.Every.invariant {C : σ → α → Prop} {I : σ → Prop} (h0 : I s₀)
    (hstep : ∀ as s a s', Run step s₀ as s → I s → C s a → step s a s' → I s') {as : List α}
    {s : σ} (h : Run.Every step C s₀ as s) : I s := by
  induction h with
  | nil => exact h0
  | snoc hrun hC hs ih => exact hstep _ _ _ _ hrun.run ih hC hs

/-- Where one step keeps `P` exactly when it meets `C`, the runs whose steps all
meet `C` are those that keep `P` throughout. -/
theorem Run.every_iff {C : σ → α → Prop} {I P : σ → Prop} (hI0 : I s₀) (hP0 : P s₀)
    (hI : ∀ s a s', I s → step s a s' → I s')
    (hP : ∀ s a s', I s → P s → step s a s' → (P s' ↔ C s a)) {as : List α} {s : σ} :
    Run.Every step C s₀ as s ↔ Run.Every step (fun s _ => P s) s₀ as s ∧ P s := by
  have hinv : ∀ {D as s}, Run.Every step D s₀ as s → I s := fun h => h.run.invariant hI0 hI
  constructor
  · intro h
    induction h with
    | nil => exact ⟨.nil, hP0⟩
    | snoc h hC hs ih => exact ⟨.snoc ih.1 ih.2 hs, (hP _ _ _ (hinv h) ih.2 hs).mpr hC⟩
  · rintro ⟨h, hPs⟩
    induction h with
    | nil => exact .nil
    | snoc h hPs' hs ih => exact .snoc (ih hPs') ((hP _ _ _ (hinv h) hPs' hs).mp hPs) hs

/-! ### Conditions on the history -/

/-- Every step of the run comes after a history, is taken from a state, and has a label,
that meet `C`. -/
inductive Run.Throughout (step : σ → α → σ → Prop) (C : List α → σ → α → Prop) (s₀ : σ) :
    List α → σ → Prop where
  | nil : Run.Throughout step C s₀ [] s₀
  | snoc {as : List α} {s s' : σ} {a : α} : Run.Throughout step C s₀ as s → C as s a →
      step s a s' → Run.Throughout step C s₀ (as ++ [a]) s'

section Throughout

variable {C : List α → σ → α → Prop} {as : List α} {s : σ}

theorem Run.Throughout.run (h : Run.Throughout step C s₀ as s) : Run step s₀ as s := by
  induction h with
  | nil => exact .nil
  | snoc _ _ hs ih => exact .snoc ih hs

/-- A condition that follows from the history, on the step alone. -/
theorem Run.Throughout.every {D : σ → α → Prop}
    (hCD : ∀ as s a s', Run step s₀ as s → step s a s' → C as s a → D s a)
    (h : Run.Throughout step C s₀ as s) : Run.Every step D s₀ as s := by
  induction h with
  | nil => exact .nil
  | snoc hrun hC hs ih => exact .snoc ih (hCD _ _ _ _ hrun.run hs hC) hs

/-- What the steps that meet `C` keep holds in every state. -/
theorem Run.Throughout.always {P : σ → Prop} (h0 : P s₀)
    (hstep : ∀ as s a s', Run step s₀ as s → P s → C as s a → step s a s' → P s')
    (h : Run.Throughout step C s₀ as s) : Run.Every step (fun s _ => P s) s₀ as s ∧ P s := by
  induction h with
  | nil => exact ⟨.nil, h0⟩
  | snoc hrun hC hs ih =>
    exact ⟨.snoc ih.1 ih.2 hs, hstep _ _ _ _ hrun.run ih.2 hC hs⟩

/-- Where one step keeps `P` exactly when it meets `C`, as long as `B` holds at the end, the
runs whose steps all meet `C` are those that keep `P` throughout. -/
theorem Run.throughout_iff {B P : σ → Prop} (hP0 : P s₀)
    (hB : ∀ as s a s', Run step s₀ as s → step s a s' → B s' → B s)
    (hP : ∀ as s a s', Run step s₀ as s → P s → step s a s' → B s' → (P s' ↔ C as s a))
    (hBs : B s) : Run.Throughout step C s₀ as s ↔
      Run.Every step (fun s _ => P s) s₀ as s ∧ P s := by
  constructor
  · intro h
    induction h with
    | nil => exact ⟨.nil, hP0⟩
    | snoc h hC hs ih =>
      have ih := ih (hB _ _ _ _ h.run hs hBs)
      exact ⟨.snoc ih.1 ih.2 hs, (hP _ _ _ _ h.run ih.2 hs hBs).mpr hC⟩
  · rintro ⟨h, hPs⟩
    induction h with
    | nil => exact .nil
    | snoc h hPs' hs ih =>
      have hBs' := hB _ _ _ _ h.run hs hBs
      exact .snoc (ih hBs' hPs') ((hP _ _ _ _ h.run hPs' hs hBs).mp hPs) hs

end Throughout

/-- Run a step function over a list of labels; `none` where a step is not enabled. -/
def exec (next : σ → α → Option σ) : σ → List α → Option σ
  | s, [] => some s
  | s, a :: as => (next s a).bind fun s' => exec next s' as

theorem run_of_exec {next : σ → α → Option σ} {as : List α} {s s' : σ}
    (h : exec next s as = some s') : Run (fun s a s' => next s a = some s') s as s' := by
  induction as generalizing s with
  | nil => cases h; exact .nil
  | cons a as ih =>
    obtain ⟨t, hst, ht⟩ := Option.bind_eq_some_iff.mp h
    exact (Run.snoc .nil hst).append (ih ht)

/-- Each step meets `C`, after the labels `before` and from the state that they led to. -/
def Along (next : σ → α → Option σ) (C : List α → σ → α → Prop) : List α → σ → List α → Prop
  | _, _, [] => True
  | before, s, a :: as => C before s a ∧
    (next s a).elim False fun s' => Along next C (before ++ [a]) s' as

theorem throughout_of_exec {next : σ → α → Option σ} {C : List α → σ → α → Prop} {as : List α}
    {s s' : σ} (h : exec next s as = some s') (hC : Along next C [] s as) :
    Run.Throughout (fun s a s' => next s a = some s') C s as s' := by
  have hrest : ∀ (rest before : List α) (t : σ),
      Run.Throughout (fun s a s' => next s a = some s') C s before t →
      exec next t rest = some s' → Along next C before t rest →
      Run.Throughout (fun s a s' => next s a = some s') C s (before ++ rest) s' := by
    intro rest
    induction rest with
    | nil =>
      rintro before t ht hexec -
      cases hexec
      simpa using ht
    | cons a rest ih =>
      rintro before t ht hexec ⟨ha, hrest⟩
      obtain ⟨t', hstep, ht'⟩ := Option.bind_eq_some_iff.mp hexec
      rw [hstep] at hrest
      simpa using ih (before ++ [a]) t' (ht.snoc ha hstep) ht' hrest
  exact hrest as [] s .nil h hC

end Runs
