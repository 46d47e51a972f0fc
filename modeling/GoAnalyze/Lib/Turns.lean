import GoAnalyze.Lib.EventLoop

/-! Calls that take turns. A call that finds another one waiting returns at once, and so the
one that waits knows what the memory is like, and how the reply fits it, until it ends. -/

namespace EventLoop

/-- What holds while no call waits, and while one does; and what is known of a reply when it
comes. -/
structure Turns (σ Op : Type) (Reply : Op → Type) where
  free : σ → Prop
  held : Op → σ → Prop
  replies : (op : Op) → Reply op → σ → Prop

variable {ι σ Op : Type} {Reply : Op → Type} {α χ ε : Type} {T : Turns σ Op Reply}

namespace Async

/-- In its turn, the call leaves what is held wherever it waits, and what is free at its
end. -/
def InTurn (T : Turns σ Op Reply) : Async σ Op Reply α → σ → Prop
  | done _, s => T.free s
  | act f k, s => (k s).InTurn T (f s)
  | await op k, s => T.held op s ∧ ∀ r s', T.held op s' → T.replies op r s' → (k r).InTurn T s'

/-- What is left to run of a call. -/
def Resumes (T : Turns σ Op Reply) : Async σ Op Reply α → Prop
  | await op k => ∀ r s, T.held op s → T.replies op r s → (k r).InTurn T s
  | _ => True

theorem InTurn.settle {m : Async σ Op Reply α} {s : σ} (h : m.InTurn T s) :
    (m.settle s).1.Resumes T ∧
      ((m.settle s).1.pending = none → T.free (m.settle s).2) ∧
      ∀ op, (m.settle s).1.pending = some op → T.held op (m.settle s).2 := by
  induction m generalizing s with
  | done a =>
    refine ⟨trivial, fun _ => h, fun op hop => ?_⟩
    cases hop
  | act f k ih => exact ih _ h
  | await op k =>
    refine ⟨h.2, fun hnone => ?_, fun op' hop => ?_⟩
    · cases hnone
    · cases hop
      exact h.1

end Async

/-- At most one call waits, and what it knows holds. -/
structure Turns.Holds (T : Turns σ Op Reply) (l : Loop ι σ Op Reply α) : Prop where
  resumes : ∀ i t, l.calls i = some t → t.Resumes T
  turn : ((∀ i, l.pending i = none) ∧ T.free l.memory) ∨
    ∃ i op, l.pending i = some op ∧ (∀ j ≠ i, l.pending j = none) ∧ T.held op l.memory

variable [DecidableEq ι]

theorem Turns.Holds.put {l : Loop ι σ Op Reply α} (h : T.Holds l) {i : ι}
    (hidle : ∀ j ≠ i, l.pending j = none) {m : Async σ Op Reply α} {s : σ} (hm : m.InTurn T s) :
    T.Holds (l.put i (m.settle s)) := by
  obtain ⟨hresumes, hfree, hheld⟩ := hm.settle
  have hself : (l.put i (m.settle s)).pending i = (m.settle s).1.pending := by
    simp [Loop.pending]
  have hothers : ∀ j ≠ i, (l.put i (m.settle s)).pending j = none := fun j hj => by
    rw [Loop.pending, put_calls_of_ne l i _ hj]
    exact hidle j hj
  constructor
  · intro j t ht
    by_cases hij : j = i
    · subst hij
      rw [put_calls_self] at ht
      cases ht
      exact hresumes
    · exact h.resumes j t (by rwa [put_calls_of_ne l i _ hij] at ht)
  · cases hpending : (m.settle s).1.pending with
    | none =>
      refine Or.inl ⟨fun j => ?_, hfree hpending⟩
      by_cases hij : j = i
      · rw [hij, hself, hpending]
      · exact hothers j hij
    | some op => exact Or.inr ⟨i, op, hself.trans hpending, hothers, hheld op hpending⟩

/-- A call that returns at once changes nothing. -/
theorem Turns.Holds.put_done {l : Loop ι σ Op Reply α} (h : T.Holds l) {i : ι}
    (hc : l.calls i = none) (a : α) : T.Holds (l.put i (.done a, l.memory)) := by
  have hpending : (l.put i (.done a, l.memory)).pending = l.pending := by
    funext j
    by_cases hij : j = i
    · subst hij
      simp [Loop.pending, hc, Async.pending]
    · rw [Loop.pending, put_calls_of_ne l i _ hij, Loop.pending]
  refine ⟨fun j t ht => ?_, ?_⟩
  · by_cases hij : j = i
    · subst hij
      rw [put_calls_self] at ht
      cases ht
      trivial
    · exact h.resumes j t (by rwa [put_calls_of_ne l i _ hij] at ht)
  · rw [hpending]
    exact h.turn

/-- The rule for calls that take turns: each keeps to its turn where no other one waits, and
returns at once where one does. -/
theorem turns_of_run {S : System ι σ Op Reply α χ ε}
    (hfree : ∀ i m, T.free m → (S.program i).InTurn T m)
    (htaken : ∀ i op m, T.held op m → ∃ a, (S.program i).settle m = (.done a, m))
    (hanswer : ∀ i op c m r m', T.held op m → S.answer i op c m = some (r, m') →
      T.held op m' ∧ T.replies op r m')
    (hevent : ∀ e m m', S.event e m = some m' →
      (T.free m → T.free m') ∧ ∀ op, T.held op m → T.held op m')
    {m₀ : σ} (h₀ : T.free m₀) {as : List (Label ι χ ε)} {l : Loop ι σ Op Reply α}
    (h : Runs.Run S.Step (Loop.init m₀) as l) : T.Holds l := by
  have hinit : T.Holds (Loop.init m₀ : Loop ι σ Op Reply α) := by
    refine ⟨fun i t ht => ?_, Or.inl ⟨fun _ => rfl, h₀⟩⟩
    cases ht
  refine h.invariant hinit ?_
  intro l a l' hl hstep
  cases step_takes hstep with
  | @call i hc =>
    rcases hl.turn with ⟨hidle, hmemory⟩ | ⟨j, op, -, -, hheld⟩
    · exact hl.put (fun j _ => hidle j) (hfree i l.memory hmemory)
    · obtain ⟨a, ha⟩ := htaken i op l.memory hheld
      rw [ha]
      exact hl.put_done hc a
  | @answer i c op k r m hc hr =>
    have hi : l.pending i = some op := by rw [Loop.pending, hc]; rfl
    rcases hl.turn with ⟨hidle, -⟩ | ⟨j, op', hj, hidle, hheld⟩
    · rw [hidle i] at hi
      cases hi
    · have hij : i = j := by
        by_contra hij
        rw [hidle i hij] at hi
        cases hi
      subst hij
      cases hj.symm.trans hi
      obtain ⟨hheld', hreply⟩ := hanswer i _ c l.memory r m hheld hr
      exact hl.put hidle (hl.resumes i _ hc r m hheld' hreply)
  | @event e m hm =>
    obtain ⟨hfree', hheld'⟩ := hevent e l.memory m hm
    refine ⟨hl.resumes, ?_⟩
    rcases hl.turn with ⟨hidle, hmemory⟩ | ⟨i, op, hi, hidle, hheld⟩
    · exact Or.inl ⟨hidle, hfree' hmemory⟩
    · exact Or.inr ⟨i, op, hi, hidle, hheld' op hheld⟩

end EventLoop
