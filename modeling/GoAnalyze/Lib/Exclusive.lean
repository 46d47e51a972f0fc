import GoAnalyze.Lib.EventLoop

/-! Calls that exclude each other. A call that finds a lock taken returns at once, and the
lock is taken while a call waits, so that at most one call waits at a time; what it leaves
at an await has to hold under the events only. -/

namespace EventLoop

variable {ι σ Op : Type} {Reply : Op → Type} {α χ ε : Type} {P : Op → σ → Prop}

namespace Async

/-- Stopped at `op` the call leaves the memory as `P op` says, and so on when it is answered
in a memory of which that holds. -/
def Outline (P : Op → σ → Prop) : Async σ Op Reply α → σ → Prop
  | done _, _ => True
  | act f k, s => (k s).Outline P (f s)
  | await op k, s => P op s ∧ ∀ r s', P op s' → (k r).Outline P s'

/-- What is left to run of a call. -/
def Outlined (P : Op → σ → Prop) : Async σ Op Reply α → Prop
  | await op k => ∀ r s, P op s → (k r).Outline P s
  | _ => True

theorem Outline.settle {m : Async σ Op Reply α} {s : σ} (h : m.Outline P s) :
    (∀ op, (m.settle s).1.pending = some op → P op (m.settle s).2) ∧
      (m.settle s).1.Outlined P := by
  induction m generalizing s with
  | done a => exact ⟨fun _ hop => (nomatch hop), trivial⟩
  | act f k ih => exact ih _ h
  | await op k =>
    refine ⟨fun op' hop => ?_, h.2⟩
    cases hop
    exact h.1

end Async

variable [DecidableEq ι] {lock : σ → Prop}

/-- At most one call waits, and what it left where it waits holds. -/
structure Excluding (P : Op → σ → Prop) (l : Loop ι σ Op Reply α) : Prop where
  outlined : ∀ i t, l.calls i = some t → t.Outlined P
  holds : ∀ i op, l.pending i = some op → P op l.memory
  unique : ∀ i j, l.pending i ≠ none → l.pending j ≠ none → i = j

theorem Excluding.put {l : Loop ι σ Op Reply α} (h : Excluding P l) {i : ι}
    {m : Async σ Op Reply α × σ} (hidle : ∀ j ≠ i, l.pending j = none)
    (hholds : ∀ op, m.1.pending = some op → P op m.2) (houtlined : m.1.Outlined P) :
    Excluding P (l.put i m) := by
  have hself : (l.put i m).pending i = m.1.pending := by simp [Loop.pending]
  have hothers : ∀ j ≠ i, (l.put i m).pending j = none := fun j hj => by
    rw [Loop.pending, put_calls_of_ne l i m hj]
    exact hidle j hj
  refine ⟨fun j t ht => ?_, fun j op hop => ?_, fun j k hj hk => ?_⟩
  · by_cases hij : j = i
    · subst hij
      rw [put_calls_self] at ht
      cases ht
      exact houtlined
    · exact h.outlined j t (by rwa [put_calls_of_ne l i m hij] at ht)
  · by_cases hij : j = i
    · subst hij
      exact hholds op (hself.symm.trans hop)
    · rw [hothers j hij] at hop
      cases hop
  · have hji : j = i := by_contra fun hji => hj (hothers j hji)
    have hki : k = i := by_contra fun hki => hk (hothers k hki)
    rw [hji, hki]

/-- A call that returns at once changes nothing. -/
theorem Excluding.put_done {l : Loop ι σ Op Reply α} (h : Excluding P l) {i : ι}
    (hc : l.calls i = none) (a : α) : Excluding P (l.put i (.done a, l.memory)) := by
  have hpending : ∀ j, (l.put i (.done a, l.memory)).pending j = l.pending j := fun j => by
    by_cases hij : j = i
    · subst hij
      simp [Loop.pending, hc, Async.pending]
    · rw [Loop.pending, put_calls_of_ne l i _ hij, Loop.pending]
  refine ⟨fun j t ht => ?_, fun j op hop => h.holds j op ((hpending j).symm.trans hop),
    fun j k hj hk => h.unique j k (hpending j ▸ hj) (hpending k ▸ hk)⟩
  by_cases hij : j = i
  · subst hij
    rw [put_calls_self] at ht
    cases ht
    trivial
  · exact h.outlined j t (by rwa [put_calls_of_ne l i _ hij] at ht)

theorem excluding_of_run {S : System ι σ Op Reply α χ ε} (hlock : ∀ op m, P op m → lock m)
    (hfree : ∀ i m, ¬ lock m → (S.program i).Outline P m)
    (htaken : ∀ i m, lock m → ∃ a, (S.program i).settle m = (.done a, m))
    (hanswer : ∀ i op c m r m', P op m → S.answer i op c m = some (r, m') → P op m')
    (hevent : ∀ e m m', S.event e m = some m' → ∀ op, P op m → P op m')
    {m₀ : σ} {as : List (Label ι χ ε)} {l : Loop ι σ Op Reply α}
    (h : Runs.Run S.Step (Loop.init m₀) as l) : Excluding P l := by
  refine h.invariant (I := Excluding P) ⟨?_, ?_, ?_⟩ ?_
  · exact fun i t ht => by cases ht
  · exact fun i op hop => by cases hop
  · exact fun i j hi => absurd rfl hi
  rintro l a l' hl hstep
  cases step_takes hstep with
  | @call i hc =>
    by_cases htake : lock l.memory
    · -- the new call has returned already
      obtain ⟨a, ha⟩ := htaken i l.memory htake
      rw [ha]
      exact hl.put_done hc a
    · have hidle : ∀ j, l.pending j = none := fun j => by
        cases hj : l.pending j with
        | none => rfl
        | some op => exact absurd (hlock op _ (hl.holds j op hj)) htake
      obtain ⟨hholds, houtlined⟩ := (hfree i l.memory htake).settle
      exact hl.put (fun j _ => hidle j) hholds houtlined
  | @answer i c op k r m hc hr =>
    have hi : l.pending i = some op := by rw [Loop.pending, hc]; rfl
    have hidle : ∀ j ≠ i, l.pending j = none := fun j hj => by
      by_contra hwaits
      exact hj (hl.unique j i hwaits (by simp [hi]))
    have hP := hanswer i op c l.memory r m (hl.holds i op hi) hr
    obtain ⟨hholds, houtlined⟩ := (hl.outlined i _ hc r m hP).settle
    exact hl.put hidle hholds houtlined
  | @event e m hm =>
    exact ⟨hl.outlined, fun i op hop => hevent e _ _ hm op (hl.holds i op hop), hl.unique⟩

end EventLoop
