import GoAnalyze.Lib.EventLoop

/-! Calls that work on a part of a larger memory. What such a call does at each of its stops
is what it does alone, with the rest of the memory as it was. -/

namespace EventLoop

/-- A part of a memory. -/
structure Lens (τ σ : Type) where
  get : τ → σ
  put : σ → τ → τ
  get_put : ∀ s t, get (put s t) = s
  put_get : ∀ t, put (get t) t = t
  put_put : ∀ s s' t, put s (put s' t) = put s t

namespace Async

variable {σ τ Op Op' : Type} {Reply : Op → Type} {Reply' : Op' → Type} {α : Type}

/-- The call on the part of the memory. Its operations are among others, and what it returns
is dropped. -/
def zoom (part : Lens τ σ) (op' : Op → Op') (reply : ∀ op, Reply' (op' op) → Reply op) :
    Async σ Op Reply α → Async τ Op' Reply' Unit
  | done _ => done ()
  | act f k => act (fun t => part.put (f (part.get t)) t)
      fun t => (k (part.get t)).zoom part op' reply
  | await op k => await (op' op) fun r => (k (reply op r)).zoom part op' reply

theorem Flows.zoom {part : Lens τ σ} {op' : Op → Op'} {reply : ∀ op, Reply' (op' op) → Reply op}
    {E : (op : Op) → Reply op → σ → Option Op → σ → Prop}
    {E' : (op : Op') → Reply' op → τ → Option Op' → τ → Prop}
    (hE : ∀ op r t next s, E op (reply op r) (part.get t) next s →
      E' (op' op) r t (next.map op') (part.put s t))
    {m : Async σ Op Reply α} {G : Option Op → σ → Prop} {G' : Option Op' → τ → Prop} {t : τ}
    (hG : ∀ next s, G next s → G' (next.map op') (part.put s t)) (h : m.Flows E G (part.get t)) :
    (m.zoom part op' reply).Flows E' G' t := by
  induction m generalizing G G' t with
  | done a =>
    have hdone := hG _ _ h
    rwa [part.put_get] at hdone
  | act f k ih =>
    refine ih (part.get t) (G := G) (fun next s hs => ?_) ?_
    · rw [part.put_put]
      exact hG next s hs
    · rw [part.get_put]
      exact h
  | await op k ih =>
    refine ⟨?_, fun r t' => ih _ (hE op r t') (h.2 _ _)⟩
    have hstop := hG _ _ h.1
    rwa [part.put_get] at hstop

end Async

end EventLoop
