import GoAnalyze.Lib.Runs
import Mathlib.Data.List.DropRight
import Mathlib.Logic.Function.Basic
import Mathlib.Tactic

/-! Async functions on an event loop. Between two awaits a call runs without
interruption; while it waits the other calls go on, and what it waits for is
answered later, in any order. -/

namespace EventLoop

/-- An async function: it returns, works on the memory, or waits for an operation. -/
inductive Async (σ Op : Type) (Reply : Op → Type) (α : Type) where
  | done (a : α)
  | act (f : σ → σ) (k : σ → Async σ Op Reply α)
  | await (op : Op) (k : Reply op → Async σ Op Reply α)

namespace Async

variable {σ Op : Type} {Reply : Op → Type} {α β : Type}

def bind : Async σ Op Reply α → (α → Async σ Op Reply β) → Async σ Op Reply β
  | done a, g => g a
  | act f k, g => act f fun s => (k s).bind g
  | await op k, g => await op fun r => (k r).bind g

instance : Monad (Async σ Op Reply) where
  pure := done
  bind := bind

instance : MonadStateOf σ (Async σ Op Reply) where
  get := act id done
  set s := act (fun _ => s) fun _ => done ⟨⟩
  modifyGet f := act (fun s => (f s).2) fun s => done (f s).1

def wait (op : Op) : Async σ Op Reply (Reply op) := await op done

theorem bind_assoc {γ : Type} (m : Async σ Op Reply α) (g : α → Async σ Op Reply β)
    (h : β → Async σ Op Reply γ) : (m.bind g).bind h = m.bind fun a => (g a).bind h := by
  induction m with
  | done a => rfl
  | act f k ih => exact congrArg (act f) (funext fun s => ih s)
  | await op k ih => exact congrArg (await op) (funext fun r => ih r)

theorem bind_done (m : Async σ Op Reply α) : m.bind done = m := by
  induction m with
  | done a => rfl
  | act f k ih => exact congrArg (act f) (funext fun s => ih s)
  | await op k ih => exact congrArg (await op) (funext fun r => ih r)

instance : LawfulMonad (Async σ Op Reply) :=
  LawfulMonad.mk' _ bind_done (fun _ _ => rfl) bind_assoc

/-- Run up to the next await. -/
def settle : Async σ Op Reply α → σ → Async σ Op Reply α × σ
  | done a, s => (done a, s)
  | act f k, s => (k s).settle (f s)
  | await op k, s => (await op k, s)

/-- What the call waits for. -/
def pending : Async σ Op Reply α → Option Op
  | await op _ => some op
  | _ => none

def result : Async σ Op Reply α → Option α
  | done a => some a
  | _ => none

/-- What a call may ask for, what it is answered, and how it may change the memory. -/
structure Contract (σ Op : Type) (Reply : Op → Type) where
  asks : Op → Prop
  answers : (op : Op) → Reply op → Prop
  acts : (σ → σ) → Prop

/-- Answered as `P` says, the call does what `P` allows only, and returns what meets `Q`. -/
def Within (P : Contract σ Op Reply) (Q : α → Prop) : Async σ Op Reply α → Prop
  | done a => Q a
  | act f k => P.acts f ∧ ∀ s, (k s).Within P Q
  | await op k => P.asks op ∧ ∀ r, P.answers op r → (k r).Within P Q

variable {P : Contract σ Op Reply} {Q : α → Prop}

theorem Within.bind {R : β → Prop} {m : Async σ Op Reply α} {g : α → Async σ Op Reply β}
    (hm : m.Within P Q) (hg : ∀ a, Q a → (g a).Within P R) : (m.bind g).Within P R := by
  induction m with
  | done a => exact hg a hm
  | act f k ih => exact ⟨hm.1, fun s => ih s (hm.2 s)⟩
  | await op k ih => exact ⟨hm.1, fun r hr => ih r (hm.2 r hr)⟩

theorem within_wait {op : Op} (h : P.asks op) :
    (wait op : Async σ Op Reply (Reply op)).Within P (P.answers op) :=
  ⟨h, fun _ hr => hr⟩

/-- The rule for functions that raise. -/
theorem Within.bindExcept {ε : Type} {Q : Except ε α → Prop} {R : Except ε β → Prop}
    {m : ExceptT ε (Async σ Op Reply) α} {g : α → ExceptT ε (Async σ Op Reply) β}
    (hm : Within P Q m.run) (hok : ∀ a, Q (.ok a) → Within P R (g a).run)
    (herror : ∀ e, Q (.error e) → R (.error e)) : Within P R (m >>= g).run :=
  hm.bind fun
    | .ok a, ha => hok a ha
    | .error e, he => herror e he

/-- A call that does not work on the memory is settled. -/
theorem Within.settle_eq {m : Async σ Op Reply α} (hm : m.Within P Q) (hacts : ∀ f, ¬P.acts f)
    (s : σ) : m.settle s = (m, s) := by
  cases m with
  | done a => rfl
  | act f k => exact absurd hm.1 (hacts f)
  | await op k => rfl

theorem Within.result {m : Async σ Op Reply α} (hm : m.Within P Q) {a : α}
    (h : m.result = some a) : Q a := by
  cases m with
  | done a' => cases h; exact hm
  | act f k => cases h
  | await op k => cases h

/-- Run in a memory that meets `I` at every await, and changes by `R` while the call
waits, the call from its last resumption in `s₀` and now in `s` keeps `I`, changes the
memory by `R` between two awaits, and ends in `Q`. -/
def wp (I : σ → Prop) (R : σ → σ → Prop) (Q : α → σ → σ → Prop) :
    Async σ Op Reply α → σ → σ → Prop
  | done a, s₀, s => Q a s₀ s
  | act f k, s₀, s => (k s).wp I R Q s₀ (f s)
  | await _ k, s₀, s => I s ∧ R s₀ s ∧ ∀ r s', R s s' → I s' → (k r).wp I R Q s' s'

variable {I : σ → Prop} {R : σ → σ → Prop}

theorem wp_bind {Q : β → σ → σ → Prop} (m : Async σ Op Reply α) (g : α → Async σ Op Reply β)
    (s₀ s : σ) : (m.bind g).wp I R Q s₀ s ↔ m.wp I R (fun a => (g a).wp I R Q) s₀ s := by
  induction m generalizing s₀ s with
  | done a => exact Iff.rfl
  | act f k ih => exact ih _ _ _
  | await op k ih =>
    exact and_congr_right fun _ => and_congr_right fun _ =>
      forall_congr' fun r => forall_congr' fun s' => imp_congr_right fun _ =>
        imp_congr_right fun _ => ih _ _ _

theorem wp_mono {Q Q' : α → σ → σ → Prop} {m : Async σ Op Reply α} {s₀ s : σ}
    (h : m.wp I R Q s₀ s) (hQ : ∀ a s₀ s, Q a s₀ s → Q' a s₀ s) : m.wp I R Q' s₀ s := by
  induction m generalizing s₀ s with
  | done a => exact hQ a s₀ s h
  | act f k ih => exact ih _ h
  | await op k ih => exact ⟨h.1, h.2.1, fun r s' hR hI => ih r (h.2.2 r s' hR hI)⟩

section Rules

variable (I R) {ε : Type} (s₀ s : σ)

@[simp] theorem wp_wait {op : Op} {Q : Reply op → σ → σ → Prop} :
    (wait op : Async σ Op Reply (Reply op)).wp I R Q s₀ s ↔
      I s ∧ R s₀ s ∧ ∀ r s', R s s' → I s' → Q r s' s' :=
  Iff.rfl

@[simp] theorem wp_pure (a : α) {Q : Except ε α → σ → σ → Prop} :
    (pure a : ExceptT ε (Async σ Op Reply) α).run.wp I R Q s₀ s ↔ Q (.ok a) s₀ s :=
  Iff.rfl

@[simp] theorem wp_throw (e : ε) {Q : Except ε α → σ → σ → Prop} :
    (throw e : ExceptT ε (Async σ Op Reply) α).run.wp I R Q s₀ s ↔ Q (.error e) s₀ s :=
  Iff.rfl

@[simp] theorem wp_get {Q : Except ε σ → σ → σ → Prop} :
    (getThe σ : ExceptT ε (Async σ Op Reply) σ).run.wp I R Q s₀ s ↔ Q (.ok s) s₀ s :=
  Iff.rfl

@[simp] theorem wp_modify (f : σ → σ) {Q : Except ε PUnit → σ → σ → Prop} :
    (modifyThe σ f : ExceptT ε (Async σ Op Reply) PUnit).run.wp I R Q s₀ s ↔
      Q (.ok ⟨⟩) s₀ (f s) :=
  Iff.rfl

@[simp] theorem wp_liftExcept (x : Except ε α) {Q : Except ε α → σ → σ → Prop} :
    (liftM x : ExceptT ε (Async σ Op Reply) α).run.wp I R Q s₀ s ↔ Q x s₀ s :=
  Iff.rfl

@[simp] theorem wp_lift (m : Async σ Op Reply α) {Q : Except ε α → σ → σ → Prop} :
    (liftM m : ExceptT ε (Async σ Op Reply) α).run.wp I R Q s₀ s ↔
      m.wp I R (fun a => Q (.ok a)) s₀ s :=
  wp_bind m _ s₀ s

/-- What follows a function that raises is not run. -/
theorem wp_bindExcept (m : ExceptT ε (Async σ Op Reply) α)
    (g : α → ExceptT ε (Async σ Op Reply) β) {Q : Except ε β → σ → σ → Prop} :
    (m >>= g).run.wp I R Q s₀ s ↔ m.run.wp I R (fun r s₀ s =>
      match r with
      | .ok a => (g a).run.wp I R Q s₀ s
      | .error e => Q (.error e) s₀ s) s₀ s := by
  refine (wp_bind m.run _ s₀ s).trans (iff_of_eq ?_)
  congr 1
  funext r
  cases r <;> rfl

/-- What a call returns does not matter to what it does. -/
theorem wp_mapExcept (m : ExceptT ε (Async σ Op Reply) α) (f : α → β) {Q : σ → σ → Prop} :
    (do return f (← m) : ExceptT ε (Async σ Op Reply) β).run.wp I R (fun _ => Q) s₀ s ↔
      m.run.wp I R (fun _ => Q) s₀ s := by
  rw [wp_bindExcept]
  refine iff_of_eq ?_
  congr 1
  funext r
  cases r <;> rfl

end Rules

/-- What a call in flight still has to keep and to return, whenever it is answered. -/
def Upholds (I : σ → Prop) (R : σ → σ → Prop) (Q : α → Prop) : Async σ Op Reply α → σ → Prop
  | done a, _ => Q a
  | act _ _, _ => True
  | await _ k, s => ∀ r s', R s s' → I s' →
    (k r).wp I R (fun a s₀ s => Q a ∧ I s ∧ R s₀ s) s' s'

theorem wp_settle {m : Async σ Op Reply α} {s₀ s : σ}
    (h : m.wp I R (fun a s₀ s => Q a ∧ I s ∧ R s₀ s) s₀ s) :
    I (m.settle s).2 ∧ R s₀ (m.settle s).2 ∧ (m.settle s).1.Upholds I R Q (m.settle s).2 := by
  induction m generalizing s with
  | done a => exact ⟨h.2.1, h.2.2, h.1⟩
  | act f k ih => exact ih _ h
  | await op k => exact h

theorem Upholds.mono [IsTrans σ R] {m : Async σ Op Reply α} {s s' : σ} (h : m.Upholds I R Q s)
    (hs : R s s') : m.Upholds I R Q s' := by
  cases m with
  | await op k => exact fun r t hR => h r t (IsTrans.trans _ _ _ hs hR)
  | done a => exact h
  | act f k => trivial

theorem Upholds.result {m : Async σ Op Reply α} {s : σ} {a : α} (h : m.Upholds I R Q s)
    (ha : m.result = some a) : Q a := by
  cases m with
  | done a' =>
    cases ha
    exact h
  | act f k => cases ha
  | await op k => cases ha

/-! ### What each answer leads to -/

/-- At its first stop the call has done what `G` says, and at each later one, counted from
the answer `r` to `op` that it stopped for, what `E op r` says: of what it waits for now,
and of the memory. -/
def segments (E : (op : Op) → Reply op → σ → Option Op → σ → Prop)
    (Q : α → (Option Op → σ → Prop) → σ → Prop) :
    Async σ Op Reply α → (Option Op → σ → Prop) → σ → Prop
  | done a, G, s => Q a G s
  | act f k, G, s => (k s).segments E Q G (f s)
  | await op k, G, s => G (some op) s ∧ ∀ r s', (k r).segments E Q (E op r s') s'

section Segments

variable {E : (op : Op) → Reply op → σ → Option Op → σ → Prop} {G : Option Op → σ → Prop} {s : σ}

theorem segments_bind {Q : β → (Option Op → σ → Prop) → σ → Prop} (m : Async σ Op Reply α)
    (g : α → Async σ Op Reply β) :
    (m.bind g).segments E Q G s ↔ m.segments E (fun a => (g a).segments E Q) G s := by
  induction m generalizing G s with
  | done a => exact Iff.rfl
  | act f k ih => exact ih _
  | await op k ih =>
    exact and_congr_right fun _ => forall_congr' fun r => forall_congr' fun s' => ih _

variable {ε : Type}

@[simp] theorem segments_pure (a : α) {Q : Except ε α → (Option Op → σ → Prop) → σ → Prop} :
    (pure a : ExceptT ε (Async σ Op Reply) α).run.segments E Q G s ↔ Q (.ok a) G s :=
  Iff.rfl

@[simp] theorem segments_get {Q : Except ε σ → (Option Op → σ → Prop) → σ → Prop} :
    (getThe σ : ExceptT ε (Async σ Op Reply) σ).run.segments E Q G s ↔ Q (.ok s) G s :=
  Iff.rfl

theorem segments_bindExcept (m : ExceptT ε (Async σ Op Reply) α)
    (g : α → ExceptT ε (Async σ Op Reply) β)
    {Q : Except ε β → (Option Op → σ → Prop) → σ → Prop} :
    (m >>= g).run.segments E Q G s ↔ m.run.segments E (fun r G s =>
      match r with
      | .ok a => (g a).run.segments E Q G s
      | .error e => Q (.error e) G s) G s := by
  refine (segments_bind m.run _).trans (iff_of_eq ?_)
  congr 1
  funext r
  cases r <;> rfl

end Segments

/-- The call does at its end, where it waits for nothing, what it does at each stop. -/
def Flows (E : (op : Op) → Reply op → σ → Option Op → σ → Prop) (G : Option Op → σ → Prop)
    (m : Async σ Op Reply α) (s : σ) : Prop :=
  m.segments E (fun _ G s => G none s) G s

/-- The same of the memory alone. -/
abbrev Stops (E : (op : Op) → Reply op → σ → σ → Prop) (G : σ → Prop) (m : Async σ Op Reply α)
    (s : σ) : Prop :=
  m.Flows (fun op r s _ => E op r s) (fun _ => G) s

section Flows

variable {E E' : (op : Op) → Reply op → σ → Option Op → σ → Prop} {G G' : Option Op → σ → Prop}
  {s : σ}

theorem flows_mapExcept {ε : Type} (m : ExceptT ε (Async σ Op Reply) α) (f : α → β) :
    (do return f (← m) : ExceptT ε (Async σ Op Reply) β).run.Flows E G s ↔
      m.run.Flows E G s := by
  unfold Flows
  rw [segments_bindExcept]
  refine iff_of_eq ?_
  congr 1
  funext r
  cases r <;> rfl

theorem Flows.mono {m : Async σ Op Reply α} (h : m.Flows E G s)
    (hE : ∀ op r s next s', E op r s next s' → E' op r s next s')
    (hG : ∀ next s, G next s → G' next s) : m.Flows E' G' s := by
  induction m generalizing G G' s with
  | done a => exact hG _ _ h
  | act f k ih => exact ih _ h hG
  | await op k ih => exact ⟨hG _ _ h.1, fun r s' => ih r (h.2 r s') (hE op r s')⟩

/-- What is left to run of a call, whatever it is answered. -/
def Continues (E : (op : Op) → Reply op → σ → Option Op → σ → Prop) : Async σ Op Reply α → Prop
  | await op k => ∀ r s, (k r).Flows E (E op r s) s
  | _ => True

theorem Flows.settle {m : Async σ Op Reply α} (h : m.Flows E G s) :
    G (m.settle s).1.pending (m.settle s).2 ∧ (m.settle s).1.Continues E := by
  induction m generalizing s with
  | done a => exact ⟨h, trivial⟩
  | act f k ih => exact ih _ h
  | await op k => exact h

end Flows

/-! ### One call to its end -/

/-- The reply to each await, in their order, and the memory in which the call goes on. -/
abbrev Script (σ Op : Type) (Reply : Op → Type) := ℕ → (op : Op) → Reply op × σ

/-- Run the call to its end, from its await `n` on. -/
def play (script : Script σ Op Reply) : Async σ Op Reply α → ℕ → σ → α × ℕ × σ
  | done a, n, s => (a, n, s)
  | act f k, n, s => (k s).play script n (f s)
  | await op k, n, _ => (k (script n op).1).play script (n + 1) (script n op).2

variable (script : Script σ Op Reply) (n : ℕ) (s : σ)

theorem play_bind (m : Async σ Op Reply α) (g : α → Async σ Op Reply β) :
    (m.bind g).play script n s = (g (m.play script n s).1).play script
      (m.play script n s).2.1 (m.play script n s).2.2 := by
  induction m generalizing n s with
  | done a => rfl
  | act f k ih => exact ih _ _ _
  | await op k ih => exact ih _ _ _

section PlayRules

variable {ε : Type}

@[simp] theorem play_wait {op : Op} :
    (wait op : Async σ Op Reply (Reply op)).play script n s =
      ((script n op).1, n + 1, (script n op).2) := rfl

@[simp] theorem play_pure (a : α) :
    (pure a : ExceptT ε (Async σ Op Reply) α).run.play script n s = (.ok a, n, s) := rfl

@[simp] theorem play_throw (e : ε) :
    (throw e : ExceptT ε (Async σ Op Reply) α).run.play script n s = (.error e, n, s) := rfl

@[simp] theorem play_get :
    (getThe σ : ExceptT ε (Async σ Op Reply) σ).run.play script n s = (.ok s, n, s) := rfl

@[simp] theorem play_modify (f : σ → σ) :
    (modifyThe σ f : ExceptT ε (Async σ Op Reply) PUnit).run.play script n s =
      (.ok ⟨⟩, n, f s) := rfl

@[simp] theorem play_liftExcept (x : Except ε α) :
    (liftM x : ExceptT ε (Async σ Op Reply) α).run.play script n s = (x, n, s) := rfl

@[simp] theorem play_lift (m : Async σ Op Reply α) :
    (liftM m : ExceptT ε (Async σ Op Reply) α).run.play script n s =
      (.ok (m.play script n s).1, (m.play script n s).2) :=
  play_bind script n s m _

theorem play_bindExcept (m : ExceptT ε (Async σ Op Reply) α)
    (g : α → ExceptT ε (Async σ Op Reply) β) :
    (m >>= g).run.play script n s = match m.run.play script n s with
      | (.ok a, n, s) => (g a).run.play script n s
      | (.error e, n, s) => (.error e, n, s) := by
  refine (play_bind script n s m.run _).trans ?_
  rcases m.run.play script n s with ⟨_ | _, _, _⟩ <;> rfl

theorem play_tryCatch (m : ExceptT ε (Async σ Op Reply) α)
    (handler : ε → ExceptT ε (Async σ Op Reply) α) :
    (tryCatch m handler).run.play script n s = match m.run.play script n s with
      | (.ok a, n, s) => (.ok a, n, s)
      | (.error e, n, s) => (handler e).run.play script n s := by
  refine (play_bind script n s m.run _).trans ?_
  rcases m.run.play script n s with ⟨_ | _, _, _⟩ <;> rfl

end PlayRules

end Async

/-! ## The loop -/

/-- The memory, and what is left to run of each call that has begun. -/
structure Loop (ι σ Op : Type) (Reply : Op → Type) (α : Type) where
  memory : σ
  calls : ι → Option (Async σ Op Reply α)

/-- The calls, how an operation of each may be answered, and what else happens. -/
structure System (ι σ Op : Type) (Reply : Op → Type) (α χ ε : Type) where
  program : ι → Async σ Op Reply α
  answer : ι → (op : Op) → χ → σ → Option (Reply op × σ)
  event : ε → σ → Option σ

inductive Label (ι χ ε : Type) where
  | call (i : ι)
  | answer (i : ι) (c : χ)
  | event (e : ε)

variable {ι σ Op : Type} {Reply : Op → Type} {α χ ε : Type}

/-! ### The order of calls and answers -/

section Order

def Label.called : Label ι χ ε → Option ι
  | .call i => some i
  | _ => none

def Label.answered : Label ι χ ε → Option ι
  | .answer i _ => some i
  | _ => none

/-- The calls in the order in which they are made. -/
def issued (as : List (Label ι χ ε)) : List ι := as.filterMap Label.called

/-- The calls in the order in which they are answered. -/
def arrived (as : List (Label ι χ ε)) : List ι := as.filterMap Label.answered

/-- The answers since the last call. -/
def arrivedSince (as : List (Label ι χ ε)) : List ι := arrived (as.rtakeWhile (·.called.isNone))

variable (as : List (Label ι χ ε)) (i : ι) (c : χ)

@[simp] theorem issued_concat_call : issued (as ++ [.call i]) = issued as ++ [i] := by
  simp [issued, Label.called]

@[simp] theorem issued_concat_answer : issued (as ++ [.answer i c]) = issued as := by
  simp [issued, Label.called]

@[simp] theorem issued_concat_event (e : ε) : issued (as ++ [.event e]) = issued as := by
  simp [issued, Label.called]

@[simp] theorem arrived_concat_call : arrived (as ++ [.call i]) = arrived as := by
  simp [arrived, Label.answered]

@[simp] theorem arrived_concat_answer : arrived (as ++ [.answer i c]) = arrived as ++ [i] := by
  simp [arrived, Label.answered]

@[simp] theorem arrived_concat_event (e : ε) : arrived (as ++ [.event e]) = arrived as := by
  simp [arrived, Label.answered]

@[simp] theorem arrivedSince_concat_call : arrivedSince (as ++ [.call i]) = [] := by
  rw [arrivedSince, List.rtakeWhile_concat_neg _ _ _ (by simp [Label.called])]
  rfl

@[simp] theorem arrivedSince_concat_answer :
    arrivedSince (as ++ [.answer i c]) = arrivedSince as ++ [i] := by
  rw [arrivedSince, List.rtakeWhile_concat_pos _ _ _ rfl, arrived_concat_answer, arrivedSince]

/-- The steps since call `i` was made. -/
def since [DecidableEq ι] : List (Label ι χ ε) := as.rtakeWhile (·.called ≠ some i)

section Since

variable [DecidableEq ι]

@[simp] theorem since_concat_call : since (as ++ [.call i]) i = [] :=
  List.rtakeWhile_concat_neg _ _ _ (by simp [Label.called])

theorem since_concat {a : Label ι χ ε} (ha : a.called ≠ some i) :
    since (as ++ [a]) i = since as i ++ [a] :=
  List.rtakeWhile_concat_pos _ _ _ (by simpa using ha)

end Since

end Order

def Loop.init (s : σ) : Loop ι σ Op Reply α := ⟨s, fun _ => none⟩

variable [DecidableEq ι]

def Loop.put (s : Loop ι σ Op Reply α) (i : ι) (m : Async σ Op Reply α × σ) :
    Loop ι σ Op Reply α :=
  ⟨m.2, Function.update s.calls i (some m.1)⟩

def System.next (S : System ι σ Op Reply α χ ε) (s : Loop ι σ Op Reply α) :
    Label ι χ ε → Option (Loop ι σ Op Reply α)
  | .call i =>
    match s.calls i with
    | none => some (s.put i ((S.program i).settle s.memory))
    | some _ => none
  | .answer i c =>
    match s.calls i with
    | some (.await op k) =>
      (S.answer i op c s.memory).map fun m => s.put i ((k m.1).settle m.2)
    | _ => none
  | .event e => (S.event e s.memory).map fun m => { s with memory := m }

def System.Step (S : System ι σ Op Reply α χ ε) (s : Loop ι σ Op Reply α) (a : Label ι χ ε)
    (s' : Loop ι σ Op Reply α) : Prop :=
  S.next s a = some s'

/-- What call `i` waits for. -/
def Loop.pending (s : Loop ι σ Op Reply α) (i : ι) : Option Op := (s.calls i).bind Async.pending

def Loop.result (s : Loop ι σ Op Reply α) (i : ι) : Option α := (s.calls i).bind Async.result

section Put

variable (s : Loop ι σ Op Reply α) (i : ι) (m : Async σ Op Reply α × σ)

@[simp] theorem put_memory : (s.put i m).memory = m.2 := rfl
@[simp] theorem put_calls_self : (s.put i m).calls i = some m.1 := by simp [Loop.put]
@[simp] theorem put_calls_of_ne {j : ι} (h : j ≠ i) : (s.put i m).calls j = s.calls j := by
  simp [Loop.put, h]

end Put

/-- What one step of call `i` does to it and to the memory. -/
inductive System.Moves (S : System ι σ Op Reply α χ ε) (i : ι) :
    Option (Async σ Op Reply α) → σ → Async σ Op Reply α × σ → Prop where
  | call (m : σ) : S.Moves i none m ((S.program i).settle m)
  | answer {op : Op} {k : Reply op → Async σ Op Reply α} {m m' : σ} {r : Reply op} (c : χ) :
      S.answer i op c m = some (r, m') → S.Moves i (some (.await op k)) m ((k r).settle m')

/-- A step with what it finds and what it leaves. -/
inductive System.Takes (S : System ι σ Op Reply α χ ε) (s : Loop ι σ Op Reply α) :
    Label ι χ ε → Loop ι σ Op Reply α → Prop where
  | call {i : ι} : s.calls i = none →
      S.Takes s (.call i) (s.put i ((S.program i).settle s.memory))
  | answer {i : ι} {c : χ} {op : Op} {k : Reply op → Async σ Op Reply α} {r : Reply op} {m : σ} :
      s.calls i = some (.await op k) → S.answer i op c s.memory = some (r, m) →
      S.Takes s (.answer i c) (s.put i ((k r).settle m))
  | event {e : ε} {m : σ} : S.event e s.memory = some m →
      S.Takes s (.event e) { s with memory := m }

theorem step_takes {S : System ι σ Op Reply α χ ε} {s s' : Loop ι σ Op Reply α} {a : Label ι χ ε}
    (h : S.Step s a s') : S.Takes s a s' := by
  cases a with
  | call i =>
    simp only [System.Step, System.next] at h
    split at h
    · next hc => cases h; exact .call hc
    · cases h
  | answer i c =>
    simp only [System.Step, System.next] at h
    split at h
    · next op k hc =>
      obtain ⟨⟨r, m⟩, hr, rfl⟩ := Option.map_eq_some_iff.mp h
      exact .answer hc hr
    · cases h
  | event e =>
    obtain ⟨m, hm, rfl⟩ := Option.map_eq_some_iff.mp h
    exact .event hm

theorem System.Takes.step {S : System ι σ Op Reply α χ ε} {s s' : Loop ι σ Op Reply α}
    {a : Label ι χ ε} (h : S.Takes s a s') : S.Step s a s' := by
  cases h with
  | call hc => simp only [System.Step, System.next, hc]
  | answer hc hr => simp only [System.Step, System.next, hc, hr, Option.map_some]
  | event hm => simp only [System.Step, System.next, hm, Option.map_some]

theorem step_cases {S : System ι σ Op Reply α χ ε} {s s' : Loop ι σ Op Reply α} {a : Label ι χ ε}
    (h : S.Step s a s') :
    (∃ i m, S.Moves i (s.calls i) s.memory m ∧ s' = s.put i m) ∨
    (∃ e m, a = .event e ∧ S.event e s.memory = some m ∧ s' = { s with memory := m }) := by
  cases step_takes h with
  | call hc => exact Or.inl ⟨_, _, hc ▸ .call _, rfl⟩
  | answer hc hr => exact Or.inl ⟨_, _, hc ▸ .answer _ hr, rfl⟩
  | event hm => exact Or.inr ⟨_, _, rfl, hm, rfl⟩

/-- An invariant `I` of the memory with an assertion `A i` on each call: every step of a
call keeps `I` and its own assertion, and neither the steps of the other calls nor the
events invalidate it. -/
theorem invariant_of_local {S : System ι σ Op Reply α χ ε} {I : σ → Prop}
    {A : ι → Option (Async σ Op Reply α) → σ → Prop} {m₀ : σ} (hI : I m₀)
    (hA : ∀ i, A i none m₀)
    (hown : ∀ i c m m', I m → A i c m → S.Moves i c m m' → I m'.2 ∧ A i (some m'.1) m'.2)
    (hothers : ∀ i j cᵢ cⱼ m m', j ≠ i → I m → A i cᵢ m → A j cⱼ m → S.Moves i cᵢ m m' →
      A j cⱼ m'.2)
    (hevent : ∀ e m m', I m → S.event e m = some m' → I m' ∧ ∀ i c, A i c m → A i c m')
    {as : List (Label ι χ ε)} {s : Loop ι σ Op Reply α}
    (h : Runs.Run S.Step (Loop.init m₀) as s) : I s.memory ∧ ∀ i, A i (s.calls i) s.memory := by
  refine h.invariant (I := fun s => I s.memory ∧ ∀ i, A i (s.calls i) s.memory) ⟨hI, hA⟩ ?_
  rintro s a s' ⟨hs, hcalls⟩ hstep
  rcases step_cases hstep with ⟨i, m, hm, rfl⟩ | ⟨e, m, -, hm, rfl⟩
  · obtain ⟨hI', hA'⟩ := hown i _ _ _ hs (hcalls i) hm
    refine ⟨hI', fun j => ?_⟩
    by_cases hj : j = i
    · subst hj; simpa using hA'
    · simpa [hj] using hothers i j _ _ _ _ hj hs (hcalls i) (hcalls j) hm
  · obtain ⟨hI', hA'⟩ := hevent e _ _ hs hm
    exact ⟨hI', fun i => hA' i _ (hcalls i)⟩

section Scripts

namespace Async

variable {p m : Async σ Op Reply α}

theorem play_settle (script : Script σ Op Reply) (n : ℕ) (m : Async σ Op Reply α) (s s' : σ) :
    ((m.settle s).1.play script n s').1 = (m.play script n s).1 := by
  induction m generalizing s with
  | done a => rfl
  | act f k ih => exact ih _ _
  | await op k => rfl

/-- `m` is what some script has left to run of `p`. -/
def Leaves (p m : Async σ Op Reply α) : Prop :=
  ∃ (n : ℕ) (s₀ : σ) (script : Script σ Op Reply), ∀ script' : Script σ Op Reply,
    (∀ k < n, script' k = script k) → ∀ s, (p.play script' 0 s₀).1 = (m.play script' n s).1

variable (p) in
theorem leaves_settle [∀ op, Nonempty (Reply op)] (s : σ) : p.Leaves (p.settle s).1 :=
  ⟨0, s, fun _ _ => ⟨Classical.arbitrary _, s⟩, fun script _ s' => (play_settle script 0 p s s').symm⟩

theorem Leaves.answer {op : Op} {k : Reply op → Async σ Op Reply α} (h : p.Leaves (.await op k))
    (r : Reply op) (s : σ) : p.Leaves ((k r).settle s).1 := by
  classical
  obtain ⟨n, s₀, script, hscript⟩ := h
  refine ⟨n + 1, s₀, Function.update script n (Function.update (script n) op (r, s)),
    fun script' hagree s' => ?_⟩
  have hbelow : ∀ k < n, script' k = script k := fun k hk => by
    rw [hagree k (by omega), Function.update_of_ne hk.ne]
  have hreply : script' n op = (r, s) := by
    rw [hagree n (by omega), Function.update_self, Function.update_self]
  rw [hscript script' hbelow s, play, hreply, play_settle]

theorem Leaves.result {a : α} (h : p.Leaves m) (ha : m.result = some a) :
    ∃ script s, (p.play script 0 s).1 = a := by
  obtain ⟨n, s₀, script, hscript⟩ := h
  refine ⟨script, s₀, (hscript script (fun _ _ => rfl) s₀).trans ?_⟩
  cases m with
  | done a' =>
    cases ha
    rfl
  | act f k => cases ha
  | await op k => cases ha

end Async

/-- Whatever the other calls do, a call of a run returns what it returns for some script. -/
theorem exists_script [∀ op, Nonempty (Reply op)] {S : System ι σ Op Reply α χ ε} {m₀ : σ}
    {as : List (Label ι χ ε)} {s : Loop ι σ Op Reply α}
    (h : Runs.Run S.Step (Loop.init m₀) as s) {i : ι} {a : α} (hresult : s.result i = some a) :
    ∃ script m, ((S.program i).play script 0 m).1 = a := by
  have hleft : ∀ t, s.calls i = some t → (S.program i).Leaves t := by
    refine (invariant_of_local (I := fun _ => True)
      (A := fun i c _ => ∀ t, c = some t → (S.program i).Leaves t) trivial (by simp) ?_ ?_ ?_ h).2 i
    · intro i c m m' _ hc hmoves
      refine ⟨trivial, fun t ht => ?_⟩
      cases ht
      cases hmoves with
      | call => exact Async.leaves_settle _ m
      | answer c _ => exact (hc _ rfl).answer _ _
    · exact fun _ _ _ _ _ _ _ _ _ hcj _ => hcj
    · exact fun _ _ _ _ _ => ⟨trivial, fun _ _ hc => hc⟩
  obtain ⟨t, ht, hdone⟩ := Option.bind_eq_some_iff.mp hresult
  exact (hleft t ht).result hdone

end Scripts

/-- What one step does, where `B` says what a call does when it is made and `E` what it does
when it is answered. The other calls wait for what they waited for. -/
inductive System.Effect (S : System ι σ Op Reply α χ ε) (B : ι → σ → Option Op → σ → Prop)
    (E : (op : Op) → Reply op → σ → Option Op → σ → Prop) (s : Loop ι σ Op Reply α) :
    Label ι χ ε → Loop ι σ Op Reply α → Prop where
  | call {i : ι} {s' : Loop ι σ Op Reply α} : s.calls i = none →
      B i s.memory (s'.pending i) s'.memory → (∀ j, j ≠ i → s'.pending j = s.pending j) →
      S.Effect B E s (.call i) s'
  | answer {i : ι} {c : χ} {op : Op} {r : Reply op} {m : σ} {s' : Loop ι σ Op Reply α} :
      s.pending i = some op → S.answer i op c s.memory = some (r, m) →
      E op r m (s'.pending i) s'.memory → (∀ j, j ≠ i → s'.pending j = s.pending j) →
      S.Effect B E s (.answer i c) s'
  | event {e : ε} {m : σ} : S.event e s.memory = some m →
      S.Effect B E s (.event e) { s with memory := m }

/-- The rule for what single steps do: the programs' specifications hold of every step of
every run. -/
theorem effect_of_step {S : System ι σ Op Reply α χ ε} {B : ι → σ → Option Op → σ → Prop}
    {E : (op : Op) → Reply op → σ → Option Op → σ → Prop}
    (hprogram : ∀ i m, (S.program i).Flows E (B i m) m) {m₀ : σ} {as : List (Label ι χ ε)}
    {s s' : Loop ι σ Op Reply α} {a : Label ι χ ε}
    (h : Runs.Run S.Step (Loop.init m₀) as s) (hstep : S.Step s a s') : S.Effect B E s a s' := by
  have hcontinues : ∀ i t, s.calls i = some t → t.Continues E := by
    intro i
    refine (invariant_of_local (I := fun _ => True)
      (A := fun _ c _ => ∀ t, c = some t → t.Continues E) trivial (by simp) ?_ ?_ ?_ h).2 i
    · intro i c m m' _ hc hmoves
      refine ⟨trivial, fun t ht => ?_⟩
      cases ht
      cases hmoves with
      | call => exact (hprogram i m).settle.2
      | answer c _ => exact (hc _ rfl _ _).settle.2
    · exact fun _ _ _ _ _ _ _ _ _ hcj _ => hcj
    · exact fun _ _ _ _ _ => ⟨trivial, fun _ _ hc => hc⟩
  have hothers : ∀ {i m} j, j ≠ i → (s.put i m).pending j = s.pending j := fun j hj => by
    rw [Loop.pending, put_calls_of_ne _ _ _ hj, Loop.pending]
  have hself : ∀ {i m}, (s.put i m).pending i = m.1.pending := by simp [Loop.pending]
  cases step_takes hstep with
  | call hc => exact .call hc (hself ▸ (hprogram _ s.memory).settle.1) hothers
  | answer hc hr =>
    refine .answer (by rw [Loop.pending, hc]; rfl) hr ?_ hothers
    exact hself ▸ (hcontinues _ _ hc _ _).settle.1
  | event hm => exact .event hm

/-- While a call waits the memory may change in any way. -/
def AnyChange (_ _ : σ) : Prop := True

instance : Std.Refl (AnyChange : σ → σ → Prop) := ⟨fun _ => trivial⟩

instance : IsTrans σ AnyChange := ⟨fun _ _ _ _ _ => trivial⟩

/-- The rule for programs that keep `I` from one await to the next, and return what meets
`Q`. -/
theorem results_of_wp {S : System ι σ Op Reply α χ ε} {I : σ → Prop} {R : σ → σ → Prop}
    [Std.Refl R] [IsTrans σ R] {Q : ι → α → Prop} {m₀ : σ} (h₀ : I m₀)
    (hprogram : ∀ i m, I m → (S.program i).wp I R (fun a s₀ s => Q i a ∧ I s ∧ R s₀ s) m m)
    (hanswer : ∀ i op c m r m', I m → S.answer i op c m = some (r, m') → I m' ∧ R m m')
    (hevent : ∀ e m m', I m → S.event e m = some m' → I m' ∧ R m m')
    {as : List (Label ι χ ε)} {s : Loop ι σ Op Reply α}
    (h : Runs.Run S.Step (Loop.init m₀) as s) :
    I s.memory ∧ ∀ i a, s.result i = some a → Q i a := by
  have hmove : ∀ {i c m m'}, I m → (∀ t, c = some t → t.Upholds I R (Q i) m) → S.Moves i c m m' →
      I m'.2 ∧ R m m'.2 ∧ m'.1.Upholds I R (Q i) m'.2 := by
    intro i c m m' hm hc hmoves
    cases hmoves with
    | call => exact Async.wp_settle (hprogram i m hm)
    | answer c hanswered =>
      obtain ⟨hI, hR⟩ := hanswer i _ c m _ _ hm hanswered
      obtain ⟨hI', hR', hup⟩ := Async.wp_settle (hc _ rfl _ _ hR hI)
      exact ⟨hI', IsTrans.trans _ _ _ hR hR', hup⟩
  have hrun : I s.memory ∧ ∀ i t, s.calls i = some t → t.Upholds I R (Q i) s.memory := by
    refine invariant_of_local (A := fun i c m => ∀ t, c = some t → t.Upholds I R (Q i) m) h₀
      (by simp) ?_ ?_ ?_ h
    · intro i c m m' hm hc hmoves
      obtain ⟨hI, -, hup⟩ := hmove hm hc hmoves
      refine ⟨hI, fun t ht => ?_⟩
      cases ht
      exact hup
    · intro i j cᵢ cⱼ m m' _ hm hci hcj hmoves t ht
      exact (hcj t ht).mono (hmove hm hci hmoves).2.1
    · intro e m m' hm he
      obtain ⟨hI, hR⟩ := hevent e m m' hm he
      exact ⟨hI, fun i c hc t ht => (hc t ht).mono hR⟩
  refine ⟨hrun.1, fun i a ha => ?_⟩
  obtain ⟨t, ht, hresult⟩ := Option.bind_eq_some_iff.mp ha
  exact (hrun.2 i t ht).result hresult

theorem invariant_of_wp {S : System ι σ Op Reply α χ ε} {I : σ → Prop} {R : σ → σ → Prop}
    [Std.Refl R] [IsTrans σ R] {m₀ : σ} (h₀ : I m₀)
    (hprogram : ∀ i m, I m → (S.program i).wp I R (fun _ s₀ s => I s ∧ R s₀ s) m m)
    (hanswer : ∀ i op c m r m', I m → S.answer i op c m = some (r, m') → I m' ∧ R m m')
    (hevent : ∀ e m m', I m → S.event e m = some m' → I m' ∧ R m m')
    {as : List (Label ι χ ε)} {s : Loop ι σ Op Reply α}
    (h : Runs.Run S.Step (Loop.init m₀) as s) : I s.memory := by
  refine (results_of_wp (Q := fun _ _ => True) h₀ (fun i m hm => ?_) hanswer hevent h).1
  simpa using hprogram i m hm

/-- What a run does depends on the programs of the calls that it makes only. -/
theorem run_of_programs_eq {S : System ι σ Op Reply α χ ε} (program : ι → Async σ Op Reply α)
    {m₀ : σ} {as : List (Label ι χ ε)} {s : Loop ι σ Op Reply α}
    (h : Runs.Run S.Step (Loop.init m₀) as s)
    (hprogram : ∀ i, .call i ∈ as → S.program i = program i) :
    Runs.Run { S with program := program }.Step (Loop.init m₀) as s := by
  induction h with
  | nil => exact .nil
  | @snoc as s s' a _ hstep ih =>
    refine .snoc (ih fun i hi => hprogram i (List.mem_append_left _ hi)) ?_
    cases a with
    | call i =>
      have hi : S.program i = program i :=
        hprogram i (List.mem_append_right _ (List.mem_singleton_self _))
      simpa only [System.Step, System.next, hi] using hstep
    | answer i c => exact hstep
    | event e => exact hstep

/-- The calls that were made are those in the loop, and only they are answered. -/
theorem mem_issued_iff {S : System ι σ Op Reply α χ ε} {m₀ : σ} {as : List (Label ι χ ε)}
    {s : Loop ι σ Op Reply α} (h : Runs.Run S.Step (Loop.init m₀) as s) :
    (∀ i, i ∈ issued as ↔ s.calls i ≠ none) ∧ ∀ i ∈ arrived as, i ∈ issued as := by
  refine h.history (I := fun as s => (∀ i, i ∈ issued as ↔ s.calls i ≠ none) ∧
    ∀ i ∈ arrived as, i ∈ issued as) ⟨fun i => by simp [issued, Loop.init], by simp [arrived]⟩ ?_
  rintro as s a s' ⟨hissued, harrived⟩ hstep
  cases step_takes hstep with
  | @call j hc =>
    refine ⟨fun i => ?_, fun i hi => ?_⟩
    · by_cases hij : i = j
      · subst hij
        simp
      · simp [hij, hissued]
    · rw [arrived_concat_call] at hi
      simp [harrived i hi]
  | @answer j c op k r m hc hr =>
    have hj : j ∈ issued as := (hissued j).mpr (by simp [hc])
    refine ⟨fun i => ?_, fun i hi => ?_⟩
    · by_cases hij : i = j
      · subst hij
        simpa using hj
      · simp [hij, hissued]
    · rw [arrived_concat_answer, List.mem_append, List.mem_singleton] at hi
      rw [issued_concat_answer]
      rcases hi with hi | rfl
      · exact harrived i hi
      · exact hj
  | @event e m hm =>
    rw [issued_concat_event, arrived_concat_event]
    exact ⟨hissued, harrived⟩

/-- Only a call that was made returns. -/
theorem made_of_result {S : System ι σ Op Reply α χ ε} {m₀ : σ} {as : List (Label ι χ ε)}
    {s : Loop ι σ Op Reply α} (h : Runs.Run S.Step (Loop.init m₀) as s) {i : ι} {a : α}
    (ha : s.result i = some a) : .call i ∈ as := by
  have hmade : s.calls i ≠ none → .call i ∈ as := fun hi => by
    obtain ⟨a, ha, hcalled⟩ := List.mem_filterMap.mp ((mem_issued_iff h).1 i |>.mpr hi)
    cases a with
    | call j =>
      cases hcalled
      exact ha
    | answer j c => cases hcalled
    | event e => cases hcalled
  refine hmade fun hnone => ?_
  rw [Loop.result, hnone] at ha
  cases ha

/-- A call that was just made has run up to its first await. -/
theorem pending_of_last_call {S : System ι σ Op Reply α χ ε} {m₀ : σ}
    {as : List (Label ι χ ε)} {i : ι} {s : Loop ι σ Op Reply α}
    (h : Runs.Run S.Step (Loop.init m₀) (as ++ [.call i]) s) :
    ∃ m, s.pending i = ((S.program i).settle m).1.pending := by
  obtain ⟨s', -, hstep⟩ := Runs.Run.of_concat h
  cases step_takes hstep with
  | call hc => exact ⟨s'.memory, by simp [Loop.pending]⟩

end EventLoop
