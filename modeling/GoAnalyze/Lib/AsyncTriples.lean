import GoAnalyze.Lib.Zoom

/-! Rely-guarantee triples for async functions. While a call waits, the others change the
memory; the triple of a call says what it relies on, what it guarantees, what it may ask
for, and what it returns. -/

namespace EventLoop

/-- What holds of the memory at every await; what a call may do between two awaits, and
what the others may do while it waits; what it may wait for, and what is known of a reply
when it comes. -/
structure RelyGuarantee (σ Op : Type) (Reply : Op → Type) where
  inv : σ → Prop
  guar : σ → σ → Prop
  rely : σ → σ → Prop
  asks : Op → σ → Prop
  replies : (op : Op) → Reply op → σ → Prop
  guar_refl : ∀ s, guar s s
  guar_trans : ∀ {s t u}, guar s t → guar t u → guar s u
  rely_trans : ∀ {s t u}, rely s t → rely t u → rely s u
  asks_rely : ∀ {op s t}, asks op s → rely s t → asks op t

/-- The contract of calls that read the memory only, whatever the others do. -/
def RelyGuarantee.readOnly {σ Op : Type} {Reply : Op → Type} (inv : σ → Prop) (asks : Op → Prop)
    (replies : (op : Op) → Reply op → Prop) : RelyGuarantee σ Op Reply where
  inv := inv
  guar := Eq
  rely _ _ := True
  asks op _ := asks op
  replies op r _ := replies op r
  guar_refl _ := rfl
  guar_trans := Eq.trans
  rely_trans _ _ := trivial
  asks_rely h _ := h

variable {σ τ Op Op' : Type} {Reply : Op → Type} {Reply' : Op' → Type} {α β ε : Type}

/-- What neither the call nor the others can undo. -/
structure RelyGuarantee.Stable (C : RelyGuarantee σ Op Reply) (F : σ → Prop) : Prop where
  guar : ∀ {s t}, F s → C.guar s t → F t
  rely : ∀ {s t}, F s → C.rely s t → F t

namespace Async

/-- From its last resumption in `s₀` and now in `s`, the call keeps the contract and ends
in `Q`. -/
def Meets (C : RelyGuarantee σ Op Reply) (Q : α → σ → Prop) : Async σ Op Reply α → σ → σ → Prop
  | done a, s₀, s => Q a s ∧ C.inv s ∧ C.guar s₀ s
  | act f k, s₀, s => (k s).Meets C Q s₀ (f s)
  | await op k, s₀, s => C.asks op s ∧ C.inv s ∧ C.guar s₀ s ∧ ∀ r s', C.rely s s' → C.inv s' →
      C.replies op r s' → (k r).Meets C Q s' s'

variable {C : RelyGuarantee σ Op Reply} {Q Q' : α → σ → Prop} {m : Async σ Op Reply α}
  {s₀ s₁ s : σ}

theorem Meets.mono (h : m.Meets C Q s₀ s) (hQ : ∀ a s, Q a s → Q' a s) : m.Meets C Q' s₀ s := by
  induction m generalizing s₀ s with
  | done a => exact ⟨hQ a s h.1, h.2⟩
  | act f k ih => exact ih s h
  | await op k ih =>
    exact ⟨h.1, h.2.1, h.2.2.1, fun r s' hg hi hr => ih r (h.2.2.2 r s' hg hi hr)⟩

/-- The last resumption may be an earlier one. -/
theorem Meets.earlier (h : m.Meets C Q s₁ s) (hg : C.guar s₀ s₁) : m.Meets C Q s₀ s := by
  induction m generalizing s with
  | done a => exact ⟨h.1, h.2.1, C.guar_trans hg h.2.2⟩
  | act f k ih => exact ih s h
  | await op k => exact ⟨h.1, h.2.1, C.guar_trans hg h.2.2.1, h.2.2.2⟩

theorem Meets.frame {F : σ → Prop} (hF : C.Stable F) (h₀ : F s₀) (h : m.Meets C Q s₀ s) :
    m.Meets C (fun a s => Q a s ∧ F s) s₀ s := by
  induction m generalizing s₀ s with
  | done a => exact ⟨⟨h.1, hF.guar h₀ h.2.2⟩, h.2⟩
  | act f k ih => exact ih s h₀ h
  | await op k ih =>
    exact ⟨h.1, h.2.1, h.2.2.1, fun r s' hg hi hr =>
      ih r (hF.rely (hF.guar h₀ h.2.2.1) hg) (h.2.2.2 r s' hg hi hr)⟩

theorem Meets.bind {g : α → Async σ Op Reply β} {R : β → σ → Prop} (h : m.Meets C Q s₀ s)
    (hg : ∀ a s, Q a s → C.inv s → (g a).Meets C R s s) : (m.bind g).Meets C R s₀ s := by
  induction m generalizing s₀ s with
  | done a => exact (hg a s h.1 h.2.1).earlier h.2.2
  | act f k ih => exact ih s h
  | await op k ih =>
    exact ⟨h.1, h.2.1, h.2.2.1, fun r s' hs hi hr => ih r (h.2.2.2 r s' hs hi hr)⟩

/-- What a call in flight still has to keep. -/
def Owes (C : RelyGuarantee σ Op Reply) (Q : α → σ → Prop) : Async σ Op Reply α → σ → Prop
  | done a, s => Q a s
  | act _ _, _ => True
  | await op k, s => C.asks op s ∧ ∀ r s', C.rely s s' → C.inv s' → C.replies op r s' →
      (k r).Meets C Q s' s'

theorem Meets.settle (h : m.Meets C Q s₀ s) :
    C.inv (m.settle s).2 ∧ C.guar s₀ (m.settle s).2 ∧ (m.settle s).1.Owes C Q (m.settle s).2 := by
  induction m generalizing s with
  | done a => exact ⟨h.2.1, h.2.2, h.1⟩
  | act f k ih => exact ih s h
  | await op k => exact ⟨h.2.1, h.2.2.1, h.1, h.2.2.2⟩

theorem Owes.mono (hQ : ∀ {a s t}, Q a s → C.rely s t → Q a t) (h : m.Owes C Q s)
    {t : σ} (hg : C.rely s t) : m.Owes C Q t := by
  cases m with
  | done a => exact hQ h hg
  | act f k => trivial
  | await op k => exact ⟨C.asks_rely h.1 hg, fun r s' hs => h.2 r s' (C.rely_trans hg hs)⟩

end Async

/-! ## Triples -/

/-- Where `p` holds before `m`, the contract is kept, and `q` holds of its result after it. -/
def Triple (C : RelyGuarantee σ Op Reply) (p : σ → Prop) (m : Async σ Op Reply α)
    (q : α → σ → Prop) : Prop :=
  ∀ s, C.inv s → p s → m.Meets C q s s

namespace Triple

variable {C : RelyGuarantee σ Op Reply} {p p' : σ → Prop} {q q' : α → σ → Prop}
  {m : Async σ Op Reply α}

theorem consequence (h : Triple C p m q) (hp : ∀ s, p' s → p s) (hq : ∀ a s, q a s → q' a s) :
    Triple C p' m q' :=
  fun s hi hs => (h s hi (hp s hs)).mono hq

theorem frame {F : σ → Prop} (hF : C.Stable F) (h : Triple C p m q) :
    Triple C (fun s => p s ∧ F s) m fun a s => q a s ∧ F s :=
  fun s hi hs => (h s hi hs.1).frame hF hs.2

theorem pure {a : α} (h : ∀ s, C.inv s → p s → q a s) : Triple C p (.done a) q :=
  fun s hi hs => ⟨h s hi hs, hi, C.guar_refl s⟩

theorem bind {g : α → Async σ Op Reply β} {r : β → σ → Prop} (hm : Triple C p m q)
    (hg : ∀ a, Triple C (q a) (g a) r) : Triple C p (m.bind g) r :=
  fun s hi hs => (hm s hi hs).bind fun a t ht hit => hg a t hit ht

/-- A precondition that does not depend on the memory is a hypothesis. -/
theorem of_and {a : Prop} (h : a → Triple C p m q) : Triple C (fun s => a ∧ p s) m q :=
  fun s hi hs => h hs.1 s hi hs.2

theorem of_true (h : Triple C (fun _ => True) m q) : Triple C p m q :=
  h.consequence (fun _ _ => trivial) fun _ _ hq => hq

theorem wait {op : Op} (h : ∀ s, p s → C.asks op s) :
    Triple C p (Async.wait op : Async σ Op Reply (Reply op)) fun r s => C.replies op r s :=
  fun s hi hs => ⟨h s hs, hi, C.guar_refl s, fun _ s' _ hi' hr => ⟨hr, hi', C.guar_refl s'⟩⟩

theorem get : Triple C p (MonadStateOf.get : Async σ Op Reply σ) fun a s => a = s ∧ p s :=
  fun s hi hs => ⟨⟨rfl, hs⟩, hi, C.guar_refl s⟩

theorem modify {f : σ → σ} {q : σ → Prop}
    (h : ∀ s, C.inv s → p s → q (f s) ∧ C.inv (f s) ∧ C.guar s (f s)) :
    Triple C p (modifyThe σ f : Async σ Op Reply PUnit) fun _ => q :=
  fun s hi hs => h s hi hs

/-- The same by what holds of an exception and of a value. -/
theorem bindExcept {m : ExceptT ε (Async σ Op Reply) α} {g : α → ExceptT ε (Async σ Op Reply) β}
    {q : Except ε α → σ → Prop} {r : Except ε β → σ → Prop} (hm : Triple C p m.run q)
    (hok : ∀ a, Triple C (q (.ok a)) (g a).run r)
    (herror : ∀ e s, q (.error e) s → r (.error e) s) : Triple C p (m >>= g).run r :=
  hm.bind fun
    | .ok a => hok a
    | .error e => pure fun s _ hs => herror e s hs

theorem tryCatch {m : ExceptT ε (Async σ Op Reply) α} {h : ε → ExceptT ε (Async σ Op Reply) α}
    {q r : Except ε α → σ → Prop} (hm : Triple C p m.run q)
    (hok : ∀ a s, q (.ok a) s → r (.ok a) s) (herror : ∀ e, Triple C (q (.error e)) (h e).run r) :
    Triple C p (MonadExcept.tryCatch m h).run r :=
  hm.bind fun
    | .ok a => pure fun s _ hs => hok a s hs
    | .error e => herror e

/-- A function that does not raise, among functions that may. -/
theorem lift {q : Except ε α → σ → Prop} (h : Triple C p m fun a => q (.ok a)) :
    Triple C p (liftM m : ExceptT ε (Async σ Op Reply) α).run q :=
  h.bind fun _ => pure fun _ _ hs => hs

end Triple

/-! ## Functions that raise -/

/-- `q` of the value, where there is one. -/
def Returned (q : α → σ → Prop) : Except ε α → σ → Prop
  | .ok a, s => q a s
  | .error _, _ => True

namespace Triple

variable {C : RelyGuarantee σ Op Reply} {p : σ → Prop} {q : α → σ → Prop} {r : β → σ → Prop}

theorem throw {e : ε} :
    Triple C p (MonadExcept.throw e : ExceptT ε (Async σ Op Reply) α).run (Returned q) :=
  Triple.pure fun _ _ _ => trivial

theorem value {a : α} (h : ∀ s, C.inv s → p s → q a s) :
    Triple C p (Pure.pure a : ExceptT ε (Async σ Op Reply) α).run (Returned q) :=
  Triple.pure h

theorem ofExcept {x : Except ε α} (h : ∀ a, x = .ok a → ∀ s, C.inv s → p s → q a s) :
    Triple C p (liftM x : ExceptT ε (Async σ Op Reply) α).run (Returned q) := by
  cases x with
  | ok a => exact Triple.pure (h a rfl)
  | error e => exact Triple.pure fun _ _ _ => trivial

theorem bindReturned {m : ExceptT ε (Async σ Op Reply) α} {g : α → ExceptT ε (Async σ Op Reply) β}
    (hm : Triple C p m.run (Returned q)) (hg : ∀ a, Triple C (q a) (g a).run (Returned r)) :
    Triple C p (m >>= g).run (Returned r) :=
  hm.bindExcept hg fun _ _ _ => trivial

theorem bindGet {g : σ → ExceptT ε (Async σ Op Reply) β}
    (hg : ∀ t, Triple C (fun s => t = s ∧ p s) (g t).run (Returned r)) :
    Triple C p ((liftM (MonadStateOf.get : Async σ Op Reply σ) : ExceptT ε (Async σ Op Reply) σ) >>=
      g).run (Returned r) :=
  bindReturned (q := fun t s => t = s ∧ p s) (Triple.lift Triple.get) hg

/-- What an expression that may raise gives does not depend on the memory. -/
theorem bindOk {x : Except ε α} {g : α → ExceptT ε (Async σ Op Reply) β}
    (hg : ∀ a, x = .ok a → Triple C p (g a).run (Returned r)) :
    Triple C p ((liftM x : ExceptT ε (Async σ Op Reply) α) >>= g).run (Returned r) := by
  cases x with
  | ok a => exact hg a rfl
  | error e => exact Triple.throw

theorem bindModify {f : σ → σ} {g : PUnit → ExceptT ε (Async σ Op Reply) β} {q : σ → Prop}
    (hf : ∀ s, C.inv s → p s → q (f s) ∧ C.inv (f s) ∧ C.guar s (f s))
    (hg : Triple C q (g ⟨⟩).run (Returned r)) :
    Triple C p ((liftM (modifyThe σ f : Async σ Op Reply PUnit) :
      ExceptT ε (Async σ Op Reply) PUnit) >>= g).run (Returned r) :=
  bindReturned (q := fun _ => q) (Triple.lift (Triple.modify hf)) fun _ => hg

theorem bindWait {op : Op} {g : Reply op → ExceptT ε (Async σ Op Reply) β}
    (hop : ∀ s, p s → C.asks op s)
    (hg : ∀ a, Triple C (C.replies op a) (g a).run (Returned r)) :
    Triple C p ((liftM (Async.wait op : Async σ Op Reply (Reply op)) :
      ExceptT ε (Async σ Op Reply) (Reply op)) >>= g).run (Returned r) :=
  bindReturned (q := fun a => C.replies op a) (Triple.lift (Triple.wait hop)) hg

end Triple

/-! ## Calls on a part of the memory -/

namespace Async

/-- The call on a part of the memory, with its result. -/
def focus (part : Lens τ σ) (op' : Op → Op') (reply : ∀ op, Reply' (op' op) → Reply op) :
    Async σ Op Reply α → Async τ Op' Reply' α
  | done a => done a
  | act f k => act (fun t => part.put (f (part.get t)) t)
      fun t => (k (part.get t)).focus part op' reply
  | await op k => await (op' op) fun r => (k (reply op r)).focus part op' reply

end Async

/-- The contract `C` of a part of the memory fits into `D`, while `F` holds of the whole. -/
structure Fits (C : RelyGuarantee σ Op Reply) (D : RelyGuarantee τ Op' Reply') (part : Lens τ σ)
    (op' : Op → Op') (reply : ∀ op, Reply' (op' op) → Reply op) (F : τ → Prop) : Prop where
  stable : D.Stable F
  inv : ∀ t, D.inv t → C.inv (part.get t)
  rely : ∀ {t t'}, D.rely t t' → C.rely (part.get t) (part.get t')
  put : ∀ t s, D.inv t → C.inv s → C.guar (part.get t) s →
    D.inv (part.put s t) ∧ D.guar t (part.put s t)
  asks : ∀ op t, F t → C.asks op (part.get t) → D.asks (op' op) t
  replies : ∀ op r t, D.replies (op' op) r t → C.replies op (reply op r) (part.get t)

variable {part : Lens τ σ} {op' : Op → Op'} {reply : ∀ op, Reply' (op' op) → Reply op}
  {C : RelyGuarantee σ Op Reply} {D : RelyGuarantee τ Op' Reply'} {F : τ → Prop}
  {q : α → σ → Prop}

theorem Async.Meets.focus (hfits : Fits C D part op' reply F) {m : Async σ Op Reply α} {t₀ : τ}
    {s : σ} (h₀ : D.inv t₀) (hF : F t₀) (h : m.Meets C q (part.get t₀) s) :
    (m.focus part op' reply).Meets D (fun a t => q a (part.get t)) t₀ (part.put s t₀) := by
  induction m generalizing t₀ s with
  | done a =>
    obtain ⟨hq, hi, hg⟩ := h
    refine ⟨?_, hfits.put t₀ s h₀ hi hg⟩
    dsimp only
    rwa [part.get_put]
  | act f k ih =>
    have hnext := ih s h₀ hF h
    simp only [Async.focus, Meets, part.get_put, part.put_put]
    exact hnext
  | await op k ih =>
    obtain ⟨ha, hi, hg, hk⟩ := h
    obtain ⟨hi', hg'⟩ := hfits.put t₀ s h₀ hi hg
    have hF' := hfits.stable.guar hF hg'
    refine ⟨hfits.asks op _ hF' (by rwa [part.get_put]), hi', hg', fun r t hgt hit hr => ?_⟩
    have hpart := hfits.rely hgt
    rw [part.get_put] at hpart
    have hnext := ih (reply op r) hit (hfits.stable.rely hF' hgt)
      (hk (reply op r) (part.get t) hpart (hfits.inv t hit) (hfits.replies op r t hr))
    rwa [part.put_get] at hnext

/-- A triple of a part of the memory is one of the whole, and keeps what is stable there. -/
theorem Triple.focus (hfits : Fits C D part op' reply F) {p : σ → Prop} {m : Async σ Op Reply α}
    (h : Triple C p m q) :
    Triple D (fun t => p (part.get t) ∧ F t) (m.focus part op' reply)
      fun a t => q a (part.get t) ∧ F t := by
  intro t hi hp
  have hmeets := Async.Meets.focus hfits hi hp.2 (h _ (hfits.inv t hi) hp.1)
  rw [part.put_get] at hmeets
  exact hmeets.frame hfits.stable hp.2

/-! ## The loop -/

section Run

variable {ι χ : Type} [DecidableEq ι]

/-- The rule for a system: where every program meets its triple, and answers and events keep
the contract, the invariant holds after every run, each call waits only for what it may ask
for, and returns what its triple says. -/
theorem of_run {S : System ι σ Op Reply α χ ε} {C : ι → RelyGuarantee σ Op Reply}
    {inv : σ → Prop} {rely : σ → σ → Prop} (hinv : ∀ i, (C i).inv = inv)
    (hrely : ∀ i, (C i).rely = rely) (hguar : ∀ i {s t}, (C i).guar s t → rely s t)
    {Q : ι → α → σ → Prop} (hQ : ∀ {i a s t}, Q i a s → rely s t → Q i a t) {m₀ : σ}
    (h₀ : inv m₀) (hprogram : ∀ i, Triple (C i) (fun _ => True) (S.program i) (Q i))
    (hanswer : ∀ i op c m r m', inv m → (C i).asks op m → S.answer i op c m = some (r, m') →
      inv m' ∧ rely m m' ∧ (C i).replies op r m')
    (hevent : ∀ e m m', inv m → S.event e m = some m' → inv m' ∧ rely m m')
    {as : List (Label ι χ ε)} {s : Loop ι σ Op Reply α}
    (h : Runs.Run S.Step (Loop.init m₀) as s) :
    inv s.memory ∧ ∀ i, (∀ op, s.pending i = some op → (C i).asks op s.memory) ∧
      ∀ a, s.result i = some a → Q i a s.memory := by
  have hmove : ∀ {i c m m'}, inv m → (∀ t, c = some t → t.Owes (C i) (Q i) m) →
      S.Moves i c m m' → inv m'.2 ∧ rely m m'.2 ∧ m'.1.Owes (C i) (Q i) m'.2 := by
    intro i c m m' hm hc hmoves
    cases hmoves with
    | call =>
      obtain ⟨hi, hg, ho⟩ := (hprogram i m (by rwa [hinv i]) trivial).settle
      exact ⟨hinv i ▸ hi, hguar i hg, ho⟩
    | answer c hanswered =>
      obtain ⟨hasks, hk⟩ := hc _ rfl
      obtain ⟨hi, hr, hrep⟩ := hanswer i _ c m _ _ hm hasks hanswered
      obtain ⟨hi', hg', ho⟩ := (hk _ _ (by rwa [hrely i]) (by rwa [hinv i]) hrep).settle
      refine ⟨hinv i ▸ hi', ?_, ho⟩
      have hboth := (C i).rely_trans (hrely i ▸ hr) (hrely i ▸ hguar i hg')
      rwa [hrely i] at hboth
  have howes : ∀ {i : ι} {t : Async σ Op Reply α} {m m' : σ}, t.Owes (C i) (Q i) m →
      rely m m' → t.Owes (C i) (Q i) m' := by
    intro i t m m' ht hg
    refine Async.Owes.mono (C := C i) (fun {a s t} h hst => ?_) ht (by rwa [hrely i])
    exact hQ h (by rwa [← hrely i])
  have hrun : inv s.memory ∧ ∀ i t, s.calls i = some t → t.Owes (C i) (Q i) s.memory := by
    refine invariant_of_local (A := fun i c m => ∀ t, c = some t → t.Owes (C i) (Q i) m) h₀
      (by simp) ?_ ?_ ?_ h
    · intro i c m m' hm hc hmoves
      obtain ⟨hi, -, ho⟩ := hmove hm hc hmoves
      refine ⟨hi, fun t ht => ?_⟩
      cases ht
      exact ho
    · intro i j cᵢ cⱼ m m' _ hm hci hcj hmoves t ht
      exact howes (hcj t ht) (hmove hm hci hmoves).2.1
    · intro e m m' hm he
      obtain ⟨hi, hg⟩ := hevent e m m' hm he
      exact ⟨hi, fun i c hc t ht => howes (hc t ht) hg⟩
  refine ⟨hrun.1, fun i => ⟨fun op hop => ?_, fun a ha => ?_⟩⟩
  · obtain ⟨t, ht, hpending⟩ := Option.bind_eq_some_iff.mp hop
    cases t with
    | await op' k =>
      cases hpending
      exact (hrun.2 i _ ht).1
    | done a => cases hpending
    | act f k => cases hpending
  · obtain ⟨t, ht, hresult⟩ := Option.bind_eq_some_iff.mp ha
    cases t with
    | done a' =>
      cases hresult
      exact hrun.2 i _ ht
    | await op' k => cases hresult
    | act f k => cases hresult

end Run

end EventLoop
