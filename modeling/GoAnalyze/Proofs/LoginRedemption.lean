import GoAnalyze.Proofs.BrowserSession

/-! The login attempts of a session. What `completeLogin` stores tokens for is an attempt
that `login` stored; but the attempt stays stored while its code is exchanged, and after an
exchange that failed, and is exchanged again by whoever returns with its state. -/

namespace GoAnalyze

open EventLoop Auth

/-- The verifiers sent, each with a code. -/
def Tab.verifiersSent (s : Tab) : List String := s.sent.filterMap Grant.verifier

def exchangesWith (verifier : String) (s : Tab) : ℕ := s.verifiersSent.count verifier

/-- Tokens were stored only for the state of a login, and the verifier of a login was sent
with one code at most. -/
structure RedeemedOnce (s : Tab) : Prop where
  ownState : ∀ r ∈ s.redemptions, ∃ attempt ∈ s.logins, attempt.state = r.state
  once : ∀ attempt ∈ s.logins, exchangesWith attempt.verifier s ≤ 1

/-! ## What came of the stored attempt -/

section Unspent

variable {ι : Type}

/-- The verifier that call `i` sent with a code, while it waits for the token endpoint. -/
def exchanging (l : SessionLoop ι) (i : ι) : Option String := (grantOf l i).bind Grant.verifier

/-- `login` is given its digest, and stores an attempt. -/
def storesAttempt : Label ι AuthAnswer ℤ → Bool
  | .answer _ (.digest (some _)) => true
  | _ => false

/-- The steps since the attempt that was stored last. -/
def sinceStored (as : List (Label ι AuthAnswer ℤ)) : List (Label ι AuthAnswer ℤ) :=
  as.rtakeWhile fun a => !storesAttempt a

/-- An answer with which no tokens come. -/
def AuthAnswer.fails : AuthAnswer → Bool
  | .response .networkError | .body none => true
  | .response (.response status) => !isOk status
  | _ => false

/-- A call of `completeLogin` that began since the attempt was stored has failed. -/
def FailedSince (calls : ι → AuthCall) (as : List (Label ι AuthAnswer ℤ)) : Prop :=
  ∃ j c, .call j ∈ sinceStored as ∧ (calls j).redeems.isSome ∧ .answer j c ∈ sinceStored as ∧
    c.fails

/-- When `completeLogin` is called with the state of the stored attempt, no call waits that
sent the attempt's verifier, and none has failed since the attempt was stored. -/
def Unspent (calls : ι → AuthCall) (as : List (Label ι AuthAnswer ℤ)) (l : SessionLoop ι) :
    Label ι AuthAnswer ℤ → Prop
  | .call i => ∀ code state verifier, (calls i).redeems = some (code, state) →
    verifierFor l.memory.storage state = some verifier →
    (∀ j, exchanging l j ≠ some verifier) ∧ ¬FailedSince calls as
  | _ => True

variable {calls : ι → AuthCall} {as : List (Label ι AuthAnswer ℤ)} {a : Label ι AuthAnswer ℤ}

theorem sinceStored_concat_stores (ha : storesAttempt a = true) : sinceStored (as ++ [a]) = [] :=
  List.rtakeWhile_concat_neg _ _ _ (by simp [ha])

theorem sinceStored_concat (ha : storesAttempt a = false) :
    sinceStored (as ++ [a]) = sinceStored as ++ [a] :=
  List.rtakeWhile_concat_pos _ _ _ (by simp [ha])

theorem not_failedSince_of_stores (ha : storesAttempt a = true) :
    ¬FailedSince calls (as ++ [a]) := by
  rintro ⟨j, c, hcall, -⟩
  rw [sinceStored_concat_stores ha] at hcall
  cases hcall

theorem FailedSince.concat (h : FailedSince calls as) (ha : storesAttempt a = false) :
    FailedSince calls (as ++ [a]) := by
  obtain ⟨j, c, hcall, hredeems, hanswer, hfails⟩ := h
  rw [FailedSince, sinceStored_concat ha]
  exact ⟨j, c, List.mem_append_left _ hcall, hredeems, List.mem_append_left _ hanswer, hfails⟩

end Unspent

/-! ## Attempts come from logins -/

/-- The stored attempt, the redeemed ones and the verifiers sent are those of logins. -/
structure Attempts (s : Tab) : Prop where
  stored : ∀ verifier state, s.storage.pkceVerifier = some verifier →
    s.storage.authState = some state → ⟨verifier, state⟩ ∈ s.logins
  redeemed : ∀ r ∈ s.redemptions, r ∈ s.logins
  sent : ∀ verifier ∈ s.verifiersSent, ∃ attempt ∈ s.logins, attempt.verifier = verifier

def LoginsGrow (s s' : Tab) : Prop := s.logins ⊆ s'.logins

instance : Std.Refl LoginsGrow := ⟨fun _ => List.Subset.refl _⟩

instance : IsTrans Tab LoginsGrow := ⟨fun _ _ _ h h' => List.Subset.trans h h'⟩

variable {s s' s₀ : Tab}

theorem Attempts.of_eq (h : Attempts s)
    (hverifier : s'.storage.pkceVerifier = s.storage.pkceVerifier)
    (hstate : s'.storage.authState = s.storage.authState) (hlogins : s'.logins = s.logins)
    (hredemptions : s'.redemptions = s.redemptions)
    (hsent : s'.verifiersSent = s.verifiersSent) : Attempts s' := by
  refine ⟨?_, ?_, ?_⟩
  · rw [hverifier, hstate, hlogins]
    exact h.stored
  · rw [hredemptions, hlogins]
    exact h.redeemed
  · rw [hsent, hlogins]
    exact h.sent

theorem verifierFor_eq_some {storage : SessionStorage} {state verifier : String}
    (h : verifierFor storage state = some verifier) :
    storage.pkceVerifier = some verifier ∧ storage.authState = some state := by
  unfold verifierFor at h
  split at h
  · next verifier' expectedState hverifier hstate =>
    split_ifs at h with heq
    obtain rfl := Option.some.inj h
    subst heq
    exact ⟨(Option.filter_eq_some_iff.mp hverifier).1, (Option.filter_eq_some_iff.mp hstate).1⟩
  · cases h

variable (browser : Browser)

theorem wp_login (redirectAfter : String) {Q : Except Rejection Unit → Tab → Tab → Prop}
    (hQ : ∀ r s₀ s, Attempts s → LoginsGrow s₀ s → Q r s₀ s) (hs : Attempts s)
    (hgrow : LoginsGrow s₀ s) :
    (login browser redirectAfter).run.wp Attempts LoginsGrow Q s₀ s := by
  unfold login
  simp only [Async.wp_bindExcept, wp_randomString]
  refine ⟨hs.of_eq rfl rfl rfl rfl rfl, hgrow, fun bytes s' _ hs' => ?_⟩
  cases bytes with
  | none => exact hQ _ _ _ hs' (List.Subset.refl _)
  | some bytes =>
    refine hQ _ _ _ ⟨?_, ?_, ?_⟩ (List.subset_append_left _ _)
    · -- the attempt just stored
      intro verifier state hverifier hstate
      cases hverifier
      cases hstate
      exact List.mem_append_right _ (List.mem_singleton_self _)
    · exact fun r hr => List.mem_append_left _ (hs'.redeemed r hr)
    · intro verifier hverifier
      obtain ⟨attempt, hattempt, heq⟩ := hs'.sent verifier hverifier
      exact ⟨attempt, List.mem_append_left _ hattempt, heq⟩

/-- The attempt that passed the check is a login's, and stays one while the code is
exchanged. -/
theorem wp_completeLogin (code state : String) {Q : Except Rejection LoginResult → Tab → Tab → Prop}
    (hQ : ∀ r s₀ s, Attempts s → LoginsGrow s₀ s → Q r s₀ s) (hs : Attempts s)
    (hgrow : LoginsGrow s₀ s) :
    (completeLogin browser code state).run.wp Attempts LoginsGrow Q s₀ s := by
  unfold completeLogin
  simp only [Async.wp_bindExcept, Async.wp_get]
  split
  · exact hQ _ _ _ hs hgrow
  · next verifier hverifier =>
    obtain ⟨hstored, hstate⟩ := verifierFor_eq_some hverifier
    have hattempt : ⟨verifier, state⟩ ∈ s.logins := hs.stored verifier state hstored hstate
    simp only [Async.wp_bindExcept, wp_fetchToken]
    refine ⟨⟨hs.stored, hs.redeemed, ?_⟩, hgrow, fun response s₁ hgrow₁ hs₁ => ?_⟩
    · intro v hv
      simp only [Tab.verifiersSent, List.filterMap_append, List.mem_append] at hv
      rcases hv with hv | hv
      · exact hs.sent v hv
      · obtain rfl : v = verifier := by simpa [Grant.verifier] using hv
        exact ⟨_, hattempt, rfl⟩
    · cases response with
      | networkError => exact hQ _ _ _ hs₁ (List.Subset.refl _)
      | response status =>
        dsimp only
        split
        · refine ⟨hs₁, List.Subset.refl _, fun data s₂ hgrow₂ hs₂ => ?_⟩
          cases data with
          | none => exact hQ _ _ _ hs₂ (List.Subset.refl _)
          | some data =>
            refine hQ _ _ _ ⟨fun v st hv => ?_, fun r hr => ?_, hs₂.sent⟩ (List.Subset.refl _)
            · -- the attempt is removed
              cases hv
            · rcases List.mem_append.mp hr with hr | hr
              · exact hs₂.redeemed r hr
              · obtain rfl := List.mem_singleton.mp hr
                exact hgrow₂ (hgrow₁ hattempt)
        · exact hQ _ _ _ hs₁ (List.Subset.refl _)

theorem wp_callbackInner (search : CallbackParams)
    {Q : Except Rejection CallbackPage → Tab → Tab → Prop}
    (hQ : ∀ r s₀ s, Attempts s → LoginsGrow s₀ s → Q r s₀ s) (hs : Attempts s)
    (hgrow : LoginsGrow s₀ s) :
    (callbackInner browser search).run.wp Attempts LoginsGrow Q s₀ s := by
  unfold callbackInner
  split
  · exact hQ _ _ _ hs hgrow
  · next code state _ =>
    simp only [Async.wp_bindExcept]
    refine wp_completeLogin browser code state (fun r s₀ s hs hgrow => ?_) hs hgrow
    cases r with
    | error e => exact hQ _ _ _ hs hgrow
    | ok result =>
      refine ⟨hs, hgrow, fun _ s' _ hs' => ?_⟩
      cases result with
      | ok => exact hQ _ _ _ (hs'.of_eq rfl rfl rfl rfl rfl) (List.Subset.refl _)
      | error text => exact hQ _ _ _ hs' (List.Subset.refl _)

theorem Attempts.keptByRefresh : KeptByRefresh Attempts LoginsGrow where
  sent _ _ _ _ hs :=
    ⟨hs.of_eq rfl rfl rfl rfl (by simp [Tab.verifiersSent, Grant.verifier]), List.Subset.refl _⟩
  tokens _ _ hs := ⟨hs.of_eq rfl rfl rfl rfl rfl, List.Subset.refl _⟩

theorem wp_run (call : AuthCall) (hs : Attempts s) :
    (call.run browser).run.wp Attempts LoginsGrow (fun _ s₀ s => Attempts s ∧ LoginsGrow s₀ s)
      s s := by
  have hend : ∀ {α : Type} (_ : Except Rejection α) (s₀ s : Tab), Attempts s → LoginsGrow s₀ s →
      Attempts s ∧ LoginsGrow s₀ s := fun _ _ _ hs hgrow => ⟨hs, hgrow⟩
  have hrefl : LoginsGrow s s := List.Subset.refl _
  cases call with
  | logout => exact ⟨hs.of_eq rfl rfl rfl rfl rfl, hrefl⟩
  | login redirectAfter =>
    exact (Async.wp_mapExcept _ _ _ _ _ _).mpr (wp_login browser redirectAfter hend hs hrefl)
  | completeLogin code state =>
    exact (Async.wp_mapExcept _ _ _ _ _ _).mpr
      (wp_completeLogin browser code state hend hs hrefl)
  | callbackInner search =>
    exact (Async.wp_mapExcept _ _ _ _ _ _).mpr (wp_callbackInner browser search hend hs hrefl)
  | refreshTokens =>
    exact (Async.wp_mapExcept _ _ _ _ _ _).mpr
      (wp_refreshTokens browser Attempts.keptByRefresh hend hs hrefl)
  | getValidAccessToken =>
    exact (Async.wp_mapExcept _ _ _ _ _ _).mpr
      (wp_getValidAccessToken browser Attempts.keptByRefresh hend hs hrefl)
  | useAuthRefresh =>
    exact (Async.wp_mapExcept _ _ _ _ _ _).mpr
      (wp_useAuthRefresh browser Attempts.keptByRefresh hend hs hrefl)

variable {browser} {ι : Type} [DecidableEq ι] {calls : ι → AuthCall} {now : ℤ}
  {as : List (Label ι AuthAnswer ℤ)} {l l' : SessionLoop ι} {a : Label ι AuthAnswer ℤ}

theorem attempts_opened (now : ℤ) : Attempts (Tab.opened now) := by
  refine ⟨?_, ?_, ?_⟩ <;> simp [Tab.opened, SessionStorage.empty, Tab.verifiersSent]

theorem attempts_of_run (h : SessionReach browser calls (Tab.opened now) as l) :
    Attempts l.memory := by
  refine invariant_of_wp (I := Attempts) (R := LoginsGrow) (attempts_opened now)
    (fun i m hm => wp_run browser (calls i) hm) ?_ ?_ h
  · intro i op c m r m' hm hanswer
    obtain ⟨-, accepted, rfl⟩ := answer_cases hanswer
    exact ⟨hm.of_eq rfl rfl rfl rfl rfl, List.Subset.refl _⟩
  · intro time m m' hm hevent
    rw [← Option.some.inj hevent]
    exact ⟨hm.of_eq rfl rfl rfl rfl rfl, List.Subset.refl _⟩

/-! ## One step -/

variable {m m' : Tab}

theorem begun_cases {call : AuthCall} (h : Begun browser call m m') :
    (∃ code state, call.redeems = some (code, state) ∧ m' = m.exchange browser code state) ∨
    (call.redeems = none ∧ m'.verifiersSent = m.verifiersSent) := by
  have hrefresh : (m' = m ∨ ∃ current token, m.storage.tokens = some current ∧
      m' = { m with
        sent := m.sent ++ [.refreshToken browser.keycloakClientId token current] }) →
      m'.verifiersSent = m.verifiersSent := by
    rintro (rfl | ⟨current, token, -, rfl⟩)
    · rfl
    · simp [Tab.verifiersSent, Grant.verifier]
  cases call with
  | login redirectAfter =>
    obtain rfl := h
    exact Or.inr ⟨rfl, rfl⟩
  | completeLogin code state => exact Or.inl ⟨code, state, rfl, h⟩
  | callbackInner search =>
    simp only [Begun] at h
    simp only [AuthCall.redeems]
    cases hcheck : search.check with
    | error text =>
      rw [hcheck] at h
      obtain rfl := h
      exact Or.inr ⟨rfl, rfl⟩
    | ok params =>
      rw [hcheck] at h
      exact Or.inl ⟨params.1, params.2, rfl, h⟩
  | refreshTokens => exact Or.inr ⟨rfl, hrefresh h⟩
  | getValidAccessToken => exact Or.inr ⟨rfl, hrefresh h⟩
  | useAuthRefresh => exact Or.inr ⟨rfl, hrefresh h⟩
  | logout =>
    obtain ⟨location, rfl⟩ := h
    exact Or.inr ⟨rfl, rfl⟩

theorem verifiersSent_answered {op : AuthOp} {r : AuthReply op} (h : Answered op r m m') :
    m'.verifiersSent = m.verifiersSent := by
  unfold Answered at h
  split at h
  · obtain ⟨state, redirectAfter, location, rfl⟩ := h
    rfl
  · obtain rfl := h
    split_ifs
    · rfl
    · rfl
  · obtain rfl := h
    rfl
  · obtain ⟨state, rfl⟩ := h
    rfl
  · obtain ⟨redirect, rfl⟩ := h
    rfl
  · obtain rfl := h
    rfl

theorem RedeemedOnce.of_verifiersSent (h : RedeemedOnce m) (hattempts : Attempts m)
    (hattempts' : Attempts m') (hsent : m'.verifiersSent = m.verifiersSent) : RedeemedOnce m' := by
  refine ⟨fun r hr => ⟨r, hattempts'.redeemed r hr, rfl⟩, fun attempt _ => ?_⟩
  rw [exchangesWith, hsent]
  by_cases hv : attempt.verifier ∈ m.verifiersSent
  · -- a verifier that was sent before is that of an earlier login
    obtain ⟨earlier, hearlier, heq⟩ := hattempts.sent _ hv
    rw [← heq]
    exact h.once earlier hearlier
  · rw [List.count_eq_zero_of_not_mem hv]
    exact Nat.zero_le 1

theorem exchangesWith_exchange {code state verifier : String}
    (h : verifierFor m.storage state = some verifier) (v : String) :
    exchangesWith v (m.exchange browser code state) =
      exchangesWith v m + if verifier = v then 1 else 0 := by
  simp [exchangesWith, Tab.verifiersSent, Tab.exchange, h, Grant.verifier, List.count_singleton]

theorem redeemedOnce_exchange (h : RedeemedOnce m) (hattempts : Attempts m) (code state : String) :
    RedeemedOnce (m.exchange browser code state) ↔
      ∀ verifier, verifierFor m.storage state = some verifier → exchangesWith verifier m = 0 := by
  cases hverifier : verifierFor m.storage state with
  | none => simpa [Tab.exchange, hverifier] using h
  | some verifier =>
    have hlogins : (m.exchange browser code state).logins = m.logins := by
      simp [Tab.exchange, hverifier]
    have hredemptions : (m.exchange browser code state).redemptions = m.redemptions := by
      simp [Tab.exchange, hverifier]
    constructor
    · intro h' v hv
      cases hv
      obtain ⟨hstored, hstate⟩ := verifierFor_eq_some hverifier
      have honce := h'.once ⟨verifier, state⟩
        (hlogins ▸ hattempts.stored verifier state hstored hstate)
      simp only [exchangesWith_exchange hverifier, if_true] at honce
      omega
    · intro hzero
      refine ⟨?_, fun attempt hattempt => ?_⟩
      · rw [hlogins, hredemptions]
        exact h.ownState
      · rw [exchangesWith_exchange hverifier]
        split_ifs with heq
        · rw [← heq, hzero verifier rfl]
        · exact h.once attempt (hlogins ▸ hattempt)

/-- A call of `completeLogin` that passes its check finds a verifier that no code was sent
with yet. -/
def Unsent (calls : ι → AuthCall) (l : SessionLoop ι) : Label ι AuthAnswer ℤ → Prop
  | .call i => ∀ code state verifier, (calls i).redeems = some (code, state) →
    verifierFor l.memory.storage state = some verifier → verifier ∉ l.memory.verifiersSent
  | _ => True

theorem redeemedOnce_of_step (h : SessionReach browser calls (Tab.opened now) as l)
    (hl : RedeemedOnce l.memory) (hstep : (browserSession browser calls).Step l a l') :
    RedeemedOnce l'.memory ↔ Unsent calls l a := by
  have hattempts := attempts_of_run h
  have hattempts' := attempts_of_run (h.snoc hstep)
  cases session_step h hstep with
  | call _ hstart _ =>
    rcases begun_cases hstart.1 with ⟨code, state, hredeems, heq⟩ | ⟨hredeems, hsent⟩
    · rw [heq, redeemedOnce_exchange hl hattempts]
      simp only [Unsent, hredeems, Option.some.injEq, Prod.mk.injEq]
      constructor
      · rintro hzero _ _ verifier ⟨rfl, rfl⟩ hverifier
        exact List.count_eq_zero.mp (hzero verifier hverifier)
      · intro hunsent verifier hverifier
        exact List.count_eq_zero.mpr (hunsent code state verifier ⟨rfl, rfl⟩ hverifier)
    · refine iff_of_true (hl.of_verifiersSent hattempts hattempts' hsent) ?_
      intro code state verifier hsome
      rw [hredeems] at hsome
      cases hsome
  | answer r accepted _ heffect _ =>
    have hsent := verifiersSent_answered heffect.1
    exact iff_of_true (hl.of_verifiersSent hattempts hattempts' hsent) trivial
  | event time => exact iff_of_true (hl.of_verifiersSent hattempts hattempts' rfl) trivial

/-! ## Where the stored verifier has been -/

/-- The verifier that the last login stored. -/
def lastVerifier (m : Tab) : Option String := m.logins.getLast?.map LoginAttempt.verifier

/-- The logins drew different verifiers. -/
def FreshVerifiers (m : Tab) : Prop := (m.logins.map LoginAttempt.verifier).Nodup

/-- The verifier that is stored is that of the last login. It was sent by the calls that began
since, and once it was sent, one of these still waits or has failed. -/
structure StoredAttempt (calls : ι → AuthCall) (as : List (Label ι AuthAnswer ℤ))
    (l : SessionLoop ι) : Prop where
  stored : ∀ verifier, l.memory.storage.pkceVerifier = some verifier →
    lastVerifier l.memory = some verifier
  sent : ∀ j verifier, exchanging l j = some verifier → verifier ∈ l.memory.verifiersSent
  since : ∀ j verifier, exchanging l j = some verifier →
    (.call j ∈ sinceStored as ↔ lastVerifier l.memory = some verifier)
  failed : FailedSince calls as →
    ∃ verifier ∈ l.memory.verifiersSent, lastVerifier l.memory = some verifier
  spent : ∀ verifier, l.memory.storage.pkceVerifier = some verifier →
    verifier ∈ l.memory.verifiersSent →
    (∃ j, exchanging l j = some verifier) ∨ FailedSince calls as

structure NoLogin (m m' : Tab) : Prop where
  stored : ∀ verifier, m'.storage.pkceVerifier = some verifier →
    m.storage.pkceVerifier = some verifier
  logins : m'.logins = m.logins

theorem noLogin_begun {call : AuthCall} (h : Begun browser call m m') : NoLogin m m' := by
  have hexchange : ∀ code state, NoLogin m (m.exchange browser code state) := by
    intro code state
    unfold Tab.exchange
    split
    · exact ⟨fun _ hv => hv, rfl⟩
    · exact ⟨fun _ hv => hv, rfl⟩
  have hrefresh : (m' = m ∨ ∃ current token, m.storage.tokens = some current ∧
      m' = { m with
        sent := m.sent ++ [.refreshToken browser.keycloakClientId token current] }) →
      NoLogin m m' := by
    rintro (rfl | ⟨current, token, -, rfl⟩) <;> exact ⟨fun _ hv => hv, rfl⟩
  cases call with
  | login redirectAfter => obtain rfl := h; exact ⟨fun _ hv => hv, rfl⟩
  | completeLogin code state => obtain rfl := h; exact hexchange code state
  | callbackInner search =>
    simp only [Begun] at h
    split at h
    · obtain rfl := h; exact ⟨fun _ hv => hv, rfl⟩
    · obtain rfl := h; exact hexchange _ _
  | refreshTokens | getValidAccessToken | useAuthRefresh => exact hrefresh h
  | logout => obtain ⟨location, rfl⟩ := h; exact ⟨fun _ hv => hv, rfl⟩

omit [DecidableEq ι] in
theorem login_answered {op : AuthOp} {r : AuthReply op} (h : Answered op r m m') (i : ι) :
    (storesAttempt (.answer i (.of op r) : Label ι AuthAnswer ℤ) = true ∧ op.accepted r = none ∧
      ∃ verifier state, m'.storage.pkceVerifier = some verifier ∧
        m'.logins = m.logins ++ [⟨verifier, state⟩]) ∨
    (storesAttempt (.answer i (.of op r) : Label ι AuthAnswer ℤ) = false ∧ NoLogin m m') := by
  cases op with
  | digest verifier =>
    cases r with
    | none => obtain rfl := h; exact Or.inr ⟨rfl, fun _ hv => hv, rfl⟩
    | some bytes =>
      obtain ⟨state, redirectAfter, location, rfl⟩ := h
      exact Or.inl ⟨rfl, rfl, verifier, state, rfl, rfl⟩
  | microtask =>
    obtain ⟨redirect, rfl⟩ := h
    exact Or.inr ⟨rfl, fun _ hv => hv, rfl⟩
  | fetch url grant =>
    refine Or.inr ⟨rfl, ?_⟩
    cases grant with
    | authorizationCode clientId redirectUri code verifier =>
      obtain rfl := h; exact ⟨fun _ hv => hv, rfl⟩
    | refreshToken clientId token current =>
      cases r with
      | networkError => obtain rfl := h; exact ⟨fun _ hv => hv, rfl⟩
      | response status =>
        obtain rfl := h
        split_ifs <;> exact ⟨fun _ hv => hv, rfl⟩
  | json grant =>
    refine Or.inr ⟨rfl, ?_⟩
    cases r with
    | none => cases grant <;> (obtain rfl := h; exact ⟨fun _ hv => hv, rfl⟩)
    | some data =>
      cases grant with
      | authorizationCode clientId redirectUri code verifier =>
        obtain ⟨state, rfl⟩ := h
        exact ⟨nofun, rfl⟩
      | refreshToken clientId token current => obtain rfl := h; exact ⟨fun _ hv => hv, rfl⟩

theorem exchange_answered {op : AuthOp} {r : AuthReply op} {grant : Grant} {verifier : String}
    (h : Answered op r m m') (hgrant : op.grant = some grant) (hv : grant.verifier = some verifier) :
    op.accepted r = some grant ∨ (AuthAnswer.of op r).fails ∨ m'.storage.pkceVerifier = none := by
  cases grant with
  | refreshToken clientId token current => cases hv
  | authorizationCode clientId redirectUri code v =>
    cases op with
    | digest _ | microtask => cases hgrant
    | fetch url g =>
      obtain rfl := Option.some.inj hgrant
      cases r with
      | networkError => exact Or.inr (Or.inl rfl)
      | response status =>
        cases hok : isOk status with
        | true => exact Or.inl (if_pos hok)
        | false => exact Or.inr (Or.inl (by simp [AuthAnswer.of, AuthAnswer.fails, hok]))
    | json g =>
      obtain rfl := Option.some.inj hgrant
      cases r with
      | none => exact Or.inr (Or.inl rfl)
      | some data =>
        obtain ⟨state, rfl⟩ := h
        exact Or.inr (Or.inr rfl)

theorem grant_of_fails {op : AuthOp} {r : AuthReply op} (h : (AuthAnswer.of op r).fails) :
    ∃ grant, op.grant = some grant := by
  cases op with
  | digest _ | microtask => cases h
  | fetch url grant => exact ⟨grant, rfl⟩
  | json grant => exact ⟨grant, rfl⟩

theorem failedSince_concat (h : SessionReach browser calls (Tab.opened now) as l)
    (hstep : SessionStep browser calls l a l') (hfailed : FailedSince calls (as ++ [a])) :
    FailedSince calls as ∨ ∃ j c, a = .answer j c ∧ (calls j).redeems.isSome ∧
      .call j ∈ sinceStored as ∧ c.fails := by
  cases ha : storesAttempt a with
  | true => exact absurd hfailed (not_failedSince_of_stores ha)
  | false =>
    obtain ⟨j, c, hcall, hredeems, hanswer, hfails⟩ := hfailed
    rw [sinceStored_concat ha, List.mem_append, List.mem_singleton] at hcall hanswer
    rcases hanswer with hanswer | rfl
    · rcases hcall with hcall | rfl
      · exact Or.inl ⟨j, c, hcall, hredeems, hanswer, hfails⟩
      · -- a call is not answered before it is made
        have hmade : j ∈ arrived as :=
          List.mem_filterMap.mpr ⟨_, (List.rtakeWhile_suffix _ _).subset hanswer, rfl⟩
        have hissued := (mem_issued_iff h).2 j hmade
        cases hstep with
        | call hnone _ _ => exact absurd hnone (((mem_issued_iff h).1 j).mp hissued)
    · rcases hcall with hcall | hcall
      · exact Or.inr ⟨j, c, rfl, hredeems, hcall, hfails⟩
      · cases hcall

omit [DecidableEq ι] in
theorem verifiersSent_step (h : SessionStep browser calls l a l') :
    l'.memory.verifiersSent =
      l.memory.verifiersSent ++ (a.called.bind (exchanging l')).toList := by
  cases h with
  | @call i _ _ hstart _ =>
    have hfirst : exchanging l' i = _ := hstart.2.verifier
    rw [Label.called, Option.bind_some, hfirst]
    rcases begun_cases hstart.1 with ⟨code, state, hredeems, heq⟩ | ⟨hredeems, hsent⟩
    · rw [heq, hredeems, Option.bind_some]
      cases hverifier : verifierFor l.memory.storage state <;>
        simp [Tab.exchange, hverifier, Tab.verifiersSent, Grant.verifier]
    · simp [hsent, hredeems]
  | answer r accepted _ heffect _ =>
    have hsent := verifiersSent_answered heffect.1
    rw [hsent]
    exact (List.append_nil _).symm
  | event now => simp [Label.called, Tab.verifiersSent]

theorem exchanging_step (h : SessionStep browser calls l a l') {j : ι} {verifier : String}
    (hj : exchanging l' j = some verifier) :
    (a = .call j ∧ l.memory.storage.pkceVerifier = some verifier) ∨
    (a.called ≠ some j ∧ exchanging l j = some verifier) := by
  obtain ⟨grant, hgrant, hv⟩ := Option.bind_eq_some_iff.mp hj
  rcases grantOf_step h j with ⟨rfl, hfirst⟩ | ⟨ha, hbefore⟩
  · have hstored := hfirst.verifier.symm.trans hj
    obtain ⟨params, -, hparams⟩ := Option.bind_eq_some_iff.mp hstored
    exact Or.inl ⟨rfl, (verifierFor_eq_some hparams).1⟩
  · exact Or.inr ⟨ha, Option.bind_eq_some_iff.mpr ⟨grant, hbefore grant hgrant, hv⟩⟩

/-- An exchange goes on until it is answered: then it may go on, fail, or remove the
attempt. -/
theorem exchanging_kept (h : SessionStep browser calls l a l') {j : ι} {verifier : String}
    (hj : exchanging l j = some verifier) :
    exchanging l' j = some verifier ∨ (∃ c, a = .answer j c ∧ c.fails) ∨
      l'.memory.storage.pkceVerifier = none := by
  obtain ⟨grant, hgrant, hv⟩ := Option.bind_eq_some_iff.mp hj
  obtain ⟨op, hop, hopgrant⟩ := Option.bind_eq_some_iff.mp hgrant
  have hother : l'.pending j = l.pending j → exchanging l' j = some verifier := fun heq => by
    rw [exchanging, grantOf, heq]
    exact hj
  cases h with
  | @call i _ hnone _ hothers =>
    refine Or.inl (hother (hothers j fun hij => ?_))
    rw [hij, Loop.pending, hnone] at hop
    cases hop
  | event now => exact Or.inl hj
  | @answer i op' _ r accepted hpending heffect hothers =>
    by_cases hij : j = i
    · subst hij
      obtain rfl := Option.some.inj (hop.symm.trans hpending)
      rcases exchange_answered heffect.1 hopgrant hv with haccepted | hfails | hremoved
      · refine Or.inl ?_
        rw [exchanging, grantOf, heffect.2, haccepted, Option.bind_some, hv]
      · exact Or.inr (Or.inl ⟨_, rfl, hfails⟩)
      · exact Or.inr (Or.inr hremoved)
    · exact Or.inl (hother (hothers j hij))

theorem lastVerifier_eq (h : NoLogin m m') : lastVerifier m' = lastVerifier m := by
  rw [lastVerifier, h.logins, lastVerifier]

theorem redeems_of_exchanging (h : SessionReach browser calls (Tab.opened now) as l) {j : ι}
    {verifier : String} (hj : exchanging l j = some verifier) : (calls j).redeems.isSome := by
  obtain ⟨grant, hgrant, hv⟩ := Option.bind_eq_some_iff.mp hj
  have hsends := sends_of_run h hgrant
  cases grant with
  | refreshToken clientId token current => cases hv
  | authorizationCode clientId redirectUri code v => exact hsends

theorem StoredAttempt.noLogin (hs : StoredAttempt calls as l)
    (h : SessionReach browser calls (Tab.opened now) as l)
    (hsession : SessionStep browser calls l a l') (ha : storesAttempt a = false)
    (hno : NoLogin l.memory l'.memory) : StoredAttempt calls (as ++ [a]) l' := by
  have hlast := lastVerifier_eq hno
  have hsent := verifiersSent_step hsession
  have hgrow : l.memory.verifiersSent ⊆ l'.memory.verifiersSent := by
    rw [hsent]
    exact List.subset_append_left _ _
  refine ⟨fun v hv => hlast ▸ hs.stored v (hno.stored v hv), fun j v hj => ?_, fun j v hj => ?_,
    fun hfailed => ?_, fun v hv hvsent => ?_⟩
  · rcases exchanging_step hsession hj with ⟨rfl, -⟩ | ⟨-, hbefore⟩
    · rw [hsent, Label.called, Option.bind_some, hj]
      exact List.mem_append_right _ (List.mem_singleton_self _)
    · exact hgrow (hs.sent j v hbefore)
  · rw [sinceStored_concat ha, hlast]
    rcases exchanging_step hsession hj with ⟨rfl, hstored⟩ | ⟨hcalled, hbefore⟩
    · exact iff_of_true (by simp) (hs.stored v hstored)
    · have hne : Label.call j ≠ a := fun heq => hcalled (by rw [← heq]; rfl)
      rw [List.mem_append, List.mem_singleton, or_iff_left hne]
      exact hs.since j v hbefore
  · rw [hlast]
    rcases failedSince_concat h hsession hfailed with hfailed | ⟨j, c, rfl, hredeems, hcall, hfails⟩
    · obtain ⟨v, hv, hv'⟩ := hs.failed hfailed
      exact ⟨v, hgrow hv, hv'⟩
    · -- what failed was an exchange with the stored verifier
      cases hsession with
      | @answer _ op _ r accepted hpending heffect hothers =>
        obtain ⟨grant, hgrant⟩ := grant_of_fails hfails
        have hgrantOf : grantOf l j = some grant := (grantOf_pending hpending).trans hgrant
        have hsends := sends_of_run h hgrantOf
        cases grant with
        | refreshToken clientId token current =>
          rw [AuthCall.Sends, AuthCall.refreshes_eq_false hredeems] at hsends
          cases hsends
        | authorizationCode clientId redirectUri code v =>
          have hj : exchanging l j = some v := by rw [exchanging, hgrantOf]; rfl
          exact ⟨v, hgrow (hs.sent j v hj), (hs.since j v hj).mp hcall⟩
  · have hstored := hno.stored v hv
    have hbefore : v ∈ l.memory.verifiersSent →
        (∃ j, exchanging l' j = some v) ∨ FailedSince calls (as ++ [a]) := fun hmem => by
      rcases hs.spent v hstored hmem with ⟨j, hj⟩ | hfailed
      · rcases exchanging_kept hsession hj with hkept | ⟨c, rfl, hfails⟩ | hremoved
        · exact Or.inl ⟨j, hkept⟩
        · have hcall := (hs.since j v hj).mpr (hs.stored v hstored)
          refine Or.inr ⟨j, c, ?_, redeems_of_exchanging h hj, ?_, hfails⟩ <;>
            rw [sinceStored_concat ha]
          · exact List.mem_append_left _ hcall
          · exact List.mem_append_right _ (List.mem_singleton_self _)
        · rw [hremoved] at hv
          cases hv
      · exact Or.inr (hfailed.concat ha)
    rw [hsent, List.mem_append, Option.mem_toList] at hvsent
    rcases hvsent with hmem | hnew
    · exact hbefore hmem
    · obtain ⟨i, -, hi⟩ := Option.bind_eq_some_iff.mp hnew
      exact Or.inl ⟨i, hi⟩

theorem StoredAttempt.login (hs : StoredAttempt calls as l)
    (h : SessionReach browser calls (Tab.opened now) as l)
    (hsession : SessionStep browser calls l a l') (ha : storesAttempt a = true) {v : String}
    (hstored : l'.memory.storage.pkceVerifier = some v) {state : String}
    (hlogins : l'.memory.logins = l.memory.logins ++ [⟨v, state⟩])
    (hfresh : FreshVerifiers l'.memory) : StoredAttempt calls (as ++ [a]) l' := by
  have hlast : lastVerifier l'.memory = some v := by simp [lastVerifier, hlogins]
  have hcalled : a.called = none := by
    cases a with
    | call i => cases ha
    | answer i c => rfl
    | event e => rfl
  have hsent : l'.memory.verifiersSent = l.memory.verifiersSent := by
    rw [verifiersSent_step hsession, hcalled]
    exact List.append_nil _
  have hunsent : v ∉ l'.memory.verifiersSent := fun hmem => by
    rw [hsent] at hmem
    obtain ⟨attempt, hattempt, rfl⟩ := (attempts_of_run h).sent v hmem
    rw [FreshVerifiers, hlogins, List.map_append, List.nodup_append] at hfresh
    exact hfresh.2.2 _ (List.mem_map_of_mem hattempt) _ (List.mem_singleton_self _) rfl
  have hbefore : ∀ j w, exchanging l' j = some w → w ∈ l'.memory.verifiersSent := fun j w hj => by
    rcases exchanging_step hsession hj with ⟨rfl, -⟩ | ⟨-, hj⟩
    · cases hcalled
    · exact hsent ▸ hs.sent j w hj
  refine ⟨fun w hw => hlast.trans (hstored.symm.trans hw), hbefore, fun j w hj => ?_,
    fun hfailed => absurd hfailed (not_failedSince_of_stores ha), fun w hw hmem => ?_⟩
  · rw [sinceStored_concat_stores ha, hlast]
    refine iff_of_false List.not_mem_nil fun heq => hunsent ?_
    exact Option.some.inj heq ▸ hbefore j w hj
  · rw [hstored] at hw
    exact absurd (Option.some.inj hw ▸ hmem) hunsent

omit [DecidableEq ι] in
theorem logins_step (hsession : SessionStep browser calls l a l') :
    (storesAttempt a = true ∧ ∃ v state, l'.memory.storage.pkceVerifier = some v ∧
      l'.memory.logins = l.memory.logins ++ [⟨v, state⟩]) ∨
    (storesAttempt a = false ∧ NoLogin l.memory l'.memory) := by
  cases hsession with
  | call _ hstart _ => exact Or.inr ⟨rfl, noLogin_begun hstart.1⟩
  | event now => exact Or.inr ⟨rfl, fun _ hv => hv, rfl⟩
  | @answer i op _ r accepted _ heffect _ =>
    rcases login_answered heffect.1 i with ⟨ha, -, v, state, hv, hlogins⟩ | ⟨ha, hno⟩
    · exact Or.inl ⟨ha, v, state, hv, hlogins⟩
    · exact Or.inr ⟨ha, hno.stored, hno.logins⟩

omit [DecidableEq ι] in
theorem FreshVerifiers.before (hsession : SessionStep browser calls l a l')
    (hfresh : FreshVerifiers l'.memory) : FreshVerifiers l.memory := by
  rcases logins_step hsession with ⟨-, v, state, -, hlogins⟩ | ⟨-, hno⟩
  · rw [FreshVerifiers, hlogins, List.map_append] at hfresh
    exact hfresh.sublist (List.sublist_append_left _ _)
  · rwa [FreshVerifiers, hno.logins] at hfresh

theorem storedAttempt_of_run (h : SessionReach browser calls (Tab.opened now) as l)
    (hfresh : FreshVerifiers l.memory) : StoredAttempt calls as l := by
  induction h with
  | nil =>
    refine ⟨nofun, nofun, nofun, ?_, nofun⟩
    rintro ⟨j, c, hcall, -⟩
    cases hcall
  | snoc hrun hstep ih =>
    have hsession := session_step hrun hstep
    have hs := ih (hfresh.before hsession)
    rcases logins_step hsession with ⟨ha, v, state, hstored, hlogins⟩ | ⟨ha, hno⟩
    · exact hs.login hrun hsession ha hstored hlogins hfresh
    · exact hs.noLogin hrun hsession ha hno

/-- The stored verifier is unsent exactly if no call waits that sent it, and none failed. -/
theorem unsent_iff_unspent (h : SessionReach browser calls (Tab.opened now) as l)
    (hfresh : FreshVerifiers l.memory) : Unsent calls l a ↔ Unspent calls as l a := by
  have hs := storedAttempt_of_run h hfresh
  cases a with
  | answer i c => exact Iff.rfl
  | event now => exact Iff.rfl
  | call i =>
    refine forall_congr' fun code => forall_congr' fun state => forall_congr' fun v =>
      forall_congr' fun _ => forall_congr' fun hverifier => ?_
    have hstored := (verifierFor_eq_some hverifier).1
    constructor
    · intro hunsent
      refine ⟨fun j hj => hunsent (hs.sent j v hj), fun hfailed => ?_⟩
      obtain ⟨w, hw, hlast⟩ := hs.failed hfailed
      rw [hs.stored v hstored, Option.some.injEq] at hlast
      exact hunsent (hlast ▸ hw)
    · rintro ⟨hwaits, hfailed⟩ hsent
      rcases hs.spent v hstored hsent with ⟨j, hj⟩ | hfailed'
      · exact hwaits j hj
      · exact hfailed hfailed'

/-! ## Runs -/

/-- Every call of `completeLogin` in the run finds its attempt unspent. -/
def UnspentRun (browser : Browser) (calls : ι → AuthCall) (now : ℤ)
    (as : List (Label ι AuthAnswer ℤ)) (l : SessionLoop ι) : Prop :=
  Runs.Run.Throughout (browserSession browser calls).Step (Unspent calls)
    (Loop.init (Tab.opened now)) as l

/-- In every state of the run each login is redeemed once at most, with its own state. -/
def RedeemedOnceRun (browser : Browser) (calls : ι → AuthCall) (now : ℤ)
    (as : List (Label ι AuthAnswer ℤ)) (l : SessionLoop ι) : Prop :=
  Runs.Run.Every (browserSession browser calls).Step (fun l _ => RedeemedOnce l.memory)
    (Loop.init (Tab.opened now)) as l ∧ RedeemedOnce l.memory

/-- `completeLogin` stores tokens only for the state and verifier of one login of the
session; and where the logins drew different verifiers, each is redeemed once at most
throughout exactly in the runs in which every call of `completeLogin` finds its attempt
unspent. -/
theorem login_redeemed_once (h : SessionReach browser calls (Tab.opened now) as l) :
    (∀ r ∈ l.memory.redemptions, r ∈ l.memory.logins) ∧
    (FreshVerifiers l.memory →
      (UnspentRun browser calls now as l ↔ RedeemedOnceRun browser calls now as l)) := by
  refine ⟨(attempts_of_run h).redeemed, fun hfresh => ?_⟩
  refine Runs.Run.throughout_iff (B := fun l : SessionLoop ι => FreshVerifiers l.memory)
    (P := fun l : SessionLoop ι => RedeemedOnce l.memory) ?_ ?_ ?_ hfresh
  · exact ⟨fun _ hr => absurd hr List.not_mem_nil, fun _ hattempt => absurd hattempt List.not_mem_nil⟩
  · exact fun as l a l' hrun hstep hfresh => hfresh.before (session_step hrun hstep)
  · intro as l a l' hrun hl hstep hfresh
    rw [redeemedOnce_of_step hrun hl hstep]
    exact unsent_iff_unspent hrun (hfresh.before (session_step hrun hstep))

/-- The state that `exampleBrowser` draws after the verifier. -/
def drawnState : String := "AQEBAQEBAQEBAQEBAQEBAQEB"

def loginCalls : ℕ → AuthCall
  | 0 | 3 => .login "/dashboard"
  | 4 => .callbackInner ⟨some "code-2", some "AwMDAwMDAwMDAwMDAwMDAwMD", none, none⟩
  | _ => .callbackInner ⟨some "code-1", some drawnState, none, none⟩

/-- The effect of the callback page runs twice. -/
def effectTwice : List (Label ℕ AuthAnswer ℤ) :=
  [.call 0, .answer 0 (.digest (some [])), .call 1, .call 2]

/-- The callback page is loaded again after the exchange failed. -/
def retryAfterFailure : List (Label ℕ AuthAnswer ℤ) :=
  [.call 0, .answer 0 (.digest (some [])), .call 1, .answer 1 (.response .networkError), .call 2]

theorem not_redeemedOnce (attempt : LoginAttempt) (hattempt : attempt ∈ m.logins)
    (htwice : 2 ≤ exchangesWith attempt.verifier m) : ¬RedeemedOnce m := by
  intro h
  have honce := h.once attempt hattempt
  omega

/-- Two codes are sent with the verifier of one login. -/
theorem login_redeemed_twice :
    (∃ l, SessionReach exampleBrowser loginCalls (Tab.opened 0) effectTwice l ∧
      ¬RedeemedOnce l.memory) ∧
    ∃ l, SessionReach exampleBrowser loginCalls (Tab.opened 0) retryAfterFailure l ∧
      ¬RedeemedOnce l.memory := by
  constructor
  · refine ⟨_, Runs.run_of_exec rfl, ?_⟩
    exact not_redeemedOnce _ (List.mem_singleton_self _) (by decide +kernel)
  · refine ⟨_, Runs.run_of_exec rfl, ?_⟩
    exact not_redeemedOnce _ (List.mem_singleton_self _) (by decide +kernel)

/-- A login is given up while its code is exchanged, and the next one is redeemed. -/
def secondAttempt : List (Label ℕ AuthAnswer ℤ) :=
  [.call 0, .answer 0 (.digest (some [])), .call 1, .call 3, .answer 3 (.digest (some [])),
    .answer 1 (.response .networkError), .call 4, .answer 4 (.response (.response 200)),
    .answer 4 (.body (some ⟨some "access-1", some "refresh-1", none, none, some 300⟩))]

theorem login_redeemed_once_example :
    ∃ l, RedeemedOnceRun exampleBrowser loginCalls 0 secondAttempt l ∧
      l.memory.redemptions.length = 1 ∧ ∀ r ∈ l.memory.redemptions, r ∈ l.memory.logins := by
  have hrun : ∃ l, SessionReach exampleBrowser loginCalls (Tab.opened 0) secondAttempt l ∧
      l.memory.redemptions.length = 1 ∧ FreshVerifiers l.memory ∧
      UnspentRun exampleBrowser loginCalls 0 secondAttempt l := by
    refine ⟨_, Runs.run_of_exec rfl, rfl, by unfold FreshVerifiers; decide +kernel,
      Runs.throughout_of_exec rfl ⟨?_, trivial, ?_, ?_, trivial, trivial, ?_, trivial, trivial,
        trivial⟩⟩
    · exact fun _ _ _ hredeems => (nomatch hredeems)
    · -- nothing was sent yet
      refine fun _ _ _ _ _ => ⟨fun j hj => ?_, ?_⟩
      · rcases j with _ | j <;> cases hj
      · rintro ⟨j, c, hcall, -⟩
        cases hcall
    · exact fun _ _ _ hredeems => (nomatch hredeems)
    · -- the code of the first login failed, and began before the second was stored
      refine fun _ _ _ _ _ => ⟨fun j hj => ?_, ?_⟩
      · rcases j with _ | _ | _ | _ | j <;> cases hj
      · rintro ⟨j, c, hcall, -⟩
        cases List.mem_singleton.mp hcall
  obtain ⟨l, hl, hredeemed, hfresh, hunspent⟩ := hrun
  obtain ⟨hown, honce⟩ := login_redeemed_once hl
  exact ⟨l, (honce hfresh).mp hunspent, hredeemed, hown⟩

end GoAnalyze
