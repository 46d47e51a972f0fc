import GoAnalyze.Proofs.BrowserSession

/-! Concurrent refreshes of the tokens. A refresh writes over, or clears, what it finds in
the session storage when it is answered: newer tokens are safe from it only where that is
still what it began with, or what it would leave there. -/

namespace GoAnalyze

open EventLoop Auth

variable {ι : Type} [DecidableEq ι]

/-- The tokens that call `i` began a refresh with, while it waits for the token endpoint. -/
def refreshing (l : SessionLoop ι) (i : ι) : Option StoredTokens :=
  (grantOf l i).bind Grant.current

/-- A refresh that goes on with the step changes the session storage only if the tokens it
began with are still there. -/
def KeepsNewer (browser : Browser) (calls : ι → AuthCall) (l : SessionLoop ι)
    (a : Label ι AuthAnswer ℤ) : Prop :=
  ∀ i c current l', a = .answer i c → refreshing l i = some current →
    (browserSession browser calls).Step l a l' → l'.memory.storage ≠ l.memory.storage →
    l.memory.storage.tokens = some current

/-! ## What other calls do meanwhile -/

inductive TokenWrite where
  | stored | cleared
deriving DecidableEq

def AuthCall.tokenWrite : AuthCall → Option TokenWrite
  | .logout => some .cleared
  | _ => none

/-- What a step does to the stored tokens: a login or a refresh that is given tokens stores
them, a refresh that is refused and a logout clear them. -/
def tokenWrite (calls : ι → AuthCall) : Label ι AuthAnswer ℤ → Option TokenWrite
  | .call i => (calls i).tokenWrite
  | .answer i (.response (.response status)) =>
    if (calls i).refreshes && !isOk status then some .cleared else none
  | .answer _ (.body (some _)) => some .stored
  | _ => none

/-- What the tokens were written with last, since call `i` was made. -/
def lastWrite (calls : ι → AuthCall) (i : ι) (as : List (Label ι AuthAnswer ℤ)) :
    Option TokenWrite :=
  ((since as i).filterMap (tokenWrite calls)).getLast?

/-- While a refresh waited, no other call has stored tokens that its refusal would clear,
nor stored or cleared any that its own would take the place of. -/
def TokensUntouched (calls : ι → AuthCall) (as : List (Label ι AuthAnswer ℤ)) :
    Label ι AuthAnswer ℤ → Prop
  | .answer i (.response (.response status)) =>
    (calls i).refreshes → isOk status = false → lastWrite calls i as ≠ some .stored
  | .answer i (.body (some _)) => (calls i).refreshes → lastWrite calls i as = none
  | _ => True

variable {browser : Browser} {calls : ι → AuthCall} {m₀ : Tab} {as : List (Label ι AuthAnswer ℤ)}
  {l l' : SessionLoop ι} {a : Label ι AuthAnswer ℤ}

theorem lastWrite_concat_call (i : ι) : lastWrite calls i (as ++ [.call i]) = none := by
  simp [lastWrite]

theorem lastWrite_concat {i : ι} (ha : a.called ≠ some i) :
    lastWrite calls i (as ++ [a]) = (tokenWrite calls a).or (lastWrite calls i as) := by
  rw [lastWrite, since_concat as i ha, List.filterMap_append]
  cases hwrite : tokenWrite calls a with
  | none => simp [hwrite, lastWrite]
  | some write => simp [hwrite]

/-- The tokens after a step, as far as its label tells. -/
def Leaves (before : Option StoredTokens) : Option TokenWrite → Option StoredTokens → Prop
  | none, after => after = before
  | some .cleared, after => after = none
  | some .stored, _ => True

theorem tokens_begun {call : AuthCall} {m m' : Tab} (h : Begun browser call m m') :
    Leaves m.storage.tokens call.tokenWrite m'.storage.tokens := by
  have hrefresh : (m' = m ∨ ∃ current token, m.storage.tokens = some current ∧
      m' = { m with
        sent := m.sent ++ [.refreshToken browser.keycloakClientId token current] }) →
      m'.storage.tokens = m.storage.tokens := by
    rintro (rfl | ⟨current, token, -, rfl⟩) <;> rfl
  have hexchange : ∀ code state, (m.exchange browser code state).storage.tokens =
      m.storage.tokens := by
    intro code state
    unfold Tab.exchange
    split <;> rfl
  cases call with
  | login redirectAfter => obtain rfl := h; rfl
  | completeLogin code state => obtain rfl := h; exact hexchange code state
  | callbackInner search =>
    simp only [Begun] at h
    split at h
    · rw [h]; rfl
    · rw [h]; exact hexchange _ _
  | refreshTokens | getValidAccessToken | useAuthRefresh => exact hrefresh h
  | logout => obtain ⟨location, rfl⟩ := h; rfl

omit [DecidableEq ι] in
theorem tokens_answered {i : ι} {op : AuthOp} {r : AuthReply op} {m m' : Tab}
    (hsends : ∀ grant, op.grant = some grant → (calls i).Sends grant)
    (h : Answered op r m m') :
    Leaves m.storage.tokens (tokenWrite calls (.answer i (.of op r))) m'.storage.tokens := by
  cases op with
  | digest verifier =>
    cases r with
    | none => obtain rfl := h; rfl
    | some bytes => obtain ⟨state, redirectAfter, location, rfl⟩ := h; rfl
  | microtask => obtain ⟨redirect, rfl⟩ := h; rfl
  | json grant =>
    cases r with
    | none => cases grant <;> (obtain rfl := h; rfl)
    | some data => trivial
  | fetch url grant =>
    have hsent := hsends grant rfl
    cases r with
    | networkError => cases grant <;> (obtain rfl := h; rfl)
    | response status =>
      cases grant with
      | authorizationCode clientId redirectUri code verifier =>
        obtain rfl := h
        simp [AuthAnswer.of, tokenWrite, AuthCall.refreshes_eq_false hsent, Leaves]
      | refreshToken clientId token current =>
        have hrefreshes : (calls i).refreshes = true := hsent
        obtain rfl := h
        by_cases hok : isOk status <;> simp [AuthAnswer.of, tokenWrite, hrefreshes, hok, Leaves]

theorem tokens_step (h : SessionReach browser calls m₀ as l)
    (hstep : SessionStep browser calls l a l') :
    Leaves l.memory.storage.tokens (tokenWrite calls a) l'.memory.storage.tokens := by
  cases hstep with
  | call _ hstart _ => exact tokens_begun hstart.1
  | @answer i op _ r accepted hpending heffect _ =>
    have hsends : ∀ grant, op.grant = some grant → (calls i).Sends grant := fun grant hgrant =>
      sends_of_run h ((grantOf_pending hpending).trans hgrant)
    have hanswered := tokens_answered hsends heffect.1
    exact hanswered
  | event now => rfl

/-- Unless other calls stored tokens while the refresh waits, those it began with are there,
or none. -/
def Remembers (calls : ι → AuthCall) (as : List (Label ι AuthAnswer ℤ)) (l : SessionLoop ι) :
    Prop :=
  ∀ i current, refreshing l i = some current →
    Leaves (some current) (lastWrite calls i as) l.memory.storage.tokens

theorem Leaves.trans {before between after : Option StoredTokens} {w w' : Option TokenWrite}
    (h : Leaves before w between) (h' : Leaves between w' after) : Leaves before (w'.or w) after := by
  cases w' with
  | none => exact Eq.mp (by rw [show after = between from h', Option.none_or]) h
  | some write => cases write <;> exact h'

theorem remembers_of_run (h : SessionReach browser calls m₀ as l) : Remembers calls as l := by
  induction h with
  | nil =>
    intro i current hcurrent
    cases hcurrent
  | @snoc as l l' a hrun hstep ih =>
    intro i current hcurrent
    have hsession := session_step hrun hstep
    have htokens := tokens_step hrun hsession
    obtain ⟨grant, hgrant, hbegan⟩ := Option.bind_eq_some_iff.mp hcurrent
    rcases grantOf_step hsession i with ⟨rfl, hfirst⟩ | ⟨ha, hbefore⟩
    · -- the refresh begins, and leaves the tokens as they are
      obtain ⟨hrefreshes, hstored⟩ := hfirst.current current hcurrent
      have hwrite : (calls i).tokenWrite = none := by
        cases hcall : calls i with
        | logout => simp [hcall, AuthCall.refreshes] at hrefreshes
        | _ => rfl
      rw [lastWrite_concat_call]
      rw [tokenWrite, hwrite, hstored] at htokens
      exact htokens
    · rw [lastWrite_concat ha]
      refine (ih i current ?_).trans htokens
      rw [refreshing, hbefore grant hgrant]
      exact hbegan

/-! ## One step -/

theorem keepsNewer_iff (hstep : (browserSession browser calls).Step l a l') :
    KeepsNewer browser calls l a ↔ ∀ i c current, a = .answer i c →
      refreshing l i = some current → l'.memory.storage ≠ l.memory.storage →
      l.memory.storage.tokens = some current := by
  constructor
  · intro h i c current ha hcurrent
    exact h i c current l' ha hcurrent hstep
  · intro h i c current l'' ha hcurrent hstep'
    obtain rfl : l' = l'' := Option.some.inj (hstep.symm.trans hstep')
    exact h i c current ha hcurrent

theorem not_keepsNewer {i : ι} {c : AuthAnswer} {current : StoredTokens}
    (hstep : (browserSession browser calls).Step l (.answer i c) l')
    (hcurrent : refreshing l i = some current)
    (hchanged : l'.memory.storage.tokens ≠ l.memory.storage.tokens)
    (hnewer : l.memory.storage.tokens ≠ some current) :
    ¬KeepsNewer browser calls l (.answer i c) := by
  intro hkeeps
  refine hnewer (hkeeps i c current l' rfl hcurrent hstep fun heq => hchanged ?_)
  rw [heq]

omit [DecidableEq ι] in
/-- An answer to a refresh changes the storage only where it refuses the refresh, or gives
it tokens. -/
theorem storage_answered {op : AuthOp} {r : AuthReply op} {accepted : List String}
    {m : Tab} {clientId token : String} {current : StoredTokens}
    (hgrant : op.grant = some (.refreshToken clientId token current))
    (h : Answered op r { l.memory with acceptedRefreshTokens := accepted } m)
    (hchanged : m.storage ≠ l.memory.storage) :
    (∃ status, AuthAnswer.of op r = .response (.response status) ∧ isOk status = false ∧
      l.memory.storage.tokens ≠ none) ∨
    ∃ data, AuthAnswer.of op r = .body (some data) := by
  cases op with
  | digest _ | microtask => cases hgrant
  | fetch url grant =>
    cases hgrant
    cases r with
    | networkError =>
      obtain rfl := h
      exact absurd rfl hchanged
    | response status =>
      obtain rfl := h
      cases hok : isOk status with
      | true => simp [hok] at hchanged
      | false =>
        refine Or.inl ⟨status, rfl, hok, fun hnone => hchanged ?_⟩
        rw [if_neg (by simp [hok]), ← hnone]
  | json grant =>
    cases hgrant
    cases r with
    | none =>
      obtain rfl := h
      exact absurd rfl hchanged
    | some data => exact Or.inr ⟨data, rfl⟩

theorem keepsNewer_of_untouched (h : SessionReach browser calls m₀ as l)
    (hstep : (browserSession browser calls).Step l a l') (huntouched : TokensUntouched calls as a) :
    KeepsNewer browser calls l a := by
  rw [keepsNewer_iff hstep]
  rintro i c current rfl hcurrent hchanged
  have hremembers := remembers_of_run h i current hcurrent
  obtain ⟨grant, hgrant, hbegan⟩ := Option.bind_eq_some_iff.mp hcurrent
  obtain ⟨op, hop, hsent⟩ := Option.bind_eq_some_iff.mp hgrant
  have hsends := sends_of_run h hgrant
  cases grant with
  | authorizationCode clientId redirectUri code verifier => cases hbegan
  | refreshToken clientId token began =>
    obtain rfl := Option.some.inj hbegan
    have hrefreshes : (calls i).refreshes = true := hsends
    cases session_step h hstep with
    | @answer _ op' _ r accepted hpending heffect _ =>
      obtain rfl := Option.some.inj (hpending.symm.trans hop)
      rcases storage_answered hsent heffect.1 hchanged with
        ⟨status, heq, hrefused, htokens⟩ | ⟨data, heq⟩
      · -- refused: only a logout or another refusal wrote the tokens meanwhile
        rw [heq] at huntouched
        have hwrite := huntouched hrefreshes hrefused
        cases hlast : lastWrite calls i as with
        | none =>
          rw [hlast] at hremembers
          exact hremembers
        | some write =>
          rw [hlast] at hremembers hwrite
          cases write with
          | stored => exact absurd rfl hwrite
          | cleared => exact absurd hremembers htokens
      · rw [heq] at huntouched
        have hwrite : lastWrite calls i as = none := huntouched hrefreshes
        rw [hwrite] at hremembers
        exact hremembers

/-! ## Runs -/

/-- In every order of the calls and their answers, a refresh writes over newer session state
only where another call has written the tokens while it waited. -/
theorem refresh_keeps_newer_tokens (browser : Browser) (calls : ι → AuthCall) (m₀ : Tab)
    (as : List (Label ι AuthAnswer ℤ)) (l : SessionLoop ι)
    (h : Runs.Run.Throughout (browserSession browser calls).Step
      (fun as _ => TokensUntouched calls as) (Loop.init m₀) as l) :
    Runs.Run.Every (browserSession browser calls).Step (KeepsNewer browser calls)
      (Loop.init m₀) as l :=
  h.every fun _ _ _ _ hrun hstep => keepsNewer_of_untouched hrun hstep

def expiredTokens : StoredTokens := ⟨some "access-1", some "refresh-1", none, 0, "Bearer"⟩

def signedIn : Tab :=
  { Tab.opened 1000000 with storage := { SessionStorage.empty with tokens := some expiredTokens } }

def freshData : TokenData := ⟨some "access-2", some "refresh-2", none, none, some 300⟩

def freshTokens : StoredTokens := ⟨some "access-2", some "refresh-2", none, 1300000, "Bearer"⟩

def refreshCalls : ℕ → AuthCall
  | 0 => .getValidAccessToken
  | 1 => .useAuthRefresh
  | _ => .logout

/-- Both refreshes send `refresh-1`; the first is given new tokens. -/
def overlappingRefreshes : List (Label ℕ AuthAnswer ℤ) :=
  [.call 0, .call 1, .answer 0 (.response (.response 200)), .answer 0 (.body (some freshData))]

/-- The user logs out before the refresh is answered. -/
def logoutDuringRefresh : List (Label ℕ AuthAnswer ℤ) :=
  [.call 0, .call 2, .answer 0 (.response (.response 200))]

/-- The second refresh is refused, and clears the tokens of the first; and the refresh
that ends after the logout stores tokens again. -/
theorem refresh_undoes_newer_state :
    (∃ l l', SessionReach exampleBrowser refreshCalls signedIn overlappingRefreshes l ∧
      (browserSession exampleBrowser refreshCalls).Step l
        (.answer 1 (.response (.response 400))) l' ∧
      l.memory.storage.tokens = some freshTokens ∧ l'.memory.storage.tokens = none ∧
      ¬KeepsNewer exampleBrowser refreshCalls l (.answer 1 (.response (.response 400)))) ∧
    ∃ l l', SessionReach exampleBrowser refreshCalls signedIn logoutDuringRefresh l ∧
      (browserSession exampleBrowser refreshCalls).Step l (.answer 0 (.body (some freshData))) l' ∧
      l.memory.storage.tokens = none ∧ l'.memory.storage.tokens = some freshTokens ∧
      ¬KeepsNewer exampleBrowser refreshCalls l (.answer 0 (.body (some freshData))) := by
  constructor
  · refine ⟨_, _, Runs.run_of_exec rfl, rfl, rfl, rfl, ?_⟩
    exact not_keepsNewer rfl (rfl : _ = some expiredTokens) (by decide) (by decide)
  · refine ⟨_, _, Runs.run_of_exec rfl, rfl, rfl, rfl, ?_⟩
    exact not_keepsNewer rfl (rfl : _ = some expiredTokens) (by decide) (by decide)

/-- The second refresh fails while the first one is given tokens, and a logout follows. -/
def failingRefresh : List (Label ℕ AuthAnswer ℤ) :=
  overlappingRefreshes ++ [.answer 1 (.response .networkError), .call 2]

theorem refresh_keeps_newer_tokens_example :
    ∃ l, Runs.Run.Every (browserSession exampleBrowser refreshCalls).Step
        (KeepsNewer exampleBrowser refreshCalls) (Loop.init signedIn) failingRefresh l ∧
      l.memory.storage.tokens = none := by
  have hrun : ∃ l, Runs.Run.Throughout (browserSession exampleBrowser refreshCalls).Step
      (fun as _ => TokensUntouched refreshCalls as) (Loop.init signedIn) failingRefresh l ∧
      l.memory.storage.tokens = none := by
    refine ⟨_, Runs.throughout_of_exec rfl ?_, rfl⟩
    -- no tokens were written before the first refresh is given some
    exact ⟨trivial, trivial, fun _ hrefused => Bool.noConfusion hrefused, fun _ => rfl, trivial,
      trivial, trivial⟩
  obtain ⟨l, hl, htokens⟩ := hrun
  exact ⟨l, refresh_keeps_newer_tokens _ _ _ _ l hl, htokens⟩

end GoAnalyze
