import GoAnalyze.Spec.BrowserAuth

/-! What one step of a call does to the tab: from the call to its first wait, and from each
answer to the next wait or the end. -/

namespace GoAnalyze

open EventLoop Auth

/-! ## The specification -/

/-- The tab once `completeLogin` has sent the code, if its check lets it. -/
def Tab.exchange (browser : Browser) (code state : String) (m : Tab) : Tab :=
  match verifierFor m.storage state with
  | none => m
  | some verifier => { m with sent := m.sent ++
      [.authorizationCode browser.keycloakClientId (oidcRedirectUri browser) code verifier] }

def Begun (browser : Browser) : AuthCall → Tab → Tab → Prop
  | .login _, m, m' => m' = { m with draws := m.draws + 1 }
  | .completeLogin code state, m, m' => m' = m.exchange browser code state
  | .callbackInner search, m, m' =>
    match search.check with
    | .error _ => m' = m
    | .ok (code, state) => m' = m.exchange browser code state
  | .refreshTokens, m, m' | .getValidAccessToken, m, m' | .useAuthRefresh, m, m' =>
    m' = m ∨ ∃ current token, m.storage.tokens = some current ∧
      m' = { m with sent := m.sent ++ [.refreshToken browser.keycloakClientId token current] }
  | .logout, m, m' => ∃ location, m' = { m with
      storage := { m.storage with tokens := none }
      location := location }

def Answered : (op : AuthOp) → AuthReply op → Tab → Tab → Prop
  | .digest verifier, some _, m, m' => ∃ state redirectAfter location, m' = { m with
      draws := m.draws + 1
      storage := ⟨m.storage.tokens, some verifier, some state, some redirectAfter⟩
      logins := m.logins ++ [⟨verifier, state⟩]
      location := location }
  | .fetch _ (.refreshToken _ _ _), .response status, m, m' =>
    m' = if isOk status then m else { m with storage := { m.storage with tokens := none } }
  | .json (.refreshToken _ token _), some data, m, m' => m' = { m with
      storage := { m.storage with
        tokens := some (tokensOf m.now data (data.refreshToken <|> some token)) } }
  | .json (.authorizationCode _ _ _ verifier), some data, m, m' => ∃ state, m' = { m with
      storage := ⟨some (tokensOf m.now data data.refreshToken), none, none,
        m.storage.postLoginRedirect⟩
      redemptions := m.redemptions ++ [⟨verifier, state⟩] }
  | .microtask, _, m, m' => ∃ redirect, m' = { m with
      storage := { m.storage with postLoginRedirect := redirect } }
  | _, _, m, m' => m' = m

/-! ## What the calls wait for -/

def Grant.verifier : Grant → Option String
  | .authorizationCode _ _ _ verifier => some verifier
  | .refreshToken _ _ _ => none

/-- The tokens that the refresh began with. -/
def Grant.current : Grant → Option StoredTokens
  | .authorizationCode _ _ _ _ => none
  | .refreshToken _ _ current => some current

/-- What the token endpoint was sent, while the call waits for it. -/
def AuthOp.grant : AuthOp → Option Grant
  | .fetch _ grant | .json grant => some grant
  | _ => none

/-- The grant whose body is read next. -/
def AuthOp.accepted : (op : AuthOp) → AuthReply op → Option Grant
  | .fetch _ grant, .response status => if isOk status then some grant else none
  | _, _ => none

def AuthCall.refreshes : AuthCall → Bool
  | .refreshTokens | .getValidAccessToken | .useAuthRefresh => true
  | _ => false

/-- The code and the state the call hands to `completeLogin`. -/
def AuthCall.redeems : AuthCall → Option (String × String)
  | .completeLogin code state => some (code, state)
  | .callbackInner search => search.check.toOption
  | _ => none

/-- A refresh begins with the tokens that are stored, an exchange with the verifier that is
stored. -/
structure FirstGrant (call : AuthCall) (m : Tab) (grant : Option Grant) : Prop where
  current : ∀ current, grant.bind Grant.current = some current →
    call.refreshes ∧ m.storage.tokens = some current
  verifier : grant.bind Grant.verifier =
    call.redeems.bind fun params => verifierFor m.storage params.2

def AuthCall.Start (browser : Browser) (call : AuthCall) (m : Tab) (next : Option AuthOp)
    (m' : Tab) : Prop :=
  Begun browser call m m' ∧ FirstGrant call m (next.bind AuthOp.grant)

def AuthOp.Effect (op : AuthOp) (r : AuthReply op) (m : Tab) (next : Option AuthOp) (m' : Tab) :
    Prop :=
  Answered op r m m' ∧ next.bind AuthOp.grant = op.accepted r

/-! ## The functions -/

section Functions

variable {E : (op : AuthOp) → AuthReply op → Tab → Option AuthOp → Tab → Prop}
  {G : Option AuthOp → Tab → Prop} {s : Tab}

@[simp] theorem segments_getStoredTokens
    {Q : Except Rejection (Option StoredTokens) → (Option AuthOp → Tab → Prop) → Tab → Prop} :
    getStoredTokens.run.segments E Q G s ↔ Q (.ok s.storage.tokens) G s :=
  Iff.rfl

@[simp] theorem segments_randomString (browser : Browser) (length : ℕ)
    {Q : Except Rejection String → (Option AuthOp → Tab → Prop) → Tab → Prop} :
    (randomString browser length).run.segments E Q G s ↔
      Q (.ok (String.ofList
        ((base64UrlDigits (browser.getRandomValues s.draws length)).take length))) G
        { s with draws := s.draws + 1 } :=
  Iff.rfl

@[simp] theorem segments_fetchToken (browser : Browser) (grant : Grant)
    {Q : Except Rejection TokenResponse → (Option AuthOp → Tab → Prop) → Tab → Prop} :
    (fetchToken browser grant).run.segments E Q G s ↔
      G (some (.fetch (discoveryUrl browser "token") grant)) { s with sent := s.sent ++ [grant] } ∧
      ∀ r s', Q (.ok r) (E (.fetch (discoveryUrl browser "token") grant) r s') s' :=
  Iff.rfl

end Functions

/-- What follows is either the end or a microtask. -/
def Ends {α : Type} (Q : Except Rejection α → (Option AuthOp → Tab → Prop) → Tab → Prop) : Prop :=
  ∀ r G s, G none s → G (some .microtask) s → Q r G s

variable (browser : Browser) {G : Option AuthOp → Tab → Prop} {s : Tab}

theorem segments_login (redirectAfter : String)
    {Q : Except Rejection Unit → (Option AuthOp → Tab → Prop) → Tab → Prop} (hQ : Ends Q)
    (hG : ∀ next m', (AuthCall.login redirectAfter).Start browser s next m' → G next m') :
    (login browser redirectAfter).run.segments AuthOp.Effect Q G s := by
  unfold login
  simp only [Async.segments_bindExcept, segments_randomString]
  refine ⟨hG _ _ ⟨rfl, nofun, rfl⟩, fun bytes s' => ?_⟩
  cases bytes with
  | none => exact hQ _ _ _ ⟨rfl, rfl⟩ ⟨rfl, rfl⟩
  | some bytes => exact hQ _ _ _ ⟨⟨_, _, _, rfl⟩, rfl⟩ ⟨⟨_, _, _, rfl⟩, rfl⟩

theorem segments_completeLogin (code state : String)
    {Q : Except Rejection LoginResult → (Option AuthOp → Tab → Prop) → Tab → Prop} (hQ : Ends Q)
    (hG : ∀ next, (next.bind AuthOp.grant).bind Grant.verifier = verifierFor s.storage state →
      (next.bind AuthOp.grant).bind Grant.current = none →
      G next (s.exchange browser code state)) :
    (completeLogin browser code state).run.segments AuthOp.Effect Q G s := by
  unfold completeLogin
  unfold Tab.exchange at hG
  simp only [Async.segments_bindExcept, Async.segments_get]
  cases hstored : verifierFor s.storage state with
  | none =>
    rw [hstored] at hG
    exact hQ _ _ _ (hG none rfl rfl) (hG (some .microtask) rfl rfl)
  | some verifier =>
    rw [hstored] at hG
    simp only [Async.segments_bindExcept, segments_fetchToken]
    refine ⟨hG _ rfl rfl, fun response s' => ?_⟩
    cases response with
    | networkError => exact hQ _ _ _ ⟨rfl, rfl⟩ ⟨rfl, rfl⟩
    | response status =>
      dsimp only
      split
      · next hok =>
        simp only [Async.segments_bindExcept]
        refine ⟨⟨rfl, (if_pos hok).symm⟩, fun data s' => ?_⟩
        cases data with
        | none => exact hQ _ _ _ ⟨rfl, rfl⟩ ⟨rfl, rfl⟩
        | some data => exact hQ _ _ _ ⟨⟨state, rfl⟩, rfl⟩ ⟨⟨state, rfl⟩, rfl⟩
      · next hrefused =>
        exact hQ _ _ _ ⟨rfl, (if_neg hrefused).symm⟩ ⟨rfl, (if_neg hrefused).symm⟩

/-- How a refresh of the tokens begins. -/
def Refreshes (browser : Browser) (G : Option AuthOp → Tab → Prop) (s : Tab) : Prop :=
  ∀ next m', AuthCall.refreshTokens.Start browser s next m' → G next m'

theorem Refreshes.ends (h : Refreshes browser G s) {next : Option AuthOp}
    (hnext : next.bind AuthOp.grant = none) : G next s := by
  refine h _ _ ⟨Or.inl rfl, ?_⟩
  rw [hnext]
  exact ⟨nofun, rfl⟩

theorem segments_refreshWith {current : StoredTokens} (hcurrent : s.storage.tokens = some current)
    (token : String)
    {Q : Except Rejection (Option StoredTokens) → (Option AuthOp → Tab → Prop) → Tab → Prop}
    (hQ : Ends Q) (hG : Refreshes browser G s) :
    (refreshWith browser current token).run.segments AuthOp.Effect Q G s := by
  unfold refreshWith
  simp only [Async.segments_bindExcept, segments_fetchToken]
  refine ⟨hG _ _ ⟨Or.inr ⟨current, token, hcurrent, rfl⟩, ?_, rfl⟩, fun response s' => ?_⟩
  · rintro _ ⟨⟩
    exact ⟨rfl, hcurrent⟩
  · cases response with
    | networkError => exact hQ _ _ _ ⟨rfl, rfl⟩ ⟨rfl, rfl⟩
    | response status =>
      dsimp only
      split
      · next hok =>
        simp only [Async.segments_bindExcept]
        refine ⟨⟨(if_pos hok).symm, (if_pos hok).symm⟩, fun data s' => ?_⟩
        cases data with
        | none => exact hQ _ _ _ ⟨rfl, rfl⟩ ⟨rfl, rfl⟩
        | some data => exact hQ _ _ _ ⟨rfl, rfl⟩ ⟨rfl, rfl⟩
      · next hrefused =>
        exact hQ _ _ _ ⟨(if_neg hrefused).symm, (if_neg hrefused).symm⟩
          ⟨(if_neg hrefused).symm, (if_neg hrefused).symm⟩

theorem segments_refreshTokens
    {Q : Except Rejection (Option StoredTokens) → (Option AuthOp → Tab → Prop) → Tab → Prop}
    (hQ : Ends Q) (hG : Refreshes browser G s) :
    (refreshTokens browser).run.segments AuthOp.Effect Q G s := by
  unfold refreshTokens
  simp only [Async.segments_bindExcept, segments_getStoredTokens]
  split
  · exact hQ _ _ _ (hG.ends browser rfl) (hG.ends browser rfl)
  · next current hcurrent =>
    split
    · exact hQ _ _ _ (hG.ends browser rfl) (hG.ends browser rfl)
    · exact segments_refreshWith browser hcurrent _ hQ hG

theorem effect_microtask (s : Tab) {next : Option AuthOp} (hnext : next.bind AuthOp.grant = none) :
    AuthOp.microtask.Effect () s next s :=
  ⟨⟨s.storage.postLoginRedirect, rfl⟩, hnext⟩

theorem segments_getValidAccessToken
    {Q : Except Rejection (Option String) → (Option AuthOp → Tab → Prop) → Tab → Prop}
    (hQ : Ends Q) (hG : Refreshes browser G s) :
    (getValidAccessToken browser).run.segments AuthOp.Effect Q G s := by
  unfold getValidAccessToken
  simp only [Async.segments_bindExcept, segments_getStoredTokens]
  split
  · exact hQ _ _ _ (hG.ends browser rfl) (hG.ends browser rfl)
  · simp only [Async.segments_bindExcept, Async.segments_get]
    split
    · simp only [Async.segments_bindExcept]
      refine segments_refreshTokens browser (fun r G s hend hwait => ?_) hG
      cases r with
      | error e => exact hQ _ _ _ hend hwait
      | ok tokens =>
        exact ⟨hwait, fun _ s' => hQ _ _ _ (effect_microtask s' rfl) (effect_microtask s' rfl)⟩
    · exact hQ _ _ _ (hG.ends browser rfl) (hG.ends browser rfl)

theorem segments_useAuthRefresh
    {Q : Except Rejection (Bool × Option StoredTokens) → (Option AuthOp → Tab → Prop) → Tab → Prop}
    (hQ : Ends Q) (hG : Refreshes browser G s) :
    (useAuthRefresh browser).run.segments AuthOp.Effect Q G s := by
  unfold useAuthRefresh
  simp only [Async.segments_bindExcept, Async.segments_get]
  split
  · simp only [Async.segments_bindExcept]
    refine segments_refreshTokens browser (fun r G s hend hwait => ?_) hG
    cases r with
    | error e => exact hQ _ _ _ hend hwait
    | ok tokens =>
      exact ⟨hwait, fun _ s' => hQ _ _ _ (effect_microtask s' rfl) (effect_microtask s' rfl)⟩
  · exact hQ _ _ _ (hG.ends browser rfl) (hG.ends browser rfl)

theorem segments_callbackInner (search : CallbackParams)
    {Q : Except Rejection CallbackPage → (Option AuthOp → Tab → Prop) → Tab → Prop} (hQ : Ends Q)
    (hG : ∀ next m', (AuthCall.callbackInner search).Start browser s next m' → G next m') :
    (callbackInner browser search).run.segments AuthOp.Effect Q G s := by
  unfold callbackInner
  simp only [AuthCall.Start, Begun] at hG
  cases hcheck : search.check with
  | error text =>
    rw [hcheck] at hG
    have hend : FirstGrant (.callbackInner search) s none :=
      ⟨nofun, by simp [AuthCall.redeems, hcheck, Except.toOption]⟩
    exact hQ _ _ _ (hG _ s ⟨rfl, hend⟩) (hG _ s ⟨rfl, hend⟩)
  | ok params =>
    obtain ⟨code, state⟩ := params
    rw [hcheck] at hG
    simp only [Async.segments_bindExcept]
    refine segments_completeLogin browser code state (fun r G s hend hwait => ?_)
      fun next hverifier hcurrent => hG _ _ ⟨rfl, ?_, ?_⟩
    · cases r with
      | error e => exact hQ _ _ _ hend hwait
      | ok result =>
        refine ⟨hwait, fun _ s' => ?_⟩
        cases result with
        | ok => exact hQ _ _ _ ⟨⟨none, rfl⟩, rfl⟩ ⟨⟨none, rfl⟩, rfl⟩
        | error text => exact hQ _ _ _ (effect_microtask s' rfl) (effect_microtask s' rfl)
    · simp [hcurrent]
    · simpa [AuthCall.redeems, hcheck, Except.toOption] using hverifier

/-! ## Every step -/

theorem flows_run (call : AuthCall) (m : Tab) :
    (call.run browser).run.Flows AuthOp.Effect (call.Start browser m) m := by
  have hend : ∀ {α : Type}, Ends fun (_ : Except Rejection α) G s => G none s :=
    fun _ _ _ hend _ => hend
  cases call with
  | logout => exact ⟨⟨_, rfl⟩, nofun, rfl⟩
  | login redirectAfter =>
    exact (Async.flows_mapExcept _ _).mpr (segments_login browser redirectAfter hend fun _ _ h => h)
  | completeLogin code state =>
    refine (Async.flows_mapExcept _ _).mpr (segments_completeLogin browser code state hend ?_)
    exact fun next hverifier hcurrent => ⟨rfl, by simp [hcurrent], hverifier⟩
  | callbackInner search =>
    exact (Async.flows_mapExcept _ _).mpr (segments_callbackInner browser search hend fun _ _ h => h)
  | refreshTokens =>
    exact (Async.flows_mapExcept _ _).mpr (segments_refreshTokens browser hend fun _ _ h => h)
  | getValidAccessToken =>
    exact (Async.flows_mapExcept _ _).mpr
      (segments_getValidAccessToken browser hend fun _ _ h => ⟨h.1, h.2.current, h.2.verifier⟩)
  | useAuthRefresh =>
    exact (Async.flows_mapExcept _ _).mpr
      (segments_useAuthRefresh browser hend fun _ _ h => ⟨h.1, h.2.current, h.2.verifier⟩)

/-! ## What every function of the refresh keeps -/

section Refresh

variable {I : Tab → Prop} {R : Tab → Tab → Prop} {s₀ s : Tab}

@[simp] theorem wp_getStoredTokens
    {Q : Except Rejection (Option StoredTokens) → Tab → Tab → Prop} :
    getStoredTokens.run.wp I R Q s₀ s ↔ Q (.ok s.storage.tokens) s₀ s :=
  Iff.rfl

@[simp] theorem wp_randomString (browser : Browser) (length : ℕ)
    {Q : Except Rejection String → Tab → Tab → Prop} :
    (randomString browser length).run.wp I R Q s₀ s ↔
      Q (.ok (String.ofList
        ((base64UrlDigits (browser.getRandomValues s.draws length)).take length))) s₀
        { s with draws := s.draws + 1 } :=
  Iff.rfl

@[simp] theorem wp_fetchToken (browser : Browser) (grant : Grant)
    {Q : Except Rejection TokenResponse → Tab → Tab → Prop} :
    (fetchToken browser grant).run.wp I R Q s₀ s ↔
      I { s with sent := s.sent ++ [grant] } ∧ R s₀ { s with sent := s.sent ++ [grant] } ∧
      ∀ r s', R { s with sent := s.sent ++ [grant] } s' → I s' → Q (.ok r) s' s' :=
  Iff.rfl

/-- The refresh of the tokens sends refresh grants, and stores or clears the tokens. -/
structure KeptByRefresh (I : Tab → Prop) (R : Tab → Tab → Prop) : Prop where
  sent : ∀ s clientId token current, I s →
    I { s with sent := s.sent ++ [.refreshToken clientId token current] } ∧
      R s { s with sent := s.sent ++ [.refreshToken clientId token current] }
  tokens : ∀ s tokens, I s → I { s with storage := { s.storage with tokens := tokens } } ∧
    R s { s with storage := { s.storage with tokens := tokens } }

variable [Std.Refl R] [IsTrans Tab R] (browser : Browser) (hkept : KeptByRefresh I R)
include hkept

theorem wp_refreshWith (current : StoredTokens) (token : String)
    {Q : Except Rejection (Option StoredTokens) → Tab → Tab → Prop}
    (hQ : ∀ r s₀ s, I s → R s₀ s → Q r s₀ s) (hs : I s) (hR : R s₀ s) :
    (refreshWith browser current token).run.wp I R Q s₀ s := by
  unfold refreshWith
  simp only [Async.wp_bindExcept, wp_fetchToken]
  obtain ⟨hsent, hRsent⟩ := hkept.sent s browser.keycloakClientId token current hs
  refine ⟨hsent, IsTrans.trans _ _ _ hR hRsent, fun response s₁ _ hs₁ => ?_⟩
  cases response with
  | networkError => exact hQ _ _ _ hs₁ (refl s₁)
  | response status =>
    dsimp only
    split
    · refine ⟨hs₁, refl s₁, fun data s₂ _ hs₂ => ?_⟩
      cases data with
      | none => exact hQ _ _ _ hs₂ (refl s₂)
      | some data =>
        obtain ⟨hstored, hRstored⟩ := hkept.tokens s₂ _ hs₂
        exact hQ _ _ _ hstored hRstored
    · obtain ⟨hcleared, hRcleared⟩ := hkept.tokens s₁ none hs₁
      exact hQ _ _ _ hcleared hRcleared

theorem wp_refreshTokens {Q : Except Rejection (Option StoredTokens) → Tab → Tab → Prop}
    (hQ : ∀ r s₀ s, I s → R s₀ s → Q r s₀ s) (hs : I s) (hR : R s₀ s) :
    (refreshTokens browser).run.wp I R Q s₀ s := by
  unfold refreshTokens
  simp only [Async.wp_bindExcept, wp_getStoredTokens]
  split
  · exact hQ _ _ _ hs hR
  · split
    · exact hQ _ _ _ hs hR
    · exact wp_refreshWith browser hkept _ _ hQ hs hR

theorem wp_getValidAccessToken {Q : Except Rejection (Option String) → Tab → Tab → Prop}
    (hQ : ∀ r s₀ s, I s → R s₀ s → Q r s₀ s) (hs : I s) (hR : R s₀ s) :
    (getValidAccessToken browser).run.wp I R Q s₀ s := by
  unfold getValidAccessToken
  simp only [Async.wp_bindExcept, wp_getStoredTokens]
  split
  · exact hQ _ _ _ hs hR
  · simp only [Async.wp_bindExcept, Async.wp_get]
    split
    · simp only [Async.wp_bindExcept]
      refine wp_refreshTokens browser hkept (fun r s₀ s hs hR => ?_) hs hR
      cases r with
      | error e => exact hQ _ _ _ hs hR
      | ok tokens => exact ⟨hs, hR, fun _ s' _ hs' => hQ _ _ _ hs' (refl s')⟩
    · exact hQ _ _ _ hs hR

theorem wp_useAuthRefresh {Q : Except Rejection (Bool × Option StoredTokens) → Tab → Tab → Prop}
    (hQ : ∀ r s₀ s, I s → R s₀ s → Q r s₀ s) (hs : I s) (hR : R s₀ s) :
    (useAuthRefresh browser).run.wp I R Q s₀ s := by
  unfold useAuthRefresh
  simp only [Async.wp_bindExcept, Async.wp_get]
  split
  · simp only [Async.wp_bindExcept]
    refine wp_refreshTokens browser hkept (fun r s₀ s hs hR => ?_) hs hR
    cases r with
    | error e => exact hQ _ _ _ hs hR
    | ok tokens => exact ⟨hs, hR, fun _ s' _ hs' => hQ _ _ _ hs' (refl s')⟩
  · exact hQ _ _ _ hs hR

end Refresh

def exampleBrowser : Browser where
  keycloakIssuer := "http://localhost:8081/realms/goanalyze"
  keycloakClientId := "goanalyze-frontend"
  origin := "http://localhost:3000"
  getRandomValues draw length := List.replicate length (UInt8.ofNat draw)

/-- The states that some order of the calls and their answers reaches from `m₀`. -/
def SessionReach {ι : Type} [DecidableEq ι] (calls : ι → AuthCall) (m₀ : Tab)
    (as : List (Label ι AuthAnswer ℤ)) (s : SessionLoop ι) : Prop :=
  Runs.Run (browserSession browser calls).Step (Loop.init m₀) as s

variable {browser} {ι : Type} [DecidableEq ι] {calls : ι → AuthCall} {m₀ : Tab}
  {as : List (Label ι AuthAnswer ℤ)} {l l' : SessionLoop ι} {a : Label ι AuthAnswer ℤ}

def AuthAnswer.of : (op : AuthOp) → AuthReply op → AuthAnswer
  | .digest _, r => .digest r
  | .fetch _ _, r => .response r
  | .json _, r => .body r
  | .microtask, _ => .microtask

theorem answer_cases {s m : Tab} {op : AuthOp} {c : AuthAnswer} {r : AuthReply op}
    (h : s.answer op c = some (r, m)) :
    c = .of op r ∧ ∃ accepted, m = { s with acceptedRefreshTokens := accepted } := by
  unfold Tab.answer at h
  split at h
  · cases h; exact ⟨rfl, _, rfl⟩
  · next token _ response =>
    unfold Tab.acceptRefresh at h
    split at h
    · split_ifs at h
      · cases h; exact ⟨rfl, _, rfl⟩
      · cases h; exact ⟨rfl, _, rfl⟩
    · cases h; exact ⟨rfl, _, rfl⟩
  · cases h; exact ⟨rfl, _, rfl⟩
  · cases h; exact ⟨rfl, _, rfl⟩
  · cases h; exact ⟨rfl, _, rfl⟩
  · cases h

/-- What one step does to the tab, and what its call waits for then. -/
inductive SessionStep (browser : Browser) (calls : ι → AuthCall) (l : SessionLoop ι) :
    Label ι AuthAnswer ℤ → SessionLoop ι → Prop where
  | call {i : ι} {l' : SessionLoop ι} : l.calls i = none →
      (calls i).Start browser l.memory (l'.pending i) l'.memory →
      (∀ j, j ≠ i → l'.pending j = l.pending j) → SessionStep browser calls l (.call i) l'
  | answer {i : ι} {op : AuthOp} {l' : SessionLoop ι} (r : AuthReply op) (accepted : List String) :
      l.pending i = some op →
      op.Effect r { l.memory with acceptedRefreshTokens := accepted } (l'.pending i) l'.memory →
      (∀ j, j ≠ i → l'.pending j = l.pending j) →
      SessionStep browser calls l (.answer i (.of op r)) l'
  | event (now : ℤ) :
      SessionStep browser calls l (.event now) { l with memory := { l.memory with now := now } }

theorem session_step (h : SessionReach browser calls m₀ as l)
    (hstep : (browserSession browser calls).Step l a l') : SessionStep browser calls l a l' := by
  cases effect_of_step (fun i m => flows_run browser (calls i) m) h hstep with
  | call hc hstart hothers => exact .call hc hstart hothers
  | answer hpending hanswer heffect hothers =>
    obtain ⟨rfl, accepted, rfl⟩ := answer_cases hanswer
    exact .answer _ accepted hpending heffect hothers
  | event hevent =>
    rw [← Option.some.inj hevent]
    exact .event _

/-! ## The grants under way -/

def grantOf (l : SessionLoop ι) (i : ι) : Option Grant := (l.pending i).bind AuthOp.grant

omit [DecidableEq ι] in
theorem grantOf_pending {i : ι} {op : AuthOp} (h : l.pending i = some op) :
    grantOf l i = op.grant := by
  rw [grantOf, h, Option.bind_some]

theorem grantOf_accepted {op : AuthOp} {r : AuthReply op} {grant : Grant}
    (h : op.accepted r = some grant) : op.grant = some grant := by
  cases op with
  | fetch url g =>
    cases r with
    | networkError => cases h
    | response status =>
      simp only [AuthOp.accepted, Option.ite_none_right_eq_some] at h
      exact h.2
  | digest _ | json _ | microtask => cases h

theorem grantOf_step (h : SessionStep browser calls l a l') (i : ι) :
    (a = .call i ∧ FirstGrant (calls i) l.memory (grantOf l' i)) ∨
    (a.called ≠ some i ∧ ∀ grant, grantOf l' i = some grant → grantOf l i = some grant) := by
  cases h with
  | @call j _ hc hstart hothers =>
    by_cases hij : i = j
    · subst hij
      exact Or.inl ⟨rfl, hstart.2⟩
    · refine Or.inr ⟨by simpa [Label.called] using Ne.symm hij, fun grant hgrant => ?_⟩
      rwa [grantOf, hothers i hij] at hgrant
  | @answer j op _ r accepted hpending heffect hothers =>
    refine Or.inr ⟨by simp [Label.called], fun grant hgrant => ?_⟩
    by_cases hij : i = j
    · subst hij
      rw [grantOf, heffect.2] at hgrant
      rw [grantOf_pending hpending, grantOf_accepted hgrant]
    · rwa [grantOf, hothers i hij] at hgrant
  | event now => exact Or.inr ⟨by simp [Label.called], fun _ hgrant => hgrant⟩

/-- Only a refresh sends refresh tokens, and only `completeLogin` codes. -/
def AuthCall.Sends (call : AuthCall) : Grant → Prop
  | .authorizationCode _ _ _ _ => call.redeems.isSome
  | .refreshToken _ _ _ => call.refreshes

theorem AuthCall.refreshes_eq_false {call : AuthCall} (h : call.redeems.isSome) :
    call.refreshes = false := by
  cases call with
  | completeLogin _ _ | callbackInner _ => rfl
  | login _ | refreshTokens | getValidAccessToken | useAuthRefresh | logout => cases h

theorem FirstGrant.sends {call : AuthCall} {m : Tab} {grant : Grant}
    (h : FirstGrant call m (some grant)) : call.Sends grant := by
  cases grant with
  | refreshToken clientId token current => exact (h.current current rfl).1
  | authorizationCode clientId redirectUri code verifier =>
    have hsent : some verifier = _ := h.verifier
    cases hredeems : call.redeems with
    | none => simp [hredeems] at hsent
    | some params => simp [AuthCall.Sends, hredeems]

theorem sends_of_run (h : SessionReach browser calls m₀ as l) {i : ι} {grant : Grant}
    (hgrant : grantOf l i = some grant) : (calls i).Sends grant := by
  induction h generalizing i grant with
  | nil => cases hgrant
  | snoc hrun hstep ih =>
    rcases grantOf_step (session_step hrun hstep) i with ⟨-, hfirst⟩ | ⟨-, hbefore⟩
    · rw [hgrant] at hfirst
      exact hfirst.sends
    · exact ih (hbefore grant hgrant)

end GoAnalyze
