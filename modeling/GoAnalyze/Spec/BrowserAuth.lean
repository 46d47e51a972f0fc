import GoAnalyze.Lib.EventLoop

/-! `auth.ts` in one browser tab: the login with a code and PKCE, the refresh of the
tokens, and what both keep in the session storage. The calls of a page wait for the
browser and for the token endpoint, and go on in any order. -/

namespace GoAnalyze

open EventLoop

/-! ## The tab -/

structure StoredTokens where
  accessToken : Option String
  refreshToken : Option String
  idToken : Option String
  expiresAt : ℤ
  tokenType : String
deriving DecidableEq

/-- The keys of `auth.ts`. -/
structure SessionStorage where
  tokens : Option StoredTokens
  pkceVerifier : Option String
  authState : Option String
  postLoginRedirect : Option String
deriving DecidableEq

def SessionStorage.empty : SessionStorage := ⟨none, none, none, none⟩

/-- A body of the token endpoint: its `grant_type` with the other parameters. `current`,
the tokens a refresh began with, is not sent. -/
inductive Grant where
  | authorizationCode (clientId redirectUri code codeVerifier : String)
  | refreshToken (clientId refreshToken : String) (current : StoredTokens)
deriving DecidableEq

structure Url where
  base : String
  params : List (String × String)

structure LoginAttempt where
  verifier : String
  state : String

/-- The tab and its identity provider, which accepts a refresh token once. `sent`,
`logins` and `redemptions` are history, which no function reads: the bodies sent, what
each `login` stored, and what each `completeLogin` that stored tokens was called with. -/
structure Tab where
  now : ℤ
  storage : SessionStorage
  location : Option Url
  draws : ℕ
  acceptedRefreshTokens : List String
  sent : List Grant
  logins : List LoginAttempt
  redemptions : List LoginAttempt

/-- A new session. -/
def Tab.opened (now : ℤ) : Tab := ⟨now, .empty, none, 0, [], [], [], []⟩

/-- The browser: the configuration it was built with, and what its draws of random bytes
give, by their number and length. -/
structure Browser where
  keycloakIssuer : String
  keycloakClientId : String
  origin : String
  getRandomValues : ℕ → ℕ → List UInt8

/-! ## Waits -/

/-- A promise that is resolved already is awaited for a microtask. -/
inductive AuthOp where
  | digest (data : String)
  | fetch (url : String) (grant : Grant)
  | json (grant : Grant)
  | microtask

inductive TokenResponse where
  | networkError
  | response (status : ℕ)

/-- What the functions read of a token endpoint's answer. -/
structure TokenData where
  accessToken : Option String
  refreshToken : Option String
  idToken : Option String
  tokenType : Option String
  expiresIn : Option ℤ

/-- `none` where the promise is rejected: no `crypto.subtle`, or no object in the body. -/
abbrev AuthReply : AuthOp → Type
  | .digest _ => Option (List UInt8)
  | .fetch _ _ => TokenResponse
  | .json _ => Option TokenData
  | .microtask => Unit

inductive Rejection where
  | digest
  | body

abbrev TabTask := Async Tab AuthOp AuthReply

abbrev TabAsync := ExceptT Rejection TabTask

def SessionStorage.modify (f : SessionStorage → SessionStorage) : TabAsync Unit :=
  modifyThe Tab fun s => { s with storage := f s.storage }

def Tab.wait (op : AuthOp) : TabAsync (AuthReply op) :=
  (Async.wait op : TabTask (AuthReply op))

/-! ## `auth.ts` -/

namespace Auth

/-- A digit of base64, with `-` and `_` in place of `+` and `/`. -/
def base64UrlDigit (n : ℕ) : Char :=
  "ABCDEFGHIJKLMNOPQRSTUVWXYZabcdefghijklmnopqrstuvwxyz0123456789-_".toList.getD n 'A'

def base64UrlDigits : List UInt8 → List Char
  | a :: b :: c :: bytes =>
    let n := a.toNat * 65536 + b.toNat * 256 + c.toNat
    base64UrlDigit (n / 262144) :: base64UrlDigit (n / 4096 % 64) ::
      base64UrlDigit (n / 64 % 64) :: base64UrlDigit (n % 64) :: base64UrlDigits bytes
  | [a, b] =>
    let n := a.toNat * 1024 + b.toNat * 4
    [base64UrlDigit (n / 4096), base64UrlDigit (n / 64 % 64), base64UrlDigit (n % 64)]
  | [a] => [base64UrlDigit (a.toNat * 16 / 64), base64UrlDigit (a.toNat * 16 % 64)]
  | [] => []

def base64UrlEncode (bytes : List UInt8) : String := String.ofList (base64UrlDigits bytes)

def randomString (browser : Browser) (length : ℕ) : TabAsync String := do
  let draw := (← getThe Tab).draws
  modifyThe Tab fun s => { s with draws := s.draws + 1 }
  return String.ofList ((base64UrlDigits (browser.getRandomValues draw length)).take length)

/-- `discoveryUrls` under the issuer without its last slash. -/
def discoveryUrl (browser : Browser) (path : String) : String :=
  let issuer := browser.keycloakIssuer.toList
  String.ofList (if issuer.getLast? = some '/' then issuer.dropLast else issuer) ++
    "/protocol/openid-connect/" ++ path

def oidcRedirectUri (browser : Browser) : String := browser.origin ++ "/login/callback"

def getStoredTokens : TabAsync (Option StoredTokens) := return (← getThe Tab).storage.tokens

def storeTokens (tokens : StoredTokens) : TabAsync Unit :=
  SessionStorage.modify fun storage => { storage with tokens := some tokens }

def clearTokens : TabAsync Unit :=
  SessionStorage.modify fun storage => { storage with tokens := none }

def isTokenExpired (now : ℤ) : Option StoredTokens → Bool
  | none => true
  | some tokens => now ≥ tokens.expiresAt - 30000

def setLocation (url : Url) : TabAsync Unit :=
  modifyThe Tab fun s => { s with location := some url }

/-- `fetch` of the token endpoint. -/
def fetchToken (browser : Browser) (grant : Grant) : TabAsync TokenResponse := do
  modifyThe Tab fun s => { s with sent := s.sent ++ [grant] }
  Tab.wait (.fetch (discoveryUrl browser "token") grant)

/-- `response.ok`. -/
def isOk (status : ℕ) : Bool := 200 ≤ status && status < 300

/-- The tokens that the two functions store. -/
def tokensOf (now : ℤ) (data : TokenData) (refreshToken : Option String) : StoredTokens where
  accessToken := data.accessToken
  refreshToken := refreshToken
  idToken := data.idToken
  tokenType := data.tokenType.getD "Bearer"
  expiresAt := now + data.expiresIn.getD 300 * 1000

def login (browser : Browser) (redirectAfter : String := "/dashboard") : TabAsync Unit := do
  let verifier ← randomString browser 64
  match ← Tab.wait (.digest verifier) with
  | none => throw .digest
  | some challengeBytes =>
    let challenge := base64UrlEncode challengeBytes
    let state ← randomString browser 24
    SessionStorage.modify fun storage => { storage with
      pkceVerifier := some verifier
      authState := some state
      postLoginRedirect := some redirectAfter }
    modifyThe Tab fun s => { s with logins := s.logins ++ [⟨verifier, state⟩] }
    setLocation ⟨discoveryUrl browser "auth",
      [("client_id", browser.keycloakClientId), ("redirect_uri", oidcRedirectUri browser),
        ("response_type", "code"), ("scope", "openid profile email"), ("state", state),
        ("code_challenge", challenge), ("code_challenge_method", "S256")]⟩

inductive LoginResult where
  | ok
  | error (text : String)

/-- The check of `completeLogin`: the verifier of the stored attempt, if it is the
attempt of the returned state. -/
def verifierFor (storage : SessionStorage) (state : String) : Option String :=
  match storage.pkceVerifier.filter (· ≠ ""), storage.authState.filter (· ≠ "") with
  | some verifier, some expectedState => if state = expectedState then some verifier else none
  | _, _ => none

def completeLogin (browser : Browser) (code state : String) : TabAsync LoginResult := do
  match verifierFor (← getThe Tab).storage state with
  | none => return .error "Invalid or expired login state. Please try signing in again."
  | some verifier =>
    let grant := Grant.authorizationCode browser.keycloakClientId (oidcRedirectUri browser) code
      verifier
    match ← fetchToken browser grant with
    | .networkError =>
      return .error ("Could not reach the Keycloak token endpoint. " ++
        "Check that Keycloak is running and reachable from your browser.")
    | .response status =>
      if isOk status then
        match ← Tab.wait (.json grant) with
        | none => throw .body
        | some data =>
          storeTokens (tokensOf (← getThe Tab).now data data.refreshToken)
          modifyThe Tab fun s => { s with redemptions := s.redemptions ++ [⟨verifier, state⟩] }
          SessionStorage.modify fun storage => { storage with
            pkceVerifier := none
            authState := none }
          return .ok
      else return .error s!"Keycloak rejected the login (HTTP {status})."

def consumePostLoginRedirect : TabAsync String := do
  let target := (← getThe Tab).storage.postLoginRedirect
  SessionStorage.modify fun storage => { storage with postLoginRedirect := none }
  return (target.filter (· ≠ "")).getD "/dashboard"

/-- `refreshTokens` once it has a refresh token. -/
def refreshWith (browser : Browser) (current : StoredTokens) (token : String) :
    TabAsync (Option StoredTokens) := do
  let grant := Grant.refreshToken browser.keycloakClientId token current
  match ← fetchToken browser grant with
  | .networkError => return none
  | .response status =>
    if isOk status then
      match ← Tab.wait (.json grant) with
      | none => return none
      | some data =>
        let tokens := tokensOf (← getThe Tab).now data (data.refreshToken <|> some token)
        storeTokens tokens
        return some tokens
    else
      clearTokens
      return none

def refreshTokens (browser : Browser) : TabAsync (Option StoredTokens) := do
  match ← getStoredTokens with
  | none => return none
  | some current =>
    match current.refreshToken.filter (· ≠ "") with
    | none => return none
    | some token => refreshWith browser current token

def logout (browser : Browser) : TabAsync Unit := do
  let tokens ← getStoredTokens
  clearTokens
  let hint := (tokens.bind StoredTokens.idToken).filter (· ≠ "")
  setLocation ⟨discoveryUrl browser "logout",
    [("client_id", browser.keycloakClientId),
      ("post_logout_redirect_uri", browser.origin ++ "/login")] ++
    (hint.map fun idToken => ("id_token_hint", idToken)).toList⟩

def getValidAccessToken (browser : Browser) : TabAsync (Option String) := do
  match ← getStoredTokens with
  | none => return none
  | some tokens =>
    if isTokenExpired (← getThe Tab).now (some tokens) then
      let tokens ← refreshTokens browser
      Tab.wait .microtask
      return tokens.bind StoredTokens.accessToken
    else return tokens.accessToken

/-- `refresh` of `useAuth`: whether the user is authenticated, and the tokens whose access
token is decoded to the user. -/
def useAuthRefresh (browser : Browser) : TabAsync (Bool × Option StoredTokens) := do
  let s ← getThe Tab
  let ok ←
    if isTokenExpired s.now s.storage.tokens then do
      let refreshed ← refreshTokens browser
      Tab.wait .microtask
      pure refreshed.isSome
    else pure true
  let s ← getThe Tab
  return (ok, if ok then s.storage.tokens else none)

/-! ## `/login/callback` -/

structure CallbackParams where
  code : Option String
  state : Option String
  error : Option String
  errorDescription : Option String

inductive CallbackPage where
  | replace (target : String)
  | error (text : String)

/-- The code and the state that the effect passes on, or the text that it shows. -/
def CallbackParams.check (search : CallbackParams) : Except String (String × String) :=
  match search.error.filter (· ≠ "") with
  | some error => .error ((search.errorDescription.filter (· ≠ "")).getD
      ("Keycloak returned an error: " ++ error))
  | none =>
    match search.code.filter (· ≠ ""), search.state.filter (· ≠ "") with
    | some code, some state => .ok (code, state)
    | _, _ => .error "Missing authorization code. Please try signing in again."

/-- The effect of `CallbackInner`. -/
def callbackInner (browser : Browser) (search : CallbackParams) : TabAsync CallbackPage := do
  match search.check with
  | .error text => return .error text
  | .ok (code, state) =>
    let result ← completeLogin browser code state
    Tab.wait .microtask
    match result with
    | .ok => return .replace (← consumePostLoginRedirect)
    | .error text => return .error text

end Auth

/-! ## All calls of a session -/

inductive AuthCall where
  | login (redirectAfter : String)
  | completeLogin (code state : String)
  | callbackInner (search : Auth.CallbackParams)
  | refreshTokens
  | getValidAccessToken
  | useAuthRefresh
  | logout

/-- What a call returns. -/
inductive AuthResult where
  | nothing
  | login (result : Auth.LoginResult)
  | page (page : Auth.CallbackPage)
  | tokens (tokens : Option StoredTokens)
  | accessToken (token : Option String)
  | user (authenticated : Bool) (tokens : Option StoredTokens)

def AuthCall.run (browser : Browser) : AuthCall → TabAsync AuthResult
  | login redirectAfter => do
    Auth.login browser redirectAfter
    return .nothing
  | completeLogin code state => return .login (← Auth.completeLogin browser code state)
  | callbackInner search => return .page (← Auth.callbackInner browser search)
  | refreshTokens => return .tokens (← Auth.refreshTokens browser)
  | getValidAccessToken => return .accessToken (← Auth.getValidAccessToken browser)
  | useAuthRefresh => do
    let (ok, tokens) ← Auth.useAuthRefresh browser
    return .user ok tokens
  | logout => do
    Auth.logout browser
    return .nothing

inductive AuthAnswer where
  | digest (bytes : Option (List UInt8))
  | response (response : TokenResponse)
  | body (data : Option TokenData)
  | microtask

/-- The identity provider accepts no refresh token again. -/
def Tab.acceptRefresh (s : Tab) (token : String) : TokenResponse → Option (TokenResponse × Tab)
  | .response status =>
    if Auth.isOk status then
      if s.acceptedRefreshTokens.contains token then none
      else some (.response status,
        { s with acceptedRefreshTokens := s.acceptedRefreshTokens ++ [token] })
    else some (.response status, s)
  | .networkError => some (.networkError, s)

def Tab.answer (s : Tab) : (op : AuthOp) → AuthAnswer → Option (AuthReply op × Tab)
  | .digest _, .digest bytes => some (bytes, s)
  | .fetch _ (.refreshToken _ token _), .response response => s.acceptRefresh token response
  | .fetch _ (.authorizationCode _ _ _ _), .response response => some (response, s)
  | .json _, .body data => some (data, s)
  | .microtask, .microtask => some ((), s)
  | _, _ => none

/-- The calls in one tab. `Date.now()` may give any time next. -/
def browserSession {ι : Type} (browser : Browser) (calls : ι → AuthCall) :
    System ι Tab AuthOp AuthReply (Except Rejection AuthResult) AuthAnswer ℤ where
  program i := ((calls i).run browser).run
  answer _ op c s := s.answer op c
  event now s := some { s with now := now }

abbrev SessionLoop (ι : Type) := Loop ι Tab AuthOp AuthReply (Except Rejection AuthResult)

end GoAnalyze
