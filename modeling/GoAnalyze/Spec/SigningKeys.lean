import GoAnalyze.Lib.EventLoop
import GoAnalyze.Spec.Handlers
import Mathlib.Algebra.Order.Field.Basic
import Mathlib.Data.List.DropRight

/-! `verify_bearer_token` of `security.py` and the cache of signing keys of its
process. A call waits only for the keys it fetches; the token library is a parameter. -/

namespace GoAnalyze

open EventLoop JsonText

/-! ## Requests for keys -/

/-- `GET` of a key set. -/
structure KeyRequest where
  uri : String

/-- A transport error is an `httpx.HTTPError`; `other` stands for every other exception
out of the request. A body is `none` where it is not JSON. -/
inductive KeyAnswer where
  | transportError
  | other
  | cancelled
  | response (status : ℕ) (body : Option Json)

/-- What `_fetch_jwks` raises. -/
inductive FetchError where
  | httpError
  | other
  | cancelled

/-- A fetch that gave keys, and a call of `_get_jwks` that returned them. `call` numbers
the calls of `_get_jwks`. -/
structure KeyFetch (T : Type) where
  call : ℕ
  uri : String
  began : T
  keys : Json

structure KeyReturn (T : Type) where
  call : ℕ
  uri : String
  started : T
  forceRefresh : Bool
  fetchFailed : Bool
  keys : Json

/-- The process: its monotonic clock and `_jwks_cache`. The other fields are history,
which no function reads. -/
structure KeyProcess (T : Type) where
  now : T
  jwksCache : String → Option (T × Json)
  calls : ℕ
  fetches : List (KeyFetch T)
  returns : List (KeyReturn T)

def KeyProcess.start {T : Type} (now : T) : KeyProcess T := ⟨now, fun _ => none, 0, [], []⟩

abbrev KeyTask (T : Type) := Async (KeyProcess T) KeyRequest fun _ => KeyAnswer

abbrev Verifier (T : Type) := ExceptT Raised (KeyTask T)

/-! ## The functions -/

/-- `pyjwt`, as far as a token and a key decide it. -/
inductive JwtError where
  | expired
  | invalidClaims (text : String)
  | otherPyJwtError
  | notPyJwtError

structure PyJwt where
  /-- `get_unverified_header(token).get("kid")`; `none` where it raises. -/
  unverifiedKid : String → Option (Option String)
  /-- `RSAAlgorithm.from_jwk` and `decode`. -/
  decode : String → Dict → Except JwtError Dict

structure KeycloakSettings where
  keycloakIssuer : String
  keycloakJwksUrl : Option String

namespace Security

variable {T : Type} [Field T] [LinearOrder T]

def jwksCacheTtlSeconds : ℕ := 300

def jwksUri (settings : KeycloakSettings) : String :=
  match settings.keycloakJwksUrl.filter (· ≠ "") with
  | some url => url
  | none => String.ofList (settings.keycloakIssuer.toList.rdropWhile (· = '/')) ++
      "/protocol/openid-connect/certs"

/-- `_fetch_jwks`. -/
def fetchJwks (call : ℕ) (uri : String) : ExceptT FetchError (KeyTask T) Json := do
  let began := (← getThe (KeyProcess T)).now
  match ← (Async.wait ⟨uri⟩ : KeyTask T KeyAnswer) with
  | .transportError => throw .httpError
  | .other => throw .other
  | .cancelled => throw .cancelled
  | .response status body =>
    if ¬(200 ≤ status ∧ status < 300) then
      throw .httpError
    match body with
    | some (.obj members) =>
      let keys := (lookup "keys" members).getD (.arr [])
      modifyThe (KeyProcess T) fun s =>
        { s with fetches := s.fetches ++ [⟨call, uri, began, keys⟩] }
      return keys
    | _ => throw .other

/-- `_get_jwks`. -/
def getJwks (uri : String) (forceRefresh : Bool := false) : Verifier T Json := do
  let now := (← getThe (KeyProcess T)).now
  let cached := (← getThe (KeyProcess T)).jwksCache uri
  let call := (← getThe (KeyProcess T)).calls
  modifyThe (KeyProcess T) fun s => { s with calls := s.calls + 1 }
  let returned (fetchFailed : Bool) (keys : Json) : Verifier T Json := do
    modifyThe (KeyProcess T) fun s =>
      { s with returns := s.returns ++ [⟨call, uri, now, forceRefresh, fetchFailed, keys⟩] }
    return keys
  match cached.filter fun c => !forceRefresh && decide (now - c.1 < jwksCacheTtlSeconds) with
  | some (_, keys) => returned false keys
  | none =>
    match ← ((fetchJwks call uri).run : KeyTask T (Except FetchError Json)) with
    | .error .httpError =>
      match cached with
      | some (_, keys) => returned true keys
      | none => throw (.http ⟨503, "identity_provider_unreachable"⟩ [])
    | .error .other => throw .other
    | .error .cancelled => throw .cancelled
    | .ok keys =>
      modifyThe (KeyProcess T) fun s =>
        { s with jwksCache := Function.update s.jwksCache uri (some (now, keys)) }
      returned false keys

/-- `k.get("kid") == kid`. -/
def hasKid (kid : Option String) (key : Dict) : Bool :=
  match lookup "kid" key with
  | some (.str s) => kid = some s
  | some .null | none => kid = none
  | some _ => false

/-- `next((k for k in keys if k.get("kid") == kid), None)` over a list. -/
def firstKey (kid : Option String) : List Json → Except Raised (Option Dict)
  | [] => .ok none
  | .obj key :: keys => if hasKid kid key then .ok (some key) else firstKey kid keys
  | _ :: _ => .error .other

/-- The same over any JSON value: strings and dictionaries have no elements with `get`. -/
def nextKey (kid : Option String) : Json → Except Raised (Option Dict)
  | .arr keys => firstKey kid keys
  | .str s => if s = "" then .ok none else .error .other
  | .obj members => if members.isEmpty then .ok none else .error .other
  | _ => .error .other

def unauthorized (detail : String) : Raised := .http ⟨401, detail⟩ []

def jwtRaised : JwtError → Raised
  | .expired => unauthorized "token_expired"
  | .invalidClaims text => unauthorized ("invalid_claims:" ++ text)
  | .otherPyJwtError => unauthorized "invalid_signature"
  | .notPyJwtError => .other

/-- `verify_bearer_token` from the key on. -/
def claimsOf (jwt : PyJwt) (token : String) : Option Dict → Except Raised Dict
  | none => .error (unauthorized "unknown_signing_key")
  | some key => do
    let claims ← (jwt.decode token key).mapError jwtRaised
    if !((lookup "tenant_id" claims).any isTruthy) then
      throw (unauthorized "missing_tenant_claim")
    if !((lookup "sub" claims).any isTruthy) then
      throw (unauthorized "missing_subject_claim")
    return claims

def verifyBearerToken (jwt : PyJwt) (settings : KeycloakSettings) (token : String) :
    Verifier T Dict := do
  match jwt.unverifiedKid token with
  | none => throw (unauthorized "malformed_token")
  | some kid =>
    let uri := jwksUri settings
    let keys ← getJwks uri
    let key ← (nextKey kid keys : Except Raised (Option Dict))
    if key.isNone then
      let keys ← getJwks uri true
      let key ← (nextKey kid keys : Except Raised (Option Dict))
      (claimsOf jwt token key : Except Raised Dict)
    else
      (claimsOf jwt token key : Except Raised Dict)

end Security

/-! ## Concurrent calls -/

/-- The clock goes on. -/
def KeyProcess.tick {T : Type} [Field T] [LinearOrder T] (d : T) (s : KeyProcess T) :
    Option (KeyProcess T) :=
  if 0 ≤ d then some { s with now := s.now + d } else none

/-- Concurrent calls of `verify_bearer_token` in one process, each with its token. -/
def verifications {ι T : Type} [Field T] [LinearOrder T] (jwt : PyJwt)
    (settings : KeycloakSettings) (tokens : ι → String) :
    System ι (KeyProcess T) KeyRequest (fun _ => KeyAnswer) (Except Raised Dict) KeyAnswer T where
  program i := Security.verifyBearerToken jwt settings (tokens i)
  answer _ _ reply s := some (reply, s)
  event := KeyProcess.tick

end GoAnalyze
