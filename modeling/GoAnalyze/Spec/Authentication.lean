import GoAnalyze.Lib.AsyncTriples
import GoAnalyze.Spec.RateLimit
import GoAnalyze.Spec.SignIn
import GoAnalyze.Spec.SigningKeys

/-! `get_current_context` of `security.py` as a whole: the token, the identity limits and
the row of `users`, or the headers of a development deployment. -/

namespace GoAnalyze

open EventLoop JsonText ReadCommitted

/-- The settings that the functions here read. -/
structure AuthSettings where
  environment : String := "development"
  allowInsecureDevAuth : Bool := false
  keycloak : KeycloakSettings
  rateLimit : RateLimit.Settings := {}

/-! ## The process -/

/-- What the requests of one process share. -/
structure ContextMemory (ι T : Type) where
  keys : KeyProcess T
  redis : Redis ι T
  users : UserTables ι

inductive ContextOp where
  | keys (request : KeyRequest)
  | redis (command : RedisCommand)
  | users (statement : UserStatement)

abbrev ContextReply : ContextOp → Type
  | .keys _ => KeyAnswer
  | .redis command => RedisReply command
  | .users statement => UserReply statement

abbrev ContextTask (ι T : Type) := Async (ContextMemory ι T) ContextOp ContextReply

abbrev Authenticator (ι T : Type) := ExceptT Raised (ContextTask ι T)

namespace ContextMemory

variable {ι T : Type}

def keysPart : Lens (ContextMemory ι T) (KeyProcess T) where
  get := keys
  put s t := { t with keys := s }
  get_put _ _ := rfl
  put_get _ := rfl
  put_put _ _ _ := rfl

def redisPart : Lens (ContextMemory ι T) (Redis ι T) where
  get := redis
  put s t := { t with redis := s }
  get_put _ _ := rfl
  put_get _ := rfl
  put_put _ _ _ := rfl

def usersPart : Lens (ContextMemory ι T) (UserTables ι) where
  get := users
  put s t := { t with users := s }
  get_put _ _ := rfl
  put_get _ := rfl
  put_put _ _ _ := rfl

end ContextMemory

section Parts

variable {ι T α : Type}

def Authenticator.keys (m : Verifier T α) : Authenticator ι T α :=
  ExceptT.mk (m.run.focus ContextMemory.keysPart .keys fun _ reply => reply)

def Authenticator.redis (m : Limiter ι T α) : Authenticator ι T α :=
  ExceptT.mk (m.run.focus ContextMemory.redisPart .redis fun _ reply => reply)

def Authenticator.users (m : UserSession ι α) : Authenticator ι T α :=
  ExceptT.mk (m.run.focus ContextMemory.usersPart .users fun _ reply => reply)

end Parts

/-! ## The function -/

/-- What a request brings: its bearer token, and the headers of the development path. -/
structure ContextRequest where
  credentials : Option String
  xTenantId : Option String
  xRoles : Option String
  xMinistry : Option String

namespace Security

/-- `_extract_roles`, as a list. -/
def extractRoles (claims : Dict) : List Json :=
  match lookup "roles" claims with
  | some (.arr roles) => roles
  | _ =>
    match lookup "realm_access" claims with
    | some (.obj access) =>
      match lookup "roles" access with
      | some (.arr roles) => roles
      | _ => []
    | _ => []

/-- Lists and dictionaries cannot be elements of a set. -/
def hashable : Json → Bool
  | .arr _ | .obj _ => false
  | _ => true

def asString : Json → Option String
  | .str s => some s
  | _ => none

/-- `str(claims[key])`. -/
def claimText (P : Platform) (key : String) (claims : Dict) : String :=
  textOf P ((lookup key claims).getD .null)

/-- `sorted` of the roles in a set. -/
def sortedRoles (P : Platform) (roles : List Json) : Except Raised (List Json) :=
  match roles.mapM asString with
  | some names => .ok ((sortStrings names.dedup).map .str)
  | none => (P.sortedMixed roles).elim (throw .other) .ok

/-- `str(claims.get("ministry", tenant_id))`. -/
def ministryOf (P : Platform) (claims : Dict) : String :=
  ((lookup "ministry" claims).map (textOf P)).getD (claimText P "tenant_id" claims)

/-- The row that a token is given. -/
def tokenRow (P : Platform) (claims : Dict) : Except Raised UserORM := do
  let roles ← sortedRoles P (extractRoles claims)
  return {
    tenantId := claimText P "tenant_id" claims
    ministry := ministryOf P claims
    email := (lookup "email" claims).getD .null
    roles := roles }

/-- Its context, whose roles have to be strings. -/
def tokenContext (P : Platform) (claims : Dict) : Except Raised TenantContext := do
  let roles ← ((extractRoles claims).mapM asString).elim (throw Raised.other) .ok
  return {
    tenantId := claimText P "tenant_id" claims
    ministry := ministryOf P claims
    roles := roles.dedup
    sub := some (claimText P "sub" claims) }

/-- `header.split(",")` without the empty parts, as a set. -/
def splitRoles (header : String) : List String :=
  (((header.toList.splitOn ',').map String.ofList).filter (· ≠ "")).dedup

/-- The context of a development deployment, which takes the headers at their word. -/
def developmentContext (request : ContextRequest) : Option TenantContext :=
  (DocumentRepository.given request.xTenantId).map fun tenant =>
    { tenantId := tenant
      ministry := request.xMinistry.getD tenant
      roles := splitRoles (request.xRoles.getD "")
      sub := none }

def getCurrentContext {ι T : Type} [Field T] [LinearOrder T] (P : Platform) (jwt : PyJwt)
    (settings : AuthSettings) (request : ContextRequest) : Authenticator ι T TenantContext := do
  match request.credentials with
  | some token =>
    let claims ← Authenticator.keys (verifyBearerToken jwt settings.keycloak token)
    if !((extractRoles claims).all hashable) then
      throw .other
    Authenticator.redis (RateLimit.enforceIdentityRateLimits settings.rateLimit
      (claimText P "tenant_id" claims) (claimText P "sub" claims))
    let row ← (tokenRow P claims : Except Raised UserORM)
    Authenticator.users (contextAfterUpsert (claimText P "sub" claims) row (tokenContext P claims))
  | none =>
    if settings.environment = "development" ∧ settings.allowInsecureDevAuth then
      match developmentContext request with
      | some context => return context
      | none => throw (unauthorized "missing_or_invalid_bearer_token")
    else throw (unauthorized "missing_or_invalid_bearer_token")

end Security

/-! ## Concurrent requests -/

/-- What becomes of an operation. -/
inductive ContextFate where
  | keys (answer : KeyAnswer)
  | redis (fate : CommandFate)
  /-- A statement of the database runs, or raises. -/
  | users (failure : Option Raised)

section System

variable {ι T : Type} [DecidableEq ι] [Field T] [LinearOrder T] [FloorRing T]

def ContextMemory.answer (s : ContextMemory ι T) (i : ι) :
    (op : ContextOp) → ContextFate → Option (ContextReply op × ContextMemory ι T)
  | .keys _, .keys reply => some (reply, s)
  | .redis command, .redis fate =>
    let (value, redis) := s.redis.execute i command
    match fate with
    | .replied => some (.ok value, { s with redis := redis })
    | .raised executed => some (.error .other, if executed then { s with redis := redis } else s)
    | .cancelled executed =>
      some (.error .cancelled, if executed then { s with redis := redis } else s)
  | .users statement, .users none =>
    (s.users.execute i statement).map fun (reply, users) => (reply, { s with users := users })
  | .users _, .users (some e) =>
    some (.error e, { s with users := { s.users with db := abort s.users.db i } })
  | _, _ => none

/-- Time passes, for the process and for the Redis server. -/
def ContextMemory.tick (d : T) (s : ContextMemory ι T) : Option (ContextMemory ι T) := do
  let keys ← s.keys.tick d
  let redis ← s.redis.tick d
  return { s with keys := keys, redis := redis }

/-- Concurrent requests to one process, each with its token and headers. -/
def authentications (P : Platform) (jwt : PyJwt) (settings : AuthSettings)
    (requests : ι → ContextRequest) :
    System ι (ContextMemory ι T) ContextOp ContextReply (Except Raised TenantContext) ContextFate
      T where
  program i := Security.getCurrentContext P jwt settings (requests i)
  answer i op fate s := s.answer i op fate
  event := ContextMemory.tick

/-- A process that has served no request, with a table of users. -/
def ContextMemory.start (now : T) (users : String → Option UserORM) : ContextMemory ι T :=
  ⟨KeyProcess.start now, Redis.empty now, UserTables.before users⟩

end System

end GoAnalyze
