import GoAnalyze.Lib.EventLoop
import GoAnalyze.Lib.JsonRead
import GoAnalyze.Lib.ReadCommitted
import GoAnalyze.Spec.Database
import GoAnalyze.Spec.Engine

/-! `get_current_context` from a verified token on: the row of `users` is read, then
inserted or updated, and committed, each request in a session of its own at READ
COMMITTED. -/

namespace GoAnalyze

open EventLoop JsonText ReadCommitted Sql

/-- A row of `users`, under its unique `subject`. The email and the roles of a token can
be any JSON. -/
structure UserORM where
  tenantId : String
  ministry : String
  email : Json
  roles : List Json
deriving DecidableEq

/-- The column of the email takes a string of at most 320 characters, or nothing. -/
def emailFits : Json → Bool
  | .null => true
  | .str email => varchar 320 email
  | _ => false

/-- What the columns take. -/
def UserORM.fits (subject : String) (row : UserORM) : Bool :=
  varchar 255 subject && varchar 255 row.tenantId && varchar 255 row.ministry &&
    emailFits row.email && allFinite row.roles

/-- `UPDATE` of the columns that were set to another value than they were loaded with. -/
def UserORM.update (loaded row current : UserORM) : UserORM where
  tenantId := if row.tenantId = loaded.tenantId then current.tenantId else row.tenantId
  ministry := if row.ministry = loaded.ministry then current.ministry else row.ministry
  email := if row.email = loaded.email then current.email else row.email
  roles := if row.roles = loaded.roles then current.roles else row.roles

/-- The columns an update sets take their values. -/
def UserORM.updateFits (loaded row : UserORM) : Bool :=
  (row.tenantId = loaded.tenantId || varchar 255 row.tenantId) &&
    (row.ministry = loaded.ministry || varchar 255 row.ministry) &&
    (row.email = loaded.email || emailFits row.email) &&
    (row.roles = loaded.roles || allFinite row.roles)

/-! ## One request -/

/-- The statements of a session. `COMMIT` is told what was loaded and what was set. -/
inductive UserStatement where
  | select (subject : String)
  | insert (subject : String) (row : UserORM)
  | update (subject : String) (loaded row : UserORM)
  | commit (subject : String) (loaded : Option UserORM) (row : UserORM)

abbrev UserReplyValue : UserStatement → Type
  | .select _ => Option UserORM
  | .insert _ _ | .update _ _ _ | .commit _ _ _ => Unit

abbrev UserReply (statement : UserStatement) : Type := Except Raised (UserReplyValue statement)

/-- The table, and the values of the upsert of each subject that committed last:
history, which no statement reads. -/
structure UserTables (ι : Type) where
  db : Db ι String UserORM Empty
  lastUpsert : String → Option UserORM

abbrev UserTask (ι : Type) := Async (UserTables ι) UserStatement UserReply

abbrev UserSession (ι : Type) := ExceptT Raised (UserTask ι)

/-- The values `get_current_context` reads from a verified token whose roles are strings. -/
structure TokenClaims where
  subject : String
  tenantId : String
  ministry : String
  email : Json
  roles : List String

/-- The values the request's upsert writes. -/
def TokenClaims.row (claims : TokenClaims) : UserORM :=
  ⟨claims.tenantId, claims.ministry, claims.email, (sortStrings claims.roles).map .str⟩

section Request

variable {ι : Type}

def UserSession.send (statement : UserStatement) : UserSession ι (UserReplyValue statement) :=
  (Async.wait statement : UserTask ι (UserReply statement))

def UserSession.select (subject : String) : UserSession ι (Option UserORM) :=
  UserSession.send (.select subject)

def UserSession.insert (subject : String) (row : UserORM) : UserSession ι Unit :=
  UserSession.send (.insert subject row)

def UserSession.update (subject : String) (loaded row : UserORM) : UserSession ι Unit :=
  UserSession.send (.update subject loaded row)

def UserSession.commit (subject : String) (loaded : Option UserORM) (row : UserORM) :
    UserSession ι Unit :=
  UserSession.send (.commit subject loaded row)

/-- `UserRepository.upsert_from_token`. The flush of `commit` sends what has changed. -/
def UserRepository.upsertFromToken (subject : String) (row : UserORM) : UserSession ι Unit := do
  let orm ← UserSession.select subject
  match orm with
  | none => UserSession.insert subject row
  | some loaded =>
    if row ≠ loaded then
      UserSession.update subject loaded row
  UserSession.commit subject orm row

/-- The row is committed before the context is made. -/
def contextAfterUpsert (subject : String) (row : UserORM) (context : Except Raised TenantContext) :
    UserSession ι TenantContext := do
  UserRepository.upsertFromToken subject row
  context

def getCurrentContext (claims : TokenClaims) : UserSession ι TenantContext :=
  contextAfterUpsert claims.subject claims.row
    (.ok ⟨claims.tenantId, claims.ministry, claims.roles, some claims.subject⟩)

end Request

/-! ## Concurrent requests -/

section SignIns

variable {ι : Type} [DecidableEq ι]

/-- A statement that raises rolls its transaction back. -/
def UserTables.rollback (s : UserTables ι) (i : ι) : Except Raised Unit × UserTables ι :=
  (.error .other, { s with db := abort s.db i })

/-- The statement of transaction `i`; `none` while it has to wait. -/
def UserTables.execute (s : UserTables ι) (i : ι) :
    (statement : UserStatement) → Option (UserReply statement × UserTables ι)
  | .select subject => some (.ok (s.db.visible i subject), s)
  | .insert subject row =>
    if row.fits subject then
      (insertRow s.db i subject row).map fun
        | some db => (.ok (), { s with db := db })
        | none => s.rollback i
    else some (s.rollback i)
  | .update subject loaded row =>
    if UserORM.updateFits loaded row then
      (modifyRow s.db i subject (UserORM.update loaded row)).map fun
        | some db => (.ok (), { s with db := db })
        | none => s.rollback i
    else some (s.rollback i)
  | .commit subject _ row => some (.ok (),
      { db := commit s.db i
        lastUpsert := Function.update s.lastUpsert subject (some row) })

/-- Concurrent requests, each with the claims of its token. -/
def signIns (requests : ι → TokenClaims) :
    System ι (UserTables ι) UserStatement UserReply (Except Raised TenantContext) Unit Empty where
  program i := getCurrentContext (requests i)
  answer i statement _ s := s.execute i statement
  event e _ := e.elim

/-- The table before the requests. -/
def UserTables.before (users : String → Option UserORM) : UserTables ι :=
  ⟨{ Db.empty with rows := users }, users⟩

end SignIns

end GoAnalyze
