import GoAnalyze.Spec.Audit

/-! The state behind the API, the programs that run over it, and the
repositories of `db/repositories.py` as such programs. -/

namespace GoAnalyze

open JsonText Sql

/-! ## Stored rows -/

structure DocumentORM where
  id : UUID
  tenantId : String
  caseId : Option UUID
  filename : String
  contentType : String
  classification : ClassificationLevel
  sha256 : String
  sha256_length : sha256.length = 64
  objectUri : String
  docMetadata : DictColumn
  version : ℤ
  lineageId : UUID
  createdAt : DateTime

/-- Whether the columns of `documents` take a row. SQLite checks neither lengths nor the text
of JSON; the JSON of PostgreSQL has no text for an infinite number or `NaN`. -/
def DocumentORM.fits (dialect : Dialect) (orm : DocumentORM) : Bool :=
  match dialect with
  | .sqlite => true
  | .postgresql =>
    varchar 255 orm.tenantId && varchar 1024 orm.filename && varchar 255 orm.contentType &&
      varchar 64 orm.classification.value && varchar 64 orm.sha256 &&
      varchar 2048 orm.objectUri && (Json.obj orm.docMetadata.read).isFinite

theorem DocumentORM.fits_postgresql {orm : DocumentORM} : orm.fits .postgresql ↔
    varchar 255 orm.tenantId ∧ varchar 1024 orm.filename ∧ varchar 255 orm.contentType ∧
      varchar 64 orm.classification.value ∧ varchar 64 orm.sha256 ∧ varchar 2048 orm.objectUri ∧
      (Json.obj orm.docMetadata.read).isFinite := by
  simp only [DocumentORM.fits, Bool.and_eq_true, and_assoc]

structure CaseAssignmentORM where
  caseId : UUID
  tenantId : String
  assignee : String
  queue : String
  status : String
  dueAt : DateTime
  escalationAt : DateTime

def CaseAssignmentORM.fits (dialect : Dialect) (orm : CaseAssignmentORM) : Bool :=
  match dialect with
  | .sqlite => true
  | .postgresql =>
    varchar 255 orm.tenantId && varchar 255 orm.assignee && varchar 255 orm.queue &&
      varchar 64 orm.status

/-- A document in the OpenSearch index, under its id. -/
structure SearchDocument where
  id : UUID
  tenantId : String
  filename : String
  contentType : String
  classification : ClassificationLevel
  metadata : Dict
  createdAt : String

/-- One object store: bytes and content type under a key. -/
abbrev ObjectStore := String → Option (Bytes × String)

/-- The database, the search index, the MinIO bucket and the process-local store. -/
structure World where
  documents : Table DocumentORM.id
  caseAssignments : List CaseAssignmentORM
  audit : AuditTables
  searchIndex : Table SearchDocument.id
  minio : ObjectStore
  fallbackStore : ObjectStore

def World.empty : World :=
  ⟨.empty, [], .empty, .empty, fun _ => none, fun _ => none⟩

/-! ## Programs -/

structure HTTPException where
  statusCode : ℕ
  detail : String
deriving DecidableEq

/-- What `unhandled_exception_handler` makes of any other exception. -/
def internalServerError : HTTPException := ⟨500, "internal_server_error"⟩

/-- What an async function raises: an `HTTPException` with its headers, another
`Exception`, or the cancellation of its task, which is not an `Exception`. -/
inductive Raised where
  | http (e : HTTPException) (headers : List (String × String))
  | other
  | cancelled

abbrev App := EStateM HTTPException World

/-- `if condition: raise exception`. -/
def raiseIf (condition : Bool) (exception : HTTPException) : App Unit :=
  if condition then throw exception else pure ()

/-! ## What lies outside the repository -/

inductive Clause where
  | term (field value : String)
  | multiMatch (query : String) (fields : List String)
deriving DecidableEq

/-- The body of a `_search` request. -/
structure SearchBody where
  must : List Clause
  «from» : ℤ
  size : ℤ

structure OpenSearchHit where
  id : UUID
  filename : String
  contentType : String
  classification : ClassificationLevel
  score : Option ℚ
  highlight : List String
  createdAt : DateTime

structure OpenSearchReply where
  hits : List OpenSearchHit
  total : ℕ

/-- The deployment: the dialect, the settings read here, and the functions of the
standard library and the database that the code calls. -/
structure Platform where
  dialect : Dialect
  auditHashSecret : String
  minioConfigured : Bool
  /-- The hexadecimal HMAC-SHA256 digest of a message under a key. -/
  hmacSha256 : Bytes → Bytes → String
  sha256Hex : Bytes → String
  /-- `str.lower`, and the folding of `ILIKE`. -/
  lower : List Char → List Char
  foldCase : List Char → List Char
  isSpace : Char → Bool
  isAlnum : Char → Bool
  /-- `str` of a list or a dictionary. -/
  containerText : Json → String
  /-- `sorted` of a set whose elements are not all strings; `none` where it raises. -/
  sortedMixed : List Json → Option (List Json)
  scanDocuments : Scan DocumentORM
  scanEvents : Scan AuditEventORM

/-- What one request is given from outside: fresh ids, clock readings, and what
the services it calls do. -/
structure Inputs where
  documentId : UUID
  lineageId : UUID
  eventId : UUID
  documentTime : DateTime
  eventTime : DateTime
  assignTime : DateTime
  durationMs : PipelineStage → ℚ
  /-- Whether OpenSearch takes a document, and its answer to a search; `none`
  stands for every failure, of the service or of reading its answer. -/
  indexReachable : Bool
  openSearch : Table SearchDocument.id → SearchBody → Option OpenSearchReply
  /-- Whether the connectivity probe reaches MinIO. -/
  minioReachable : Bool

/-! ## Documents -/

namespace DocumentRepository

def toOrm (dialect : Dialect) (record : DocumentRecord) : DocumentORM where
  id := record.id
  tenantId := record.tenantId
  caseId := record.caseId
  filename := record.filename
  contentType := record.contentType
  classification := record.classification
  sha256 := record.sha256
  sha256_length := record.sha256_length
  objectUri := record.objectUri
  docMetadata := .ofDict record.metadata
  version := record.version
  lineageId := record.lineageId
  createdAt := storedDateTime dialect record.createdAt

def toDomain (orm : DocumentORM) : DocumentRecord where
  id := orm.id
  tenantId := orm.tenantId
  caseId := orm.caseId
  filename := orm.filename
  contentType := orm.contentType
  classification := orm.classification
  sha256 := orm.sha256
  sha256_length := orm.sha256_length
  objectUri := orm.objectUri
  metadata := orm.docMetadata.read
  version := orm.version
  lineageId := orm.lineageId
  createdAt := orm.createdAt

def create (P : Platform) (record : DocumentRecord) : App Unit := do
  let w ← MonadState.get
  match w.documents.insertChecked (DocumentORM.fits P.dialect) (toOrm P.dialect record) with
  | some documents => set { w with documents := documents }
  | none => throw internalServerError

/-- The record of an id, whatever its tenant. -/
def find (w : World) (documentId : UUID) : Option DocumentRecord :=
  (w.documents.get documentId).map toDomain

def get (documentId : UUID) : App (Option DocumentRecord) := do
  return find (← MonadState.get) documentId

/-- The records of the ids that have one, by id. -/
def getMany (documentIds : List UUID) : App (UUID → Option DocumentRecord) := do
  let w ← MonadState.get
  return fun documentId => if documentId ∈ documentIds then find w documentId else none

/-- What `getMany` finds in a state. -/
def findMany (w : World) (documentIds : List UUID) : UUID → Option DocumentRecord :=
  fun documentId => if documentId ∈ documentIds then find w documentId else none

/-! ### Search -/

/-- An optional string that is there and not empty. -/
def given (value : Option String) : Option String := value.filter (· ≠ "")

/-- `filename ILIKE '%query%'`; PostgreSQL takes the backslash for an escape. -/
def filenameMatches (P : Platform) (query filename : String) : Bool :=
  let escape := match P.dialect with | .postgresql => some '\\' | .sqlite => none
  like escape (P.foldCase ('%' :: query.toList ++ ['%'])) (P.foldCase filename.toList)

/-- The conditions of the search, all of them. -/
def conditions (P : Platform) (tenantId query : String) (classification contentType : Option String)
    (orm : DocumentORM) : Bool :=
  orm.tenantId = tenantId &&
  (query.isEmpty || filenameMatches P query orm.filename) &&
  (match given classification with | none => true | some c => orm.classification.value = c) &&
  (match given contentType with | none => true | some c => orm.contentType = c)

def createdAtGe (a b : DocumentORM) : Prop := b.createdAt.instant ≤ a.createdAt.instant

instance : DecidableRel createdAtGe := fun _ _ => inferInstanceAs (Decidable (_ ≤ _))

def searchRows (P : Platform) (rows : List DocumentORM) (tenantId query : String)
    (page pageSize : ℤ) (classification contentType : Option String) :
    List DocumentRecord × ℕ :=
  let matching := rows.filter (conditions P tenantId query classification contentType)
  let pageRows := slice ((page - 1) * pageSize).toNat pageSize.toNat
    (orderBy createdAtGe P.scanDocuments matching)
  (pageRows.map toDomain, matching.length)

/-- Whether the parameters of a search can be bound. -/
def binds (dialect : Dialect) (tenantId query : String) (page pageSize : ℤ)
    (classification contentType : Option String) : Bool :=
  dialect.carries tenantId && dialect.carries query && classification.all dialect.carries &&
    contentType.all dialect.carries && (page - 1) * pageSize ≤ maxOffset

def search (P : Platform) (tenantId query : String) (page pageSize : ℤ)
    (classification contentType : Option String) : App (List DocumentRecord × ℕ) := do
  raiseIf (!binds P.dialect tenantId query page pageSize classification contentType)
    internalServerError
  return searchRows P (← MonadState.get).documents.rows tenantId query page pageSize classification
    contentType

end DocumentRepository

def CaseRepository.createAssignment (P : Platform) (assignment : CaseAssignmentORM) :
    App Unit := do
  raiseIf (!assignment.fits P.dialect) internalServerError
  modify fun w => { w with caseAssignments := w.caseAssignments ++ [assignment] }

/-! ## Audit log -/

/-- `AuditLog._hash_event` under the secret of the deployment. -/
def Platform.hashEvent (P : Platform) : AuditEvent → String :=
  AuditLog.hashEvent P.hmacSha256 P.auditHashSecret

def AuditLog.append (P : Platform) (event : AuditEvent) : App AuditEvent := do
  let w ← get
  match AuditRepository.appendWithChainLock P.dialect P.hashEvent P.scanEvents w.audit event with
  | some (event, audit) =>
    set { w with audit := audit }
    return event
  | none => throw internalServerError

def AuditLog.listEventsPaginated (P : Platform) (tenantId : String) (page pageSize : ℤ) :
    App (List AuditEvent × ℕ) := do
  let w ← get
  match AuditRepository.listForTenantPaginated P.dialect P.scanEvents w.audit.events.rows tenantId
      page pageSize with
  | some answer => return answer
  | none => throw internalServerError

end GoAnalyze
