import GoAnalyze.Spec.Search

/-! The `/v1` endpoints of `main.py`, with the policy of `security.py`. A caller
arrives with a verified context. -/

namespace GoAnalyze

open JsonText

/-! ## Policy -/

structure PolicyDecision where
  allowed : Bool
  reason : String
deriving DecidableEq

def evaluateAbac (context : TenantContext) (action resourceTenantId : String)
    (classification : ClassificationLevel) (purpose : String) : PolicyDecision :=
  if context.tenantId ≠ resourceTenantId ∧ "platform-admin" ∉ context.roles then
    ⟨false, "tenant_mismatch"⟩
  else if "admin:".toList <+: action.toList ∧ "tenant-admin" ∉ context.roles then
    ⟨false, "tenant_admin_required"⟩
  else if classification = .protectedB ∧ "protected-b-reader" ∉ context.roles then
    ⟨false, "protected_b_role_required"⟩
  else if purpose ∉ ["case-review", "audit", "operations", "legal-review"] then
    ⟨false, "invalid_purpose"⟩
  else ⟨true, "allowed"⟩

/-- Raise 403 with the reason where the policy denies. -/
def requireAllowed (decision : PolicyDecision) : App Unit :=
  raiseIf (!decision.allowed) ⟨403, decision.reason⟩

/-! ## Requests -/

/-- The headers that handlers read. -/
structure Headers where
  xPurpose : Option String
  traceparent : Option String

def Headers.purpose (headers : Headers) : String := headers.xPurpose.getD "case-review"

def Headers.traceId (headers : Headers) : String := headers.traceparent.getD "local-trace"

/-- `context.attributes.get("sub", "api-user")`. -/
def TenantContext.actor (context : TenantContext) : String := context.sub.getD "api-user"

/-! ## Content-Disposition -/

def hexUpper (n v : ℕ) : List Char := (hex n v).map Char.toUpper

/-- `urllib.parse.quote(s, safe="")`. -/
def quote (s : List Char) : List Char :=
  (encodeUtf8 s).flatMap fun b =>
    let c := Char.ofNat b.toNat
    if c.isAlphanum || c ∈ ['_', '.', '-', '~'] then [c] else '%' :: hexUpper 2 b.toNat

def contentDisposition (filename : String) : String :=
  let safe := filename.toList.filter fun c => c ∉ ['\r', '\n', '"']
  let asciiFallback := safe.map fun c => if c.toNat < 128 then c else '?'
  String.ofList ("attachment; filename=\"".toList ++ asciiFallback ++
    "\"; filename*=UTF-8''".toList ++ quote safe)

/-- Header values are encoded as Latin-1. -/
def isLatin1 (s : String) : Bool := s.toList.all fun c => c.toNat < 256

/-! ## Endpoints -/

section Endpoints

variable (P : Platform) (inp : Inputs) (headers : Headers) (context : TenantContext)

/-- `AuditEvent(...)` with its defaults: a fresh id, the current time, no hashes. -/
def newAuditEvent (tenantId action resourceType resourceId : String) (details : Dict) :
    AuditEvent where
  id := inp.eventId
  tenantId := tenantId
  actor := context.actor
  action := action
  resourceType := resourceType
  resourceId := resourceId
  purpose := headers.purpose
  traceId := headers.traceId
  timestamp := inp.eventTime
  details := details
  previousHash := none
  eventHash := none

/-- `DocumentRecord(**payload.model_dump())` with its defaults. -/
def newRecord (payload : DocumentIngestRequest) : DocumentRecord :=
  { payload with
    id := inp.documentId
    version := 1
    lineageId := inp.lineageId
    createdAt := inp.documentTime }

def ingestDocument (payload : DocumentIngestRequest) : App DocumentRecord := do
  requireAllowed (evaluateAbac context "document:ingest" payload.tenantId payload.classification
    headers.purpose)
  let record := newRecord inp payload
  DocumentRepository.create P record
  SearchService.indexDocument inp record
  let _ ← AuditLog.append P (newAuditEvent inp headers context record.tenantId "document.ingested"
    "document" (strUuid record.id)
    [("sha256", .str record.sha256), ("classification", .str record.classification.value)])
  return record

/-- `not value` of an optional string. -/
def absent (value : Option String) : Bool := (DocumentRepository.given value).isNone

def submitSetupConfiguration (payload : SetupConfiguration) : App SetupConfigurationResult := do
  let validated := ["postgresql", "minio", "opensearch", "redis", payload.identityProvider.value,
    "ocr_engine", "ai_provider", "object_storage"]
  let warnings :=
    (if payload.identityProvider = .keycloak ∧ absent payload.keycloakIssuer then
      ["keycloak_issuer_missing"] else []) ++
    (if payload.identityProvider = .azureAd ∧
        (absent payload.azureAdTenantId || absent payload.azureAdClientId) then
      ["azure_ad_credentials_incomplete"] else []) ++
    (if payload.identityProvider = .microsoftEntraId ∧ absent payload.microsoftEntraIdTenantId then
      ["microsoft_entra_id_tenant_missing"] else []) ++
    (if payload.emailNotificationsEnabled ∧
        (absent payload.emailSmtpHost || absent payload.emailFromAddress) then
      ["email_notification_settings_incomplete"] else [])
  return {
    accepted := warnings.isEmpty
    validatedComponents :=
      if payload.emailNotificationsEnabled then validated ++ ["email_notifications"] else validated
    warnings := warnings }

/-- The record of an id that the caller may use for `action`. -/
def fetchAllowed (action : String) (documentId : UUID) : App DocumentRecord := do
  match ← DocumentRepository.get documentId with
  | none => throw ⟨404, "document_not_found"⟩
  | some record =>
    requireAllowed (evaluateAbac context action record.tenantId record.classification
      headers.purpose)
    return record

def processDocument (documentId : UUID) : App DocumentProcessingResult := do
  let record ← fetchAllowed headers context "document:process" documentId
  IngestionPipeline.run P record nullOcrEngine none inp context.actor headers.traceId
    headers.purpose

/-- The check `rag_answer` makes of one citation. -/
def checkCitation (documents : UUID → Option DocumentRecord) (citation : EvidenceCitation) :
    App Unit :=
  match documents citation.documentId with
  | none => throw ⟨403, "citation_document_not_found"⟩
  | some record => do
    raiseIf (record.tenantId ≠ context.tenantId ∧ "platform-admin" ∉ context.roles)
      ⟨403, "citation_tenant_mismatch"⟩
    raiseIf (record.classification = .protectedB ∧ "protected-b-reader" ∉ context.roles)
      ⟨403, "protected_b_role_required"⟩

def ragAnswer (question : String) (citations : List EvidenceCitation) : App Json := do
  let documentIds := citations.map (·.documentId)
  let documents ← DocumentRepository.getMany documentIds
  citations.forM (checkCitation context documents)
  let finding := GroundedRagService.answer question citations
  let resourceId := ",".intercalate (documentIds.map strUuid)
  let _ ← AuditLog.append P (newAuditEvent inp headers context context.tenantId
    "rag.answer_generated" "rag_query" (if resourceId.isEmpty then "none" else resourceId)
    [("grounded", .bool finding.grounded), ("citation_count", intJson citations.length)])
  return finding.modelDump

/-- `bool(value)` of a JSON value. -/
def isTruthy : Json → Bool
  | .null => false
  | .bool b => b
  | .num (.int n) => n ≠ 0
  | .num (.float d _) => d.mant ≠ 0
  | .num (.infinity _) | .num .nan => true
  | .str s => s ≠ ""
  | .arr xs => !xs.isEmpty
  | .obj ms => !ms.isEmpty

/-- The document type a record contributes to a review. -/
def documentType (record : DocumentRecord) : Option String :=
  ((lookup "document_type" record.metadata).filter isTruthy).map (textOf P)

/-- The citation of one listed document. -/
def citeDocument (projectType : String) (docId : UUID) (record : DocumentRecord) :
    EvidenceCitation where
  documentId := docId
  version := record.version
  chunkId := strUuid docId ++ ":metadata"
  page := none
  startOffset := none
  endOffset := none
  sha256 := record.sha256
  excerpt := record.filename ++ " supplied for " ++ projectType

def availableTypes (documents : UUID → Option DocumentRecord) (docIds : List UUID) : List String :=
  docIds.filterMap fun docId => (documents docId).bind (documentType P)

def citationsOf (projectType : String) (documents : UUID → Option DocumentRecord)
    (docIds : List UUID) : List EvidenceCitation :=
  docIds.filterMap fun docId => (documents docId).map (citeDocument projectType docId)

def environmentalReview (payload : EnvironmentalReviewRequest) : App Dict := do
  raiseIf (context.tenantId ≠ payload.tenantId ∧ "platform-admin" ∉ context.roles)
    ⟨403, "tenant_mismatch"⟩
  let documents ← DocumentRepository.getMany payload.documents
  let result := EnvironmentalAuthorizationEngine.review payload
    (availableTypes P documents payload.documents)
    (citationsOf payload.projectType documents payload.documents)
  let _ ← AuditLog.append P (newAuditEvent inp headers context payload.tenantId
    "environmental_review.completed" "case" (strUuid payload.caseId)
    [("risk_score", scoreJson result.riskScore), ("recommendation", .str result.recommendation)])
  return result.modelDump

def assignCase (caseId : UUID) (skill : String) : App Dict := do
  raiseIf ("case-manager" ∉ context.roles ∧ "tenant-admin" ∉ context.roles)
    ⟨403, "case_manager_role_required"⟩
  let assignment := AssignmentEngine.assign inp.assignTime caseId skill
    [("analyst-1", 3), ("analyst-2", 1)]
  CaseRepository.createAssignment P
    { caseId := assignment.caseId
      tenantId := context.tenantId
      assignee := assignment.assignee
      queue := assignment.queue
      status := assignment.status.value
      dueAt := assignment.dueAt
      escalationAt := assignment.escalationAt }
  return [("case_id", .str (strUuid assignment.caseId)), ("assignee", .str assignment.assignee),
    ("queue", .str assignment.queue), ("due_at", .str assignment.dueAt.isoformat),
    ("escalation_at", .str assignment.escalationAt.isoformat),
    ("status", .str assignment.status.value)]

/-- The checks of page and page size that two handlers share. -/
def checkPage (page pageSize : ℤ) : App Unit := do
  raiseIf (page < 1) ⟨422, "page_must_be_positive"⟩
  raiseIf (¬ (1 ≤ pageSize ∧ pageSize ≤ 100)) ⟨422, "page_size_must_be_between_1_and_100"⟩

def listAudit (page pageSize : ℤ) : App AuditEventListResponse := do
  checkPage page pageSize
  let (items, total) ← AuditLog.listEventsPaginated P context.tenantId page pageSize
  let totalPages := if 0 < total then (total + pageSize - 1) / pageSize else 0
  return { total := total, page := page, pageSize := pageSize, totalPages := totalPages
           items := items }

def searchDocuments (q : String) (page pageSize : ℤ) (classification contentType : Option String) :
    App SearchResponse := do
  checkPage page pageSize
  SearchService.search P inp context.tenantId q page pageSize classification contentType

def maxUploadBytes : ℕ := 100 * 1024 * 1024

def uploadDocumentContent (documentId : UUID) (body : Bytes) : App Dict := do
  let record ← fetchAllowed headers context "document:upload" documentId
  raiseIf body.isEmpty ⟨422, "empty_upload_body"⟩
  raiseIf (body.length > maxUploadBytes) ⟨413, "upload_too_large"⟩
  let digest := P.sha256Hex body
  raiseIf (digest ≠ record.sha256) ⟨422, "sha256_mismatch"⟩
  ObjectStorage.put (getObjectStorage P inp) (storageKey record.tenantId record.id) body
    record.contentType
  let _ ← AuditLog.append P (newAuditEvent inp headers context record.tenantId
    "document.content_uploaded" "document" (strUuid record.id) [("bytes", intJson body.length)])
  return [("document_id", .str (strUuid record.id)), ("bytes_stored", intJson body.length),
    ("sha256", .str digest)]

/-- A streamed response: bytes, media type and `Content-Disposition`. -/
structure StreamingResponse where
  data : Bytes
  mediaType : String
  contentDisposition : String
deriving DecidableEq

def downloadDocument (documentId : UUID) : App StreamingResponse := do
  let record ← fetchAllowed headers context "document:download" documentId
  match ← ObjectStorage.get (getObjectStorage P inp) (storageKey record.tenantId record.id) with
  | none => throw ⟨404, "document_content_not_uploaded"⟩
  | some data =>
    let _ ← AuditLog.append P (newAuditEvent inp headers context record.tenantId
      "document.downloaded" "document" (strUuid record.id) [("bytes", intJson data.length)])
    -- the response cannot be built where a header value is not Latin-1
    raiseIf (!isLatin1 record.contentType) internalServerError
    return ⟨data, record.contentType, contentDisposition record.filename⟩

end Endpoints

/-! ## The API -/

inductive ApiRequest where
  | ingestDocument (payload : DocumentIngestRequest)
  | submitSetupConfiguration (payload : SetupConfiguration)
  | processDocument (documentId : UUID)
  | ragAnswer (question : String) (citations : List EvidenceCitation)
  | environmentalReview (payload : EnvironmentalReviewRequest)
  | assignCase (caseId : UUID) (skill : String)
  | listAudit (page pageSize : ℤ)
  | searchDocuments (q : String) (page pageSize : ℤ) (classification contentType : Option String)
  | uploadDocumentContent (documentId : UUID) (body : Bytes)
  | downloadDocument (documentId : UUID)

inductive ApiResponse where
  | record (record : DocumentRecord)
  | setup (result : SetupConfigurationResult)
  | processing (result : DocumentProcessingResult)
  | json (body : Json)
  | audit (page : AuditEventListResponse)
  | search (page : SearchResponse)
  | stream (response : StreamingResponse)

/-- The endpoint of a request, run for one caller. -/
def handle (P : Platform) (inp : Inputs) (headers : Headers) (context : TenantContext) :
    ApiRequest → App ApiResponse
  | .ingestDocument payload => do
    return .record (← ingestDocument P inp headers context payload)
  | .submitSetupConfiguration payload => do
    return .setup (← submitSetupConfiguration payload)
  | .processDocument documentId => do
    return .processing (← processDocument P inp headers context documentId)
  | .ragAnswer question citations => do
    return .json (← ragAnswer P inp headers context question citations)
  | .environmentalReview payload => do
    return .json (.obj (← environmentalReview P inp headers context payload))
  | .assignCase caseId skill => do
    return .json (.obj (← assignCase P inp context caseId skill))
  | .listAudit page pageSize => do
    return .audit (← listAudit P context page pageSize)
  | .searchDocuments q page pageSize classification contentType => do
    return .search (← searchDocuments P inp context q page pageSize classification contentType)
  | .uploadDocumentContent documentId body => do
    return .json (.obj (← uploadDocumentContent P inp headers context documentId body))
  | .downloadDocument documentId => do
    return .stream (← downloadDocument P inp headers context documentId)

end GoAnalyze
