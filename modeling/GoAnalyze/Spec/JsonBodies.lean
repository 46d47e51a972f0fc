import GoAnalyze.Lib.JsonExchange
import GoAnalyze.Lib.UriComponent
import GoAnalyze.Spec.UploadForm

/-! Bodies in JSON: what the pages post, what the models of the endpoints make of it, and what
the page reads of a response. -/

namespace GoAnalyze

open JsonText JsonExchange
open JsJson (Value)

/-! ## What the pages post -/

/-- `body: JSON.stringify(json)`. -/
def jsonBody (v : Value) : Bytes := encodeUtf8 (JsJson.stringify v)

def orNull : Option String → Value
  | none => .null
  | some s => .string s

/-- The argument of `documentsApi.ingest`. -/
def IngestPayload.json (payload : IngestPayload) : Value :=
  .object [("tenant_id", .string payload.tenantId), ("case_id", orNull payload.caseId),
    ("filename", .string payload.filename), ("content_type", .string payload.contentType),
    ("classification", .string payload.classification.value), ("sha256", .string payload.sha256),
    ("object_uri", .string payload.objectUri),
    ("metadata", .object (payload.metadata.map fun m => (m.1, .string m.2)))]

/-- A citation as `CitationBuilder` makes it, from `EMPTY`. -/
structure CitationDraft where
  documentId : String
  version : JsJson.Num
  chunkId : String
  sha256 : String
  excerpt : String

def CitationDraft.json (draft : CitationDraft) : Value :=
  .object [("document_id", .string draft.documentId), ("version", .number draft.version),
    ("chunk_id", .string draft.chunkId), ("page", .null), ("start_offset", .null),
    ("end_offset", .null), ("sha256", .string draft.sha256), ("excerpt", .string draft.excerpt)]

/-- The form of the page of environmental reviews, with the listed documents. -/
structure ReviewForm where
  tenantId : String
  caseId : String
  projectType : String
  location : String
  applicant : String
  documentIds : List String

def ReviewForm.json (form : ReviewForm) : Value :=
  .object [("tenant_id", .string form.tenantId), ("case_id", .string form.caseId),
    ("project_type", .string form.projectType), ("location", .string form.location),
    ("applicant", .string form.applicant), ("documents", .array (form.documentIds.map .string))]

/-! ## What the endpoints read -/

/-- `await request.json()`. -/
def readJsonBody (body : Bytes) : Option Json := (UriComponent.decodeUtf8 body).bind loads

/-- What the models take for an id, and for an integer where it is none. -/
structure Pydantic where
  uuid : String → Option UUID
  uuid_strUuid : ∀ u, uuid (strUuid u) = some u
  laxInt : Json → Option ℤ

namespace Pydantic

/-- The value of a field; the last member of a name counts. -/
def field (members : Dict) (name : String) : Option Json := lookup name members.reverse

def dict : Json → Option Dict
  | .obj members => some members
  | _ => none

def str : Json → Option String
  | .str s => some s
  | _ => none

def list : Json → Option (List Json)
  | .arr xs => some xs
  | _ => none

/-- A field that may be missing or `null`. -/
def optional {α : Type} (read : Json → Option α) : Option Json → Option (Option α)
  | none | some .null => some none
  | some j => (read j).map some

def classification (j : Json) : Option ClassificationLevel :=
  (str j).bind fun s => [ClassificationLevel.«public», .internal, .confidential, .protectedB].find?
    (·.value = s)

variable (V : Pydantic)

def id (j : Json) : Option UUID := (str j).bind V.uuid

def int : Json → Option ℤ
  | .num (.int n) => some n
  | j => V.laxInt j

/-- `DocumentIngestRequest`. -/
def documentIngestRequest (body : Json) : Option DocumentIngestRequest := do
  let members ← dict body
  let tenantId ← (field members "tenant_id").bind str
  let caseId ← optional V.id (field members "case_id")
  let filename ← (field members "filename").bind str
  let contentType ← (field members "content_type").bind str
  let classification ← ((field members "classification").map classification).getD (some .internal)
  let sha256 ← (field members "sha256").bind str
  let objectUri ← (field members "object_uri").bind str
  let metadata ← ((field members "metadata").map dict).getD (some [])
  if h : sha256.length = 64 then
    some ⟨tenantId, caseId, filename, contentType, classification, sha256, h, objectUri, metadata⟩
  else none

def evidenceCitation (j : Json) : Option EvidenceCitation := do
  let members ← dict j
  let documentId ← (field members "document_id").bind V.id
  let version ← (field members "version").bind V.int
  let chunkId ← (field members "chunk_id").bind str
  let page ← optional V.int (field members "page")
  let startOffset ← optional V.int (field members "start_offset")
  let endOffset ← optional V.int (field members "end_offset")
  let sha256 ← (field members "sha256").bind str
  let excerpt ← (field members "excerpt").bind str
  return ⟨documentId, version, chunkId, page, startOffset, endOffset, sha256, excerpt⟩

/-- `list[EvidenceCitation]`. -/
def citations (body : Json) : Option (List EvidenceCitation) := do
  (← list body).mapM V.evidenceCitation

/-- `EnvironmentalReviewRequest`, without the attributes. -/
def environmentalReviewRequest (body : Json) : Option EnvironmentalReviewRequest := do
  let members ← dict body
  let tenantId ← (field members "tenant_id").bind str
  let caseId ← (field members "case_id").bind V.id
  let projectType ← (field members "project_type").bind str
  let location ← (field members "location").bind str
  let applicant ← (field members "applicant").bind str
  let documents ← (field members "documents").bind list
  return ⟨tenantId, caseId, projectType, location, applicant, ← documents.mapM V.id⟩

end Pydantic

/-! ## Responses -/

/-- `DocumentRecord` in pydantic's JSON mode. -/
def DocumentRecord.json (record : DocumentRecord) : Json :=
  .obj [("tenant_id", .str record.tenantId), ("case_id", optStr (record.caseId.map strUuid)),
    ("filename", .str record.filename), ("content_type", .str record.contentType),
    ("classification", .str record.classification.value), ("sha256", .str record.sha256),
    ("object_uri", .str record.objectUri), ("metadata", .obj record.metadata),
    ("id", .str (strUuid record.id)), ("version", intJson record.version),
    ("lineage_id", .str (strUuid record.lineageId)),
    ("created_at", .str (String.ofList record.createdAt.jsonChars))]

/-- The body of a `JSONResponse`, which raises where a number is infinite or `NaN`. -/
def responseBody (W : NumberWriter) (j : Json) : Option Bytes :=
  if j.isFinite then some (encodeUtf8 (render W j)) else none

/-- `await response.json()`, for a body in UTF-8. -/
def browserJson (body : Bytes) : Option Value := (UriComponent.decodeUtf8 body).bind JsJson.parse

end GoAnalyze
