import GoAnalyze.Spec.Ingestion

/-! `search.py` and `storage.py`: the OpenSearch index with its fallback to the
database, and the object stores with theirs. -/

namespace GoAnalyze

open JsonText Sql

/-! ## Search -/

namespace SearchService

def searchDocument (record : DocumentRecord) : SearchDocument where
  id := record.id
  tenantId := record.tenantId
  filename := record.filename
  contentType := record.contentType
  classification := record.classification
  metadata := record.metadata
  createdAt := record.createdAt.isoformat

/-- `index_document`: where OpenSearch is unreachable the document is skipped. -/
def indexDocument (inp : Inputs) (record : DocumentRecord) : App Unit :=
  modify fun w => if inp.indexReachable then
    { w with searchIndex := w.searchIndex.upsert (searchDocument record) } else w

def searchBody (tenantId query : String) (page pageSize : ℤ)
    (classification contentType : Option String) : SearchBody where
  must := .term "tenant_id" tenantId ::
    ((if query.isEmpty then [] else [.multiMatch query ["filename^2", "metadata.*"]]) ++
      ((DocumentRepository.given classification).toList.map (.term "classification")) ++
      ((DocumentRepository.given contentType).toList.map (.term "content_type")))
  «from» := (page - 1) * pageSize
  size := pageSize

def hitOfReply (hit : OpenSearchHit) : SearchHit where
  documentId := hit.id
  filename := hit.filename
  contentType := hit.contentType
  classification := hit.classification
  score := hit.score.getD 0
  highlight := DocumentRepository.given (some (" ".intercalate hit.highlight))
  createdAt := hit.createdAt

def hitOfRecord (P : Platform) (query : String) (record : DocumentRecord) : SearchHit where
  documentId := record.id
  filename := record.filename
  contentType := record.contentType
  classification := record.classification
  score :=
    if !query.isEmpty && occursIn (P.lower query.toList) (P.lower record.filename.toList) then 1
    else 1 / 2
  highlight := none
  createdAt := record.createdAt

def search (P : Platform) (inp : Inputs) (tenantId query : String) (page pageSize : ℤ)
    (classification contentType : Option String) : App SearchResponse := do
  let page := max page 1
  let pageSize := min (max pageSize 1) 100
  let w ← get
  match inp.openSearch w.searchIndex
      (searchBody tenantId query page pageSize classification contentType) with
  | some reply =>
    return { query := query, total := reply.total, page := page, pageSize := pageSize
             backend := "opensearch", results := reply.hits.map hitOfReply }
  | none =>
    let (records, total) ← DocumentRepository.search P tenantId query page pageSize classification
      contentType
    return { query := query, total := total, page := page, pageSize := pageSize
             backend := "database_fallback", results := records.map (hitOfRecord P query) }

end SearchService

/-! ## Object storage -/

/-- `storage_key`. -/
def storageKey (tenantId : String) (documentId : UUID) : String :=
  tenantId ++ "/" ++ strUuid documentId

inductive Backend where
  | minio | fallback
deriving DecidableEq

/-- `get_object_storage`: MinIO where it is configured and the probe reaches it. -/
def getObjectStorage (P : Platform) (inp : Inputs) : Backend :=
  if P.minioConfigured && inp.minioReachable then .minio else .fallback

def World.store (w : World) : Backend → ObjectStore
  | .minio => w.minio
  | .fallback => w.fallbackStore

namespace ObjectStorage

def put (backend : Backend) (key : String) (data : Bytes) (contentType : String) : App Unit :=
  modify fun w => match backend with
    | .minio => { w with minio := Function.update w.minio key (some (data, contentType)) }
    | .fallback =>
      { w with fallbackStore := Function.update w.fallbackStore key (some (data, contentType)) }

/-- The bytes under a key; `none` stands for `ObjectNotFoundError`. -/
def get (backend : Backend) (key : String) : App (Option Bytes) := do
  return ((← MonadState.get).store backend key).map (·.1)

end ObjectStorage

end GoAnalyze
