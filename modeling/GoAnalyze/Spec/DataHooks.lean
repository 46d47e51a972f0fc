import GoAnalyze.Lib.EventLoop
import GoAnalyze.Spec.ApiClient

/-! The hooks `useSearch`, `useDocumentsList` and `useAudit`, with the document cache of the
session. A call shows that it loads, waits for the API, and writes what it was answered. -/

namespace GoAnalyze

open EventLoop

/-! ## `documentCache.ts` -/

/-- What the session has seen of a document: the members of its record and of its search
hits, as far as they came. -/
structure CachedDocument where
  tenantId : Option String := none
  caseId : Option (Option UUID) := none
  filename : Option String := none
  contentType : Option String := none
  classification : Option ClassificationLevel := none
  sha256 : Option String := none
  objectUri : Option String := none
  metadata : Option Dict := none
  id : Option UUID := none
  version : Option ℤ := none
  lineageId : Option UUID := none
  createdAt : Option DateTime := none
  score : Option ℚ := none
  highlight : Option (Option String) := none
  documentId : UUID

abbrev DocumentCache := UUID → Option CachedDocument

def cacheDocumentRecord (record : DocumentRecord) (cache : DocumentCache) : DocumentCache :=
  let cached := (cache record.id).getD { documentId := record.id }
  Function.update cache record.id <| some { cached with
    tenantId := some record.tenantId
    caseId := some record.caseId
    filename := some record.filename
    contentType := some record.contentType
    classification := some record.classification
    sha256 := some record.sha256
    objectUri := some record.objectUri
    metadata := some record.metadata
    id := some record.id
    version := some record.version
    lineageId := some record.lineageId
    createdAt := some record.createdAt
    documentId := record.id }

def cacheSearchHit (cache : DocumentCache) (hit : SearchHit) : DocumentCache :=
  let cached := (cache hit.documentId).getD { documentId := hit.documentId }
  Function.update cache hit.documentId <| some { cached with
    documentId := hit.documentId
    filename := some hit.filename
    contentType := some hit.contentType
    classification := some hit.classification
    score := some hit.score
    highlight := some hit.highlight
    createdAt := some hit.createdAt }

def cacheSearchHits (hits : List SearchHit) (cache : DocumentCache) : DocumentCache :=
  hits.foldl cacheSearchHit cache

/-! ## The state of a hook -/

inductive AsyncStatus where
  | idle | loading | success | error
deriving DecidableEq

@[ext] structure AsyncState (α : Type) where
  status : AsyncStatus
  data : Option α
  error : Option RequestError

namespace AsyncState

variable {α : Type}

def initial : AsyncState α := ⟨.idle, none, none⟩

/-- `setStatus("loading")` and `setError(null)`. -/
def start (s : AsyncState α) : AsyncState α := { s with status := .loading, error := none }

/-- What a call writes when it is answered. -/
def settle (s : AsyncState α) : Except RequestError α → AsyncState α
  | .ok result => { s with data := some result, status := .success }
  | .error err => { s with error := some err, status := .error }

end AsyncState

/-! ## The hooks -/

structure HookMemory (α : Type) where
  state : AsyncState α
  cache : DocumentCache

/-- A call of a hook, which waits for one request to the API. -/
abbrev HookTask (Request α : Type) :=
  Async (HookMemory α) Request fun _ => Except RequestError α

/-- The callbacks of the three hooks: `keep` is what a result is cached with. -/
def runRequest {Request α : Type} (request : Request)
    (keep : α → DocumentCache → DocumentCache) : HookTask Request α Unit := do
  modify fun m => { m with state := m.state.start }
  match ← Async.wait request with
  | .ok result => modify fun m => ⟨m.state.settle (.ok result), keep result m.cache⟩
  | .error err => modify fun m => { m with state := m.state.settle (.error err) }

structure SearchParams where
  q : Option String := none
  page : Option ℤ := none
  pageSize : Option ℤ := none
  classification : Option String := none
  contentType : Option String := none

/-- `useSearch().search`. -/
def useSearch (params : SearchParams) : HookTask SearchParams SearchResponse Unit :=
  runRequest params fun result => cacheSearchHits result.results

/-- `useDocumentsList().load`. -/
def useDocumentsList (params : SearchParams := {}) : HookTask SearchParams SearchResponse Unit :=
  runRequest { params with q := params.q <|> some "" } fun _ => id

/-- `useAudit().load`. -/
def useAudit (page : ℤ := 1) (pageSize : ℤ := 20) :
    HookTask (ℤ × ℤ) AuditEventListResponse Unit :=
  runRequest (page, pageSize) fun _ => id

inductive DataHook where
  | useSearch | useDocumentsList | useAudit

namespace DataHook

abbrev Request : DataHook → Type
  | useSearch | useDocumentsList => SearchParams
  | useAudit => ℤ × ℤ

abbrev Data : DataHook → Type
  | useSearch | useDocumentsList => SearchResponse
  | useAudit => AuditEventListResponse

def call : (hook : DataHook) → hook.Request → HookTask hook.Request hook.Data Unit
  | useSearch, params => GoAnalyze.useSearch params
  | useDocumentsList, params => GoAnalyze.useDocumentsList params
  | useAudit, pages => GoAnalyze.useAudit pages.1 pages.2

end DataHook

/-- The calls of one hook. Each is answered once, at any time after it was made, with a
response that `response` gives for it. -/
def hookSystem {ι : Type} (hook : DataHook) (calls : ι → hook.Request)
    (response : ι → Except RequestError hook.Data) :
    System ι (HookMemory hook.Data) hook.Request (fun _ => Except RequestError hook.Data) Unit
      Unit Empty where
  program i := hook.call (calls i)
  answer i _ _ m := some (response i, m)
  event e := e.elim

abbrev HookLoop (ι : Type) (hook : DataHook) :=
  Loop ι (HookMemory hook.Data) hook.Request (fun _ => Except RequestError hook.Data) Unit

end GoAnalyze
