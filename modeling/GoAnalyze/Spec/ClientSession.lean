import GoAnalyze.Lib.Zoom
import GoAnalyze.Spec.BrowserAuth
import GoAnalyze.Spec.UploadForm

/-! A session of the frontend in one browser tab. The functions of `auth.ts`, the hooks that
receive documents and the upload form run in any order, and what they leave in the session
storage is the tokens of the one and the document cache of the others. -/

namespace GoAnalyze

open EventLoop

/-! ## Documents -/

/-- `getCachedDocument`. -/
def getCachedDocument (documentId : UUID) (cache : DocumentCache) : Option CachedDocument :=
  cache documentId

/-- The members of a cached document. -/
inductive CachedField where
  | tenantId | caseId | filename | contentType | classification | sha256 | objectUri | metadata
  | id | version | lineageId | createdAt | score | highlight | documentId

abbrev CachedField.Value : CachedField → Type
  | .tenantId | .filename | .contentType | .sha256 | .objectUri => String
  | .caseId => Option UUID
  | .classification => ClassificationLevel
  | .metadata => Dict
  | .id | .lineageId | .documentId => UUID
  | .version => ℤ
  | .createdAt => DateTime
  | .score => ℚ
  | .highlight => Option String

def CachedDocument.field (doc : CachedDocument) : (f : CachedField) → Option f.Value
  | .tenantId => doc.tenantId
  | .caseId => doc.caseId
  | .filename => doc.filename
  | .contentType => doc.contentType
  | .classification => doc.classification
  | .sha256 => doc.sha256
  | .objectUri => doc.objectUri
  | .metadata => doc.metadata
  | .id => doc.id
  | .version => doc.version
  | .lineageId => doc.lineageId
  | .createdAt => doc.createdAt
  | .score => doc.score
  | .highlight => doc.highlight
  | .documentId => some doc.documentId

/-- What a hit brings of its document. -/
def SearchHit.received (hit : SearchHit) : CachedDocument where
  documentId := hit.documentId
  filename := some hit.filename
  contentType := some hit.contentType
  classification := some hit.classification
  score := some hit.score
  highlight := some hit.highlight
  createdAt := some hit.createdAt

def DocumentRecord.received (record : DocumentRecord) : CachedDocument where
  tenantId := some record.tenantId
  caseId := some record.caseId
  filename := some record.filename
  contentType := some record.contentType
  classification := some record.classification
  sha256 := some record.sha256
  objectUri := some record.objectUri
  metadata := some record.metadata
  id := some record.id
  version := some record.version
  lineageId := some record.lineageId
  createdAt := some record.createdAt
  documentId := record.id

/-- `useIngestDocument().ingest`, which throws the error again. -/
def useIngestDocument (payload : DocumentIngestRequest) :
    HookTask DocumentIngestRequest DocumentRecord (Except RequestError DocumentRecord) := do
  modify fun m => { m with state := m.state.start }
  let result ← Async.wait payload
  modify fun m => { m with state := m.state.settle result }
  return result

/-! ## The memory of the tab -/

/-- A document of a response, and how many logins were completed when it came. -/
structure Reception where
  document : CachedDocument
  logins : ℕ

/-- `auth.ts`, the state of each hook, and the upload form with the document cache of the
session. `received` and `logouts` are history, which no function reads. -/
structure Client where
  tab : Tab
  search : AsyncState SearchResponse
  listing : AsyncState SearchResponse
  ingest : AsyncState DocumentRecord
  form : UploadState
  received : List Reception
  logouts : ℕ

namespace Client

def cache (m : Client) : DocumentCache := m.form.cache

/-- A new session. -/
def opened (now : ℤ) (defaultTenantId : String) : Client where
  tab := .opened now
  search := .initial
  listing := .initial
  ingest := .initial
  form := .initial defaultTenantId fun _ => none
  received := []
  logouts := 0

/-- The logins that were completed. -/
def logins (m : Client) : ℕ := m.tab.redemptions.length

def receive (m : Client) (documents : List CachedDocument) : Client :=
  { m with received := m.received ++ documents.map fun document => ⟨document, m.logins⟩ }

/-- The components of a page are mounted. -/
def mount (m : Client) (defaultTenantId : String) : Client :=
  { m with
    search := .initial
    listing := .initial
    ingest := .initial
    form := .initial defaultTenantId m.cache }

def tabPart : Lens Client Tab where
  get m := m.tab
  put s m := { m with tab := s }
  get_put _ _ := rfl
  put_get _ := rfl
  put_put _ _ _ := rfl

def searchPart : Lens Client (HookMemory SearchResponse) where
  get m := ⟨m.search, m.cache⟩
  put s m := { m with search := s.state, form := { m.form with cache := s.cache } }
  get_put _ _ := rfl
  put_get _ := rfl
  put_put _ _ _ := rfl

def listingPart : Lens Client (HookMemory SearchResponse) where
  get m := ⟨m.listing, m.cache⟩
  put s m := { m with listing := s.state, form := { m.form with cache := s.cache } }
  get_put _ _ := rfl
  put_get _ := rfl
  put_put _ _ _ := rfl

def ingestPart : Lens Client (HookMemory DocumentRecord) where
  get m := ⟨m.ingest, m.cache⟩
  put s m := { m with ingest := s.state, form := { m.form with cache := s.cache } }
  get_put _ _ := rfl
  put_get _ := rfl
  put_put _ _ _ := rfl

def formPart : Lens Client UploadState where
  get m := m.form
  put s m := { m with form := s }
  get_put _ _ := rfl
  put_get _ := rfl
  put_put _ _ _ := rfl

end Client

/-! ## Calls -/

/-- What a call waits for, by the function that waits. -/
inductive ClientOp where
  | auth (op : AuthOp)
  | search (params : SearchParams)
  | list (params : SearchParams)
  | ingest (payload : DocumentIngestRequest)
  | upload (op : UploadOp)

abbrev ClientReply : ClientOp → Type
  | .auth op => AuthReply op
  | .search _ | .list _ => Except RequestError SearchResponse
  | .ingest _ => Except RequestError DocumentRecord
  | .upload op => UploadReply op

abbrev ClientTask := Async Client ClientOp ClientReply

inductive ClientCall where
  | auth (call : AuthCall)
  | search (params : SearchParams)
  | list (params : SearchParams)
  | ingest (payload : DocumentIngestRequest)
  | upload

def AuthCall.logouts : AuthCall → ℕ
  | .logout => 1
  | _ => 0

def ClientCall.run (browser : Browser) (defaultTenantId : String) : ClientCall → ClientTask Unit
  | .auth call => do
    modify fun m => { m with logouts := m.logouts + call.logouts }
    (call.run browser).run.zoom Client.tabPart .auth fun _ r => r
  | .search params => (useSearch params).zoom Client.searchPart .search fun _ r => r
  | .list params => (useDocumentsList params).zoom Client.listingPart .list fun _ r => r
  | .ingest payload => (useIngestDocument payload).zoom Client.ingestPart .ingest fun _ r => r
  | .upload => (clickUpload defaultTenantId).zoom Client.formPart .upload fun _ r => r

/-! ## Answers and events -/

inductive ClientAnswer where
  | auth (c : AuthAnswer)
  | search (response : Except RequestError SearchResponse)
  | ingest (record : Except RequestError DocumentRecord)
  | upload (c : UploadAnswer)

/-- The documents that a response contains. -/
def ClientAnswer.documents : ClientAnswer → List CachedDocument
  | .search (.ok response) => response.results.map SearchHit.received
  | .ingest (.ok record) | .upload (.ingest (.ok record)) => [record.received]
  | _ => []

def Client.reply (m : Client) : (op : ClientOp) → ClientAnswer → Option (ClientReply op × Client)
  | .auth op, .auth c => (m.tab.answer op c).map fun p => (p.1, { m with tab := p.2 })
  | .search _, .search response | .list _, .search response => some (response, m)
  | .ingest _, .ingest record => some (record, m)
  | .upload op, .upload c => (c.reply op).map fun r => (r, m)
  | _, _ => none

def Client.answer (m : Client) (op : ClientOp) (c : ClientAnswer) :
    Option (ClientReply op × Client) :=
  (m.reply op c).map fun p => (p.1, p.2.receive c.documents)

inductive ClientEvent where
  | tick (now : ℤ)
  | form (e : UploadEvent)
  | mount

def Client.event (m : Client) (defaultTenantId : String) : ClientEvent → Option Client
  | .tick now => some { m with tab := { m.tab with now := now } }
  | .form e => (m.form.event e).map fun form => { m with form := form }
  | .mount => some (m.mount defaultTenantId)

def clientSystem {ι : Type} (browser : Browser) (defaultTenantId : String)
    (calls : ι → ClientCall) :
    System ι Client ClientOp ClientReply Unit ClientAnswer ClientEvent where
  program i := (calls i).run browser defaultTenantId
  answer _ op c m := m.answer op c
  event e m := m.event defaultTenantId e

abbrev ClientLoop (ι : Type) := Loop ι Client ClientOp ClientReply Unit

end GoAnalyze
