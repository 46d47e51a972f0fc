import GoAnalyze.Lib.Zoom
import GoAnalyze.Spec.ApiClient
import GoAnalyze.Spec.JsonBodies

/-! The upload page and the API behind it. What the page asks for is served among the requests
of other clients. A response may be lost on its way; then the page sees an error, whether the
request was served or not. -/

namespace GoAnalyze

open EventLoop JsonExchange
open JsonText (Json hex)

/-! ## The API as the page sees it -/

/-- With what a request arrives at its endpoint. -/
structure Arrival where
  inp : Inputs
  headers : Headers
  context : TenantContext

def serve (P : Platform) (a : Arrival) (request : ApiRequest) (w : World) :
    Except HTTPException ApiResponse × World :=
  match (handle P a.inp a.headers a.context request).run w with
  | .ok response v => (.ok response, v)
  | .error e v => (.error e, v)

/-- How the two programs read and write JSON; `body` is the JSON of a response. -/
structure JsonWire where
  numbers : NumberWriter
  pydantic : Pydantic
  config : ApiConfig
  body : ApiResponse → Json
  body_record : ∀ record, body (.record record) = record.json
  body_json : ∀ j, body (.json j) = j

namespace JsonWire

variable (B : JsonWire)

/-- The JSON of an answer: an exception is its detail. -/
def content : Except HTTPException ApiResponse → Json
  | .ok response => B.body response
  | .error e => .obj [("detail", .str e.detail)]

/-- The response to an answer. What raises where the body is written is answered as any other
exception. -/
def response (answer : Except HTTPException ApiResponse) : FetchResponse :=
  match responseBody B.numbers (B.content answer) with
  | some body =>
    { status := match answer with
        | .ok _ => 200
        | .error e => e.statusCode
      contentType := some "application/json"
      body := body }
  | none =>
    { status := internalServerError.statusCode
      contentType := some "application/json"
      body := encodeUtf8 (render B.numbers (B.content (.error internalServerError))) }

/-- What `request` makes of the response to a request that was answered so. -/
def reply (path : String) (answer : Except HTTPException ApiResponse) :
    Except RequestError Payload :=
  request { B.config with readJson := fun body => (browserJson body).map fromJs } path
    (.response (B.response answer))

end JsonWire

/-! ## The page with the API -/

structure LivePage where
  form : UploadState
  world : World

def LivePage.formOf : Lens LivePage UploadState where
  get := LivePage.form
  put form s := { s with form := form }
  get_put _ _ := rfl
  put_get _ := rfl
  put_put _ _ _ := rfl

/-- What becomes of an operation of the page. `ingested` names the record that the page takes
the body of the response for. -/
inductive Delivery where
  | digested (digest : Option Bytes)
  | ingested (a : Arrival) (record : DocumentRecord)
  | served (a : Arrival)
  | unserved (error : RequestError)

section Answer

variable (P : Platform) (B : JsonWire)

def LivePage.digest (s : LivePage) (file : File) : Delivery → Option (Option Bytes × LivePage)
  | .digested digest =>
    if ∀ bytes ∈ digest, String.ofList (bytes.flatMap fun b => hex 2 b.toNat) =
      P.sha256Hex file.bytes then some (digest, s) else none
  | _ => none

/-- `POST /v1/documents`, where the body is one of the model. -/
def LivePage.ingest (s : LivePage) (payload : IngestPayload) :
    Delivery → Option (Except RequestError DocumentRecord × LivePage)
  | .ingested a record => do
    let body ← (readJsonBody (jsonBody payload.json)).bind B.pydantic.documentIngestRequest
    let answer := (serve P a (.ingestDocument body) s.world).1
    let s' := { s with world := (serve P a (.ingestDocument body) s.world).2 }
    match B.reply "/v1/documents" answer with
    | .error e => return (.error e, s')
    | .ok _ =>
      if responseBody B.numbers record.json = some (B.response answer).body then
        return (.ok record, s')
      else none
  | .unserved error => some (.error error, s)
  | _ => none

/-- Any other request. -/
def LivePage.request (s : LivePage) (path : String) (request : ApiRequest) :
    Delivery → Option (Except RequestError Payload × LivePage)
  | .served a => some (B.reply path (serve P a request s.world).1,
      { s with world := (serve P a request s.world).2 })
  | .unserved error => some (.error error, s)
  | _ => none

def LivePage.answer (s : LivePage) (d : Delivery) :
    (op : UploadOp) → Option (UploadReply op × LivePage)
  | .digest file => s.digest P file d
  | .ingest payload _ => s.ingest P B payload d
  | .uploadContent documentId file => s.request P B
      ("/v1/documents/" ++ strUuid documentId ++ "/content")
      (.uploadDocumentContent documentId file.bytes) d
  | .process documentId => s.request P B ("/v1/documents/" ++ strUuid documentId ++ "/process")
      (.processDocument documentId) d

end Answer

/-- An event of the page, or a request of another client; one of the page whose response is
lost is among them. -/
inductive LiveEvent where
  | page (e : UploadEvent)
  | request (a : Arrival) (request : ApiRequest)

def LivePage.event (P : Platform) (s : LivePage) : LiveEvent → Option LivePage
  | .page e => (s.form.event e).map fun form => { s with form := form }
  | .request a request => some { s with world := (serve P a request s.world).2 }

def liveUpload (ι : Type) (P : Platform) (B : JsonWire) (defaultTenantId : String) :
    System ι LivePage UploadOp UploadReply Unit Delivery LiveEvent where
  program _ := (clickUpload defaultTenantId).zoom LivePage.formOf id fun _ r => r
  answer _ op d s := s.answer P B d op
  event e s := s.event P e

end GoAnalyze
