import GoAnalyze.Spec.BrowserAuth
import GoAnalyze.Spec.Streaming

/-! `lib/api.ts`: what `request` makes of the outcome of its `fetch`, and the response that
the server sends to a download. -/

namespace GoAnalyze

open JsonText
open EnvironmentalAuthorizationEngine (natText)
open Auth (isOk)

/-! ## Responses -/

/-- A response; `contentType` is what `headers.get("content-type")` gives. -/
structure FetchResponse where
  status : ℕ
  contentType : Option String
  body : Bytes

/-- What a `fetch` comes to: an `AbortError` is the timeout. -/
inductive FetchOutcome where
  | response (response : FetchResponse)
  | aborted
  | failed

inductive ErrorKind where
  | unauthorized | forbidden | validation | notFound | server | network | timeout | unknown
deriving DecidableEq

inductive ErrorBody where
  | json (value : Json)
  | text (value : String)

structure ApiError where
  message : String
  status : ℕ
  kind : ErrorKind
  validation : Option Json := none
  body : Option ErrorBody := none

/-- A rejection of `request`: `syntaxError` is that of `response.json()`, `typeError` that
of a member of `null`. -/
inductive RequestError where
  | api (error : ApiError)
  | syntaxError
  | typeError

/-- What `request` resolves to. -/
inductive Payload where
  | undefined
  | blob (bytes : Bytes)
  | json (value : Json)

/-! ## The client -/

/-- The configuration, how the browser reads a body, and the texts of its own errors. -/
structure ApiConfig where
  apiBaseUrl : String
  apiTimeoutMs : ℕ
  readJson : Bytes → Option Json
  readText : Bytes → String
  syntaxErrorMessage : String
  typeErrorMessage : String

def kindForStatus (status : ℕ) : ErrorKind :=
  if status = 401 then .unauthorized
  else if status = 403 then .forbidden
  else if status = 404 then .notFound
  else if status = 422 then .validation
  else if status ≥ 500 then .server
  else .unknown

def errorMessage (status : ℕ) : ErrorKind → String
  | .unauthorized => "Your session has expired or you are not signed in."
  | .forbidden => "You don't have permission to perform this action."
  | .notFound => "The requested resource was not found."
  | .validation => "The request was rejected as invalid."
  | .server => "The GoAnalyze API encountered an internal error. Please try again shortly."
  | .network => "Network error contacting the GoAnalyze API."
  | .timeout => "The request timed out."
  | .unknown => "Request failed with status " ++ natText status ++ "."

/-- `validation.detail?.[0]?.msg` where it is not empty; messages are strings. -/
def firstMessage (validation : Json) : Option String :=
  match validation with
  | .obj members =>
    match lookup "detail" members with
    | some (.arr (.obj detail :: _)) =>
      match lookup "msg" detail with
      | some (.str message) => if message = "" then none else some message
      | _ => none
    | _ => none
  | _ => none

/-- `request` for a path, behind its `fetch`. -/
def request (config : ApiConfig) (path : String) : FetchOutcome → Except RequestError Payload
  | .aborted => .error (.api
      { message := "Request to " ++ path ++ " timed out after " ++ natText config.apiTimeoutMs ++
          "ms."
        status := 0, kind := .timeout })
  | .failed => .error (.api
      { message := "Could not reach the GoAnalyze API at " ++ config.apiBaseUrl ++
          ". Check that the backend is running and reachable."
        status := 0, kind := .network })
  | .response response =>
    let isJson := occursIn "application/json".toList (response.contentType.getD "").toList
    if !isOk response.status then
      let kind := kindForStatus response.status
      if kind = .validation ∧ isJson then
        match config.readJson response.body with
        | none => .error .syntaxError
        | some .null => .error .typeError
        | some validation => .error (.api
            { message := match firstMessage validation with
                | some message => "Validation error: " ++ message
                | none => "The request was rejected as invalid."
              status := response.status, kind := .validation, validation := some validation })
      else
        .error (.api
          { message := errorMessage response.status kind
            status := response.status, kind := kind
            body := if isJson then (config.readJson response.body).map .json
              else some (.text (config.readText response.body)) })
    else if response.status = 204 then .ok .undefined
    else if !isJson then .ok (.blob response.body)
    else match config.readJson response.body with
      | none => .error .syntaxError
      | some value => .ok (.json value)

/-- `documentsApi.download`. -/
def documentsApiDownload (config : ApiConfig) (documentId : UUID) :
    FetchOutcome → Except RequestError Payload :=
  request config ("/v1/documents/" ++ strUuid documentId ++ "/download")

/-! ## `DownloadButton` -/

def RequestError.message (config : ApiConfig) : RequestError → String
  | .api error => error.message
  | .syntaxError => config.syntaxErrorMessage
  | .typeError => config.typeErrorMessage

/-- A click on the button ends with a file that is saved, or a text that is shown. -/
inductive DownloadClick where
  | saved (name : String) (bytes : Bytes)
  | error (text : String)

/-- `handleDownload`: `createObjectURL` takes a blob, and raises a `TypeError` for anything
else. -/
def handleDownload (config : ApiConfig) (documentId : UUID) (filename : Option String)
    (outcome : FetchOutcome) : DownloadClick :=
  match documentsApiDownload config documentId outcome with
  | .ok (.blob bytes) => .saved ((filename.filter (· ≠ "")).getD (strUuid documentId)) bytes
  | .ok _ => .error config.typeErrorMessage
  | .error err => .error (err.message config)

/-! ## The server -/

/-- A response as the server sends it. -/
structure ServerResponse where
  status : ℕ
  headers : List (String × String)
  body : Bytes

/-- The response to a download: a stream, or the error as JSON. -/
def downloadResponse (P : Platform) (inp : Inputs) (headers : Headers) (context : TenantContext)
    (documentId : UUID) (w : World) : ServerResponse :=
  match (downloadDocument P inp headers context documentId).run w with
  | .ok response _ => ⟨200, response.rawHeaders P, response.data⟩
  | .error e _ => ⟨e.statusCode, [("content-type", "application/json")],
      encodeUtf8 (write compact (.obj [("detail", .str e.detail)]))⟩

end GoAnalyze
