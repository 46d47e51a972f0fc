import GoAnalyze.Lib.Json
import GoAnalyze.Spec.RateLimit

/-! The middleware stack of `main.py`, from the routes out to `ServerErrorMiddleware`. -/

namespace GoAnalyze

open EventLoop JsonText

/-! ## Requests and responses -/

/-- Header names are in lower case. -/
abbrev HeaderList := List (String × String)

structure HttpRequest where
  method : String
  path : String
  clientHost : Option String
  headers : HeaderList

inductive ResponseBody where
  | json (content : Json)
  | text (content : String)

/-- A response of Starlette, without `content-length`, which no middleware reads. -/
structure HttpResponse where
  statusCode : ℕ
  headers : HeaderList
  body : ResponseBody

def getHeader (name : String) (headers : HeaderList) : Option String :=
  (headers.find? (·.1 = name)).map (·.2)

/-- `MutableHeaders.__setitem__`: the first header of the name gets the value, and the
others of the name go. -/
def setHeader (name value : String) : HeaderList → HeaderList
  | [] => [(name, value)]
  | header :: headers =>
    if header.1 = name then (name, value) :: headers.filter (·.1 ≠ name)
    else header :: setHeader name value headers

/-- `Response.init_headers`. -/
def initHeaders (mediaType : Option String) (headers : HeaderList) : HeaderList :=
  let raw := headers.map fun header => (header.1.toLower, header.2)
  match mediaType with
  | some mediaType =>
    if (getHeader "content-type" raw).isSome then raw else raw ++ [("content-type", mediaType)]
  | none => raw

def jsonResponse (statusCode : ℕ) (content : Json) (headers : HeaderList) : HttpResponse :=
  ⟨statusCode, initHeaders (some "application/json") headers, .json content⟩

/-- `http_exception_handler` of FastAPI. -/
def httpExceptionHandler (e : HTTPException) (headers : HeaderList) : HttpResponse :=
  if e.statusCode < 200 ∨ e.statusCode ∈ [204, 205, 304] then
    ⟨e.statusCode, initHeaders none headers, .text ""⟩
  else jsonResponse e.statusCode (.obj [("detail", .str e.detail)]) headers

/-! ## Middleware -/

/-- What answers a request. -/
abbrev Asgi (ι T : Type) := HttpRequest → Limiter ι T HttpResponse

/-- `CORSMiddleware`: its answer to a preflight request, and what it makes of the
response to any other one. -/
structure Cors where
  preflight : HttpRequest → Option HttpResponse
  simpleResponse : HttpRequest → HttpResponse → HttpResponse

structure WebSettings where
  environment : String := "development"
  rateLimit : RateLimit.Settings := {}

namespace Middleware

variable {ι T : Type}

/-- The headers that `security_headers` sets. -/
def securityHeaderValues (environment : String) : HeaderList :=
  [("x-content-type-options", "nosniff"), ("x-frame-options", "DENY"),
    ("referrer-policy", "no-referrer"),
    ("content-security-policy", "default-src 'none'; frame-ancestors 'none'")] ++
  if environment ≠ "development" then
    [("strict-transport-security", "max-age=63072000; includeSubDomains")]
  else []

def setHeaders (values headers : HeaderList) : HeaderList :=
  values.foldl (fun headers header => setHeader header.1 header.2 headers) headers

def securityHeaders (environment : String) (callNext : Asgi ι T) : Asgi ι T := fun request => do
  let response ← callNext request
  return { response with headers := setHeaders (securityHeaderValues environment) response.headers }

def exemptPaths : List String := ["/health", "/ready", "/metrics"]

/-- The answer of `ip_rate_limit` to an `HTTPException` of the limiter. -/
def rateLimitResponse : Raised → Limiter ι T (Option HttpResponse)
  | .http e headers =>
    return some (jsonResponse e.statusCode (.obj [("detail", .str e.detail)]) headers)
  | e => throw e

def ipRateLimit (settings : RateLimit.Settings) (callNext : Asgi ι T) : Asgi ι T := fun request => do
  if request.path ∉ exemptPaths then
    let refusal ← tryCatch (do
      RateLimit.enforceIpRateLimit settings request.clientHost
      return none) rateLimitResponse
    if let some response := refusal then
      return response
  callNext request

/-- The count of requests is for `/metrics` only. -/
def countRequests (callNext : Asgi ι T) : Asgi ι T := fun request => callNext request

def corsMiddleware (cors : Cors) (callNext : Asgi ι T) : Asgi ι T := fun request => do
  match cors.preflight request with
  | some response => return response
  | none =>
    let response ← callNext request
    return cors.simpleResponse request response

/-- `ExceptionMiddleware`. The routes answer invalid requests themselves here. -/
def exceptionMiddleware (routes : Asgi ι T) : Asgi ι T := fun request =>
  tryCatch (routes request) fun
    | .http e headers => return httpExceptionHandler e headers
    | e => throw e

def unhandledExceptionHandler : Raised → Limiter ι T HttpResponse
  | .http e headers => return httpExceptionHandler e headers
  | .other => return ⟨500, [("content-type", "application/json")],
      .text "\x7b\"detail\":\"internal_server_error\"\x7d"⟩
  -- a cancellation is no `Exception`
  | .cancelled => throw .cancelled

def serverErrorMiddleware (app : Asgi ι T) : Asgi ι T := fun request =>
  tryCatch (app request) unhandledExceptionHandler

/-- `add_middleware`: the one added last is outermost. -/
def addMiddleware (middleware : Asgi ι T → Asgi ι T) (stack : List (Asgi ι T → Asgi ι T)) :
    List (Asgi ι T → Asgi ι T) :=
  middleware :: stack

def userMiddleware (settings : WebSettings) (cors : Cors) : List (Asgi ι T → Asgi ι T) :=
  [] |> addMiddleware (corsMiddleware cors)
    |> addMiddleware (securityHeaders settings.environment)
    |> addMiddleware (ipRateLimit settings.rateLimit)
    |> addMiddleware countRequests

/-- `build_middleware_stack`. -/
def app (settings : WebSettings) (cors : Cors) (routes : Asgi ι T) : Asgi ι T :=
  serverErrorMiddleware
    ((userMiddleware settings cors).foldr (fun middleware app => middleware app)
      (exceptionMiddleware routes))

end Middleware

end GoAnalyze
