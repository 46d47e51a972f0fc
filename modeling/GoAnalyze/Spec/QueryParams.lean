import GoAnalyze.Lib.FormUrlencoded
import GoAnalyze.Lib.JsJson
import GoAnalyze.Spec.DataHooks

/-! Query parameters: the part of `buildUrl` after the path, as `lib/api.ts` calls it, and
what the endpoints read of it. -/

namespace GoAnalyze

open FormUrlencoded JsonText
open JsJson (numberToString)

/-! ## The client -/

/-- A value of `query`. -/
inductive QueryValue where
  | undefined
  | null
  | string (s : String)
  | number (x : JsJson.Num)
  | boolean (b : Bool)

/-- `String(value)`. -/
def QueryValue.text : QueryValue → String
  | .undefined => "undefined"
  | .null => "null"
  | .string s => s
  | .number x => String.ofList (numberToString x)
  | .boolean true => "true"
  | .boolean false => "false"

/-- `value === undefined || value === null || value === ""`. -/
def QueryValue.skipped : QueryValue → Bool
  | .undefined | .null => true
  | .string s => s = ""
  | .number _ | .boolean _ => false

/-- `searchParams.set`: the first pair of the name takes the value, and the others go. -/
def searchParamsSet (pairs : List (String × String)) (name value : String) :
    List (String × String) :=
  if name ∈ pairs.map Prod.fst then
    pairs.takeWhile (·.1 ≠ name) ++
      (name, value) :: (pairs.dropWhile (·.1 ≠ name)).filter (·.1 ≠ name)
  else pairs ++ [(name, value)]

/-- One turn of the loop of `buildUrl`. -/
def addParam (pairs : List (String × String)) (entry : String × QueryValue) :
    List (String × String) :=
  if entry.2.skipped then pairs else searchParamsSet pairs entry.1 entry.2.text

/-- The parameters of the URL after the loop, over the entries of `query`. -/
def buildParams (query : List (String × QueryValue)) : List (String × String) :=
  query.foldl addParam []

/-- How `URLSearchParams` writes a byte. -/
def formByte (b : UInt8) : List Char :=
  let c := Char.ofNat b.toNat
  if c = ' ' then ['+']
  else if c.isAlphanum || c ∈ ['*', '-', '.', '_'] then [c] else '%' :: hexUpper 2 b.toNat

/-- The query of the URL. -/
def queryString (query : List (String × QueryValue)) : List Char :=
  serialize formByte (buildParams query)

/-- `value ?? undefined`. -/
def optional {α : Type} (value : α → QueryValue) : Option α → QueryValue
  | some a => value a
  | none => .undefined

/-- A whole number. -/
def QueryValue.whole (n : ℤ) : QueryValue := .number (.ofInt n)

/-- The `query` of `documentsApi.search`. -/
def documentsApiSearch (params : SearchParams) : List (String × QueryValue) :=
  [("q", optional .string params.q), ("page", optional .whole params.page),
    ("page_size", optional .whole params.pageSize),
    ("classification", optional .string params.classification),
    ("content_type", optional .string params.contentType)]

/-- The `query` of `ragApi.answer`. -/
def ragApiAnswer (question : String) : List (String × QueryValue) :=
  [("question", .string question)]

/-- The `query` of `casesApi.assign`. -/
def casesApiAssign (skill : Option String) : List (String × QueryValue) :=
  [("skill", optional .string skill)]

/-- The `query` of `auditApi.list`. -/
def auditApiList (page pageSize : ℤ) : List (String × QueryValue) :=
  [("page", .whole page), ("page_size", .whole pageSize)]

/-- The state of `DocumentFilters`. -/
structure DocumentFiltersValue where
  q : String
  classification : String
  contentType : String

/-- `value || undefined`. -/
def orUndefined (s : String) : Option String := if s = "" then none else some s

/-- The parameters of `runSearch` on the pages of documents and of the search. -/
def runSearch (filters : DocumentFiltersValue) (page : ℤ) : SearchParams where
  q := some filters.q
  page := some page
  pageSize := some 20
  classification := orUndefined filters.classification
  contentType := orUndefined filters.contentType

/-! ## The server -/

/-- How the server reads parameters: ill-formed UTF-8 is replaced, and a number is read from
its text, in decimal digits among others. -/
structure QueryReader where
  utf8 : Utf8Decoder
  parseInt : String → Option ℤ
  parseInt_digits : ∀ n : ℤ, n.natAbs < 10 ^ 21 → parseInt (String.ofList (writeInt n)) = some n

/-- `QueryParams(query_string)`, which keeps the last value of a name. -/
def QueryReader.get (R : QueryReader) (query : List Char) (name : String) : Option String :=
  (((parse R.utf8 query).filter (·.1 = name)).getLast?).map Prod.snd

/-- What an endpoint is given for a parameter; `none` where the request is answered 422. -/
def QueryReader.param {α : Type} (R : QueryReader) (query : List Char) (name : String)
    (read : String → Option α) (default : Option α) : Option α :=
  match R.get query name with
  | some text => read text
  | none => default

structure SearchArguments where
  q : String
  page : ℤ
  pageSize : ℤ
  classification : Option String
  contentType : Option String
deriving DecidableEq

/-- The arguments of `search_documents`. -/
def QueryReader.searchArguments (R : QueryReader) (query : List Char) : Option SearchArguments := do
  let q ← R.param query "q" some (some "")
  let page ← R.param query "page" R.parseInt (some 1)
  let pageSize ← R.param query "page_size" R.parseInt (some 20)
  let classification ← R.param query "classification" (some ∘ some) (some none)
  let contentType ← R.param query "content_type" (some ∘ some) (some none)
  return ⟨q, page, pageSize, classification, contentType⟩

/-- The question of `rag_answer`, which has no default. -/
def QueryReader.question (R : QueryReader) (query : List Char) : Option String :=
  R.param query "question" some none

/-- The skill of `assign_case`. -/
def QueryReader.skill (R : QueryReader) (query : List Char) : Option String :=
  R.param query "skill" some (some "technical")

/-- The arguments of `list_audit`. -/
def QueryReader.auditArguments (R : QueryReader) (query : List Char) : Option (ℤ × ℤ) := do
  let page ← R.param query "page" R.parseInt (some 1)
  let pageSize ← R.param query "page_size" R.parseInt (some 20)
  return (page, pageSize)

end GoAnalyze
