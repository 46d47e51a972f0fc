import GoAnalyze.Lib.TextIndex
import GoAnalyze.Spec.Search

/-! What OpenSearch does with the documents that `index_document` puts and the queries
that `search` builds. No mapping is created, so that string fields are analyzed. -/

namespace GoAnalyze

open Sql TextIndex

/-- The fields of an indexed document that term clauses can name. -/
def SearchDocument.fieldValue (entry : SearchDocument) (field : String) : Option String :=
  match field with
  | "tenant_id" => some entry.tenantId
  | "filename" => some entry.filename
  | "content_type" => some entry.contentType
  | "classification" => some entry.classification.value
  | _ => none

/-- The entry meets the term clauses of a query, which are not analyzed: each term is a
token of its field. -/
def SearchBody.selects (tokens : String → List String) (body : SearchBody)
    (entry : SearchDocument) : Bool :=
  body.must.all fun
    | .term field value => (entry.fieldValue field).any fun v => value ∈ tokens v
    | .multiMatch _ _ => true

/-- An index: the tokens of a field value, what full-text queries match, the order of
the hits of a query and what is computed for each. -/
structure SearchEngine where
  tokens : String → List String
  fullText : String → List String → SearchDocument → Bool
  rank : List Clause → Scan SearchDocument
  score : List Clause → SearchDocument → Option ℚ
  highlight : List Clause → SearchDocument → List String
  /-- The reading of a `created_at` string. -/
  readDateTime : String → DateTime

namespace SearchEngine

variable (E : SearchEngine)

/-- `bool` with `must`: an entry has to meet all clauses. -/
def isMatch (body : SearchBody) (entry : SearchDocument) : Bool :=
  body.selects E.tokens entry && body.must.all fun
    | .term _ _ => true
    | .multiMatch query fields => E.fullText query fields entry

def hit (must : List Clause) (entry : SearchDocument) : OpenSearchHit where
  id := entry.id
  filename := entry.filename
  contentType := entry.contentType
  classification := entry.classification
  score := E.score must entry
  highlight := E.highlight must entry
  createdAt := E.readDateTime entry.createdAt

/-- As far as OpenSearch counts where `track_total_hits` is not sent. -/
def countedHits : ℕ := 10000

/-- The reply to a `_search` request. -/
def answer (index : Table SearchDocument.id) (body : SearchBody) : Option OpenSearchReply :=
  let found := index.rows.filter (E.isMatch body)
  some {
    hits := (slice body.«from».toNat body.size.toNat ((E.rank body.must).read found)).map
      (E.hit body.must)
    total := min found.length countedHits }

/-- The same index with analyzed fields. -/
def analyzed (A : Analyzer) : SearchEngine := { E with tokens := A.tokens }

/-- The same index with fields that are matched whole. -/
def wholeFields : SearchEngine := { E with tokens := fun value => [value] }

end SearchEngine

end GoAnalyze
