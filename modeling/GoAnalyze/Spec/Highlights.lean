import GoAnalyze.Lib.Markup
import GoAnalyze.Spec.Search

/-! The highlights of search hits, from the request of `search` to the row of
`DocumentTable`. -/

namespace GoAnalyze

open Markup

inductive HighlightEncoder where
  | default | html

structure HighlightOptions where
  fields : List String
  encoder : Option HighlightEncoder

/-- `highlight` in the body that `search` posts; it names no encoder. -/
def SearchService.highlightOptions : HighlightOptions := ⟨["filename"], none⟩

def emOpen : List Char := "<em>".toList

def emClose : List Char := "</em>".toList

def HighlightEncoder.encode : HighlightEncoder → List Char → List Char
  | .default => id
  | .html => escape

/-- A fragment of a field with its matches marked, as OpenSearch returns it. -/
def HighlightOptions.fragment (options : HighlightOptions) (pieces : List Piece) : String :=
  String.ofList (render emOpen emClose (options.encoder.getD .default).encode pieces)

/-- What OpenSearch highlights: each highlight of a hit is a fragment of the filename that
it stores. -/
structure Highlighted (options : HighlightOptions) (fragments : OpenSearchHit → List (List Piece))
    (reply : OpenSearchReply) : Prop where
  rendered : ∀ hit ∈ reply.hits, hit.highlight = (fragments hit).map options.fragment
  stored : ∀ hit ∈ reply.hits, ∀ fragment ∈ fragments hit,
    fragment.flatMap Piece.text <:+: hit.filename.toList

/-- The HTML that `DocumentTable` injects into the row of a hit. -/
def DocumentTable.injectedHtml (hit : SearchHit) : Option String := hit.highlight.filter (· ≠ "")

end GoAnalyze
