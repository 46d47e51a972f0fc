import GoAnalyze.Lib.Frame
import GoAnalyze.Proofs.Confidentiality
import GoAnalyze.Spec.Highlights
import GoAnalyze.Spec.OpenSearch

/-! Markup in search highlights: what `DocumentTable` injects is inert where no fragment
that OpenSearch returns has markup of its own. -/

namespace GoAnalyze

open Markup DocumentTable Frames

/-! ## The joined fragments -/

theorem render_join (encode : List Char → List Char) (hseparator : encode [' '] = [' '])
    (lines : List (List Piece)) :
    (" ".intercalate (lines.map fun pieces =>
      String.ofList (render emOpen emClose encode pieces))).toList =
        render emOpen emClose encode (join [' '] lines) := by
  induction lines with
  | nil => simp [join, render]
  | cons line lines ih =>
    cases lines with
    | nil => simp [join]
    | cons line' lines =>
      have hjoin : join [' '] (line :: line' :: lines) =
          line ++ .plain [' '] :: join [' '] (line' :: lines) := rfl
      rw [hjoin, render_append, render_plain, hseparator, ← ih, List.map_cons, List.map_cons,
        String.intercalate_cons_cons]
      simp

theorem injectedHtml_hitOfReply (hit : OpenSearchHit) :
    injectedHtml (SearchService.hitOfReply hit) =
      DocumentRepository.given (some (" ".intercalate hit.highlight)) := by
  unfold injectedHtml SearchService.hitOfReply DocumentRepository.given
  simp only [Option.filter_filter, Bool.and_self]

theorem toList_highlights {options : HighlightOptions}
    {fragments : OpenSearchHit → List (List Piece)} {reply : OpenSearchReply}
    (h : Highlighted options fragments reply)
    {hit : OpenSearchHit} (hhit : hit ∈ reply.hits) :
    (" ".intercalate hit.highlight).toList = render emOpen emClose
      (options.encoder.getD .default).encode (join [' '] (fragments hit)) := by
  have hspace : (options.encoder.getD .default).encode [' '] = [' '] := by
    cases options.encoder.getD .default <;> rfl
  rw [h.rendered hit hhit]
  exact render_join _ hspace _

theorem inert_of_htmlEncoder {fields : List String} {fragments : OpenSearchHit → List (List Piece)}
    {reply : OpenSearchReply} (h : Highlighted ⟨fields, some .html⟩ fragments reply)
    {hit : OpenSearchHit} (hhit : hit ∈ reply.hits) {html : String}
    (hhtml : injectedHtml (SearchService.hitOfReply hit) = some html) :
    Inert emOpen emClose (join [' '] (fragments hit)) html.toList := by
  rw [injectedHtml_hitOfReply] at hhtml
  rw [← Option.some.inj (Option.filter_eq_some_iff.mp hhtml).1, toList_highlights h hhit]
  exact inert_render_escape

theorem injected_inert_iff {fragments : OpenSearchHit → List (List Piece)}
    {reply : OpenSearchReply} (h : Highlighted SearchService.highlightOptions fragments reply)
    {hit : OpenSearchHit} (hhit : hit ∈ reply.hits) :
    (∀ html, injectedHtml (SearchService.hitOfReply hit) = some html →
        Inert emOpen emClose (join [' '] (fragments hit)) html.toList) ↔
      ∀ piece ∈ join [' '] (fragments hit), Plain piece.text := by
  have hrender : (" ".intercalate hit.highlight).toList =
      render emOpen emClose id (join [' '] (fragments hit)) := toList_highlights h hhit
  rw [injectedHtml_hitOfReply]
  by_cases hempty : " ".intercalate hit.highlight = ""
  · -- nothing is injected, and no piece has a character
    rw [hempty] at hrender ⊢
    refine iff_of_true (fun html hhtml => ?_) fun piece hp c hc => ?_
    · cases hhtml
    · have hmem : c ∈ render emOpen emClose id (join [' '] (fragments hit)) :=
        text_subset_render hp hc
      rw [← hrender] at hmem
      exact absurd hmem List.not_mem_nil
  · have hgiven : DocumentRepository.given (some (" ".intercalate hit.highlight)) =
        some (" ".intercalate hit.highlight) :=
      Option.filter_some_pos (decide_eq_true hempty)
    rw [hgiven]
    simp only [Option.some.injEq, forall_eq', hrender]
    exact inert_render_id_iff

theorem tags_of_plain {fragments : OpenSearchHit → List (List Piece)} {reply : OpenSearchReply}
    (h : Highlighted SearchService.highlightOptions fragments reply) {hit : OpenSearchHit}
    (hhit : hit ∈ reply.hits) (hplain : ∀ piece ∈ join [' '] (fragments hit), Plain piece.text)
    {html : String} (hhtml : injectedHtml (SearchService.hitOfReply hit) = some html) :
    html.toList.count '<' = (join [' '] (fragments hit)).countP isMarked * 2 :=
  ((injected_inert_iff h hhit).mpr hplain html hhtml).count_lt

section Search

variable (P : Platform) (inp : Inputs) (context : TenantContext) (q : String) (page pageSize : ℤ)
  (classification contentType : Option String) (fragments : OpenSearchHit → List (List Piece))
  (w : World)

def searchReply : Option OpenSearchReply :=
  inp.openSearch w.searchIndex
    (SearchService.searchBody context.tenantId q page pageSize classification contentType)

/-- Whatever is injected for a hit of the search comes from OpenSearch, and has no markup
but the tags of the marks; every markup character of the fragments is escaped. -/
def HighlightsInert : Prop :=
  ∀ response v, (searchDocuments P inp context q page pageSize classification contentType).run w =
      .ok response v → ∀ shown ∈ response.results, ∀ html, injectedHtml shown = some html →
    ∃ reply, searchReply inp context q page pageSize classification contentType w = some reply ∧
      ∀ hit ∈ reply.hits, SearchService.hitOfReply hit = shown →
        Inert emOpen emClose (join [' '] (fragments hit)) html.toList

section Results

variable {P inp context q page pageSize classification contentType w}

theorem searchAnswer_of_reply {reply : OpenSearchReply}
    (hreply : searchReply inp context q page pageSize classification contentType w = some reply) :
    ∃ answer, searchAnswer P context.tenantId q page pageSize classification contentType inp w =
      some answer ∧ answer.results = reply.hits.map SearchService.hitOfReply := by
  unfold searchReply at hreply
  simp only [searchAnswer, hreply]
  exact ⟨_, rfl, rfl⟩

theorem injectedHtml_fallback
    (hreply : searchReply inp context q page pageSize classification contentType w = none)
    {answer : SearchResponse} (hanswer : searchAnswer P context.tenantId q page pageSize
      classification contentType inp w = some answer) :
    ∀ shown ∈ answer.results, injectedHtml shown = none := by
  unfold searchReply at hreply
  simp only [searchAnswer, hreply, Option.ite_none_right_eq_some, Option.some.injEq] at hanswer
  obtain ⟨-, rfl⟩ := hanswer
  intro shown hshown
  obtain ⟨record, -, rfl⟩ := List.mem_map.mp hshown
  rfl

end Results

variable {P inp context q page pageSize classification contentType fragments w} in
theorem HighlightsInert.hit
    (h : HighlightsInert P inp context q page pageSize classification contentType fragments w)
    (hpage : ValidPage page pageSize) {reply : OpenSearchReply}
    (hreply : searchReply inp context q page pageSize classification contentType w = some reply)
    {hit : OpenSearchHit} (hhit : hit ∈ reply.hits) :
    ∀ html, injectedHtml (SearchService.hitOfReply hit) = some html →
      Inert emOpen emClose (join [' '] (fragments hit)) html.toList := by
  intro html hhtml
  obtain ⟨answer, hanswer, hresults⟩ := searchAnswer_of_reply (P := P) hreply
  have hrun := run_searchDocuments_eq_ok.mpr ⟨hpage, hanswer, rfl⟩
  have hshown : SearchService.hitOfReply hit ∈ answer.results := by
    rw [hresults]
    exact List.mem_map_of_mem hhit
  obtain ⟨reply', hreply', hinert⟩ := h _ _ hrun _ hshown html hhtml
  rw [hreply] at hreply'
  cases hreply'
  exact hinert hit hhit rfl

/-- Where OpenSearch highlights without an encoder, what the table injects is inert exactly
if no fragment of a hit has markup. -/
theorem highlights_inert_iff (hopensearch : ∀ reply,
    searchReply inp context q page pageSize classification contentType w = some reply →
      Highlighted SearchService.highlightOptions fragments reply) :
    HighlightsInert P inp context q page pageSize classification contentType fragments w ↔
      (ValidPage page pageSize → ∀ reply,
        searchReply inp context q page pageSize classification contentType w = some reply →
          ∀ hit ∈ reply.hits, ∀ fragment ∈ fragments hit, ∀ piece ∈ fragment, Plain piece.text) := by
  have hspace : Plain [' '] := by decide
  constructor
  · intro h hpage reply hreply hit hhit
    rw [← forall_mem_join hspace, ← injected_inert_iff (hopensearch reply hreply) hhit]
    exact h.hit hpage hreply hhit
  · intro h response v hrun shown hshown html hhtml
    obtain ⟨hpage, hanswer, -⟩ := run_searchDocuments_eq_ok.mp hrun
    cases hreply : searchReply inp context q page pageSize classification contentType w with
    | none =>
      rw [injectedHtml_fallback hreply hanswer shown hshown] at hhtml
      cases hhtml
    | some reply =>
      refine ⟨reply, rfl, fun hit hhit heq => ?_⟩
      subst heq
      have hplain := (forall_mem_join hspace).mpr (h hpage reply hreply hit hhit)
      exact (injected_inert_iff (hopensearch reply hreply) hhit).mpr hplain html hhtml

end Search

/-! ## A document called like an image -/

/-- The last four characters are the match. -/
def lastWord (filename : String) : List (List Piece) :=
  [[.plain (filename.toList.take (filename.length - 4)),
    .marked (filename.toList.drop (filename.length - 4))]]

/-- An index that finds every document of the tenant. -/
noncomputable def markingEngine : SearchEngine where
  tokens value := [value]
  fullText _ _ _ := true
  rank _ := default
  score _ _ := some 1
  highlight _ entry := (lastWord entry.filename).map SearchService.highlightOptions.fragment
  readDateTime _ := exampleTime

noncomputable def markingInputs : Inputs :=
  { exampleInputs 1 with indexReachable := true, openSearch := markingEngine.answer }

theorem highlighted_markingInputs {w : World} {reply : OpenSearchReply}
    (h : searchReply markingInputs exampleContext "plan" 1 20 none none w = some reply) :
    Highlighted SearchService.highlightOptions (fun hit => lastWord hit.filename) reply := by
  cases h
  constructor
  · intro hit hhit
    obtain ⟨entry, -, rfl⟩ := List.mem_map.mp hhit
    rfl
  · intro hit _ fragment hfragment
    rw [List.mem_singleton.mp hfragment]
    simp [Piece.text]

/-- The state after a document of this name was ingested. -/
noncomputable def ingestedAs (filename : String) : World :=
  final ((ingestDocument examplePlatform markingInputs exampleHeaders exampleContext
    (exampleIngest "env" filename .internal [])).run World.empty)

theorem searchReply_of_index {filename : String} {w : World}
    (hindex : w.searchIndex.rows = [SearchService.searchDocument
      (newRecord markingInputs (exampleIngest "env" filename .internal []))]) :
    ∃ hit total, hit.filename = filename ∧
      searchReply markingInputs exampleContext "plan" 1 20 none none w = some ⟨[hit], total⟩ := by
  set entry := SearchService.searchDocument
    (newRecord markingInputs (exampleIngest "env" filename .internal []))
  set body := SearchService.searchBody "env" "plan" 1 20 none none
  have hfound : [entry].filter (markingEngine.isMatch body) = [entry] := rfl
  have hread : (markingEngine.rank body.must).read [entry] = [entry] :=
    List.perm_singleton.mp ((markingEngine.rank body.must).perm _)
  refine ⟨markingEngine.hit body.must entry, 1, rfl, ?_⟩
  change markingEngine.answer _ body = _
  simp only [SearchEngine.answer, hindex]
  rw [hfound, hread]
  rfl

def imageName : String := "<img src=x onerror=alert(1)> plan"

theorem searchIndex_imageName : (ingestedAs imageName).searchIndex.rows =
    [SearchService.searchDocument (newRecord markingInputs
      (exampleIngest "env" imageName .internal []))] := by
  rfl

theorem searchIndex_plan : (ingestedAs "site plan").searchIndex.rows =
    [SearchService.searchDocument (newRecord markingInputs
      (exampleIngest "env" "site plan" .internal []))] := by
  rfl

/-- A plain name is highlighted without markup of its own. -/
theorem highlights_inert_plan :
    HighlightsInert examplePlatform markingInputs exampleContext "plan" 1 20 none none
      (fun hit => lastWord hit.filename) (ingestedAs "site plan") := by
  refine (highlights_inert_iff _ _ _ _ _ _ _ _ _ _ fun _ => highlighted_markingInputs).mpr ?_
  intro _ reply hreply hit hhit
  obtain ⟨found, total, hname, hfound⟩ := searchReply_of_index searchIndex_plan
  rw [hfound] at hreply
  cases hreply
  rw [List.mem_singleton.mp hhit, hname]
  decide +kernel

/-- The name of an ingested document becomes an image in the pages of those who search. -/
theorem image_in_highlight :
    ¬HighlightsInert examplePlatform markingInputs exampleContext "plan" 1 20 none none
      (fun hit => lastWord hit.filename) (ingestedAs imageName) := by
  intro h
  obtain ⟨found, total, hname, hfound⟩ := searchReply_of_index searchIndex_imageName
  have hpage : ValidPage 1 20 := ⟨by decide, by decide, by decide⟩
  have hplain := (injected_inert_iff (highlighted_markingInputs hfound) List.mem_cons_self).mp
    (h.hit hpage hfound List.mem_cons_self)
  rw [hname] at hplain
  exact absurd hplain (by decide +kernel)

end GoAnalyze
