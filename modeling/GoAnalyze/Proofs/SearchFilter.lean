import GoAnalyze.Proofs.Programs
import GoAnalyze.Spec.OpenSearch

/-! The tenant filter of the search path through OpenSearch, over analyzed fields. -/

namespace GoAnalyze

open Sql TextIndex

section Filter

variable (P : Platform) (inp : Inputs) (E : SearchEngine) (w : World) (tenantId : String)

/-- The response that `search` builds from the reply of OpenSearch. -/
def searchThrough (query : String) (page pageSize : ℤ) (classification contentType : Option String) :
    EStateM.Result HTTPException World SearchResponse :=
  (SearchService.search P { inp with openSearch := E.answer } tenantId query page pageSize
    classification contentType).run w

def OnlyOwn : Prop :=
  ∀ query page pageSize classification contentType response,
    searchThrough P inp E w tenantId query page pageSize classification contentType =
      .ok response w →
    ∀ hit ∈ response.results, ∃ entry ∈ w.searchIndex.rows,
      entry.id = hit.documentId ∧ entry.tenantId = tenantId

/-- Every document of the tenant matches the query without text and filters. -/
def AllOwn : Prop :=
  ∀ page pageSize, ∀ entry ∈ w.searchIndex.rows, entry.tenantId = tenantId →
    E.isMatch (SearchService.searchBody tenantId "" page pageSize none none) entry

variable {P inp E w tenantId}

theorem isMatch_empty_iff {page pageSize : ℤ} {entry : SearchDocument} :
    E.isMatch (SearchService.searchBody tenantId "" page pageSize none none) entry ↔
      tenantId ∈ E.tokens entry.tenantId := by
  have hbody : (SearchService.searchBody tenantId "" page pageSize none none).must =
      [.term "tenant_id" tenantId] := rfl
  rw [SearchEngine.isMatch, SearchBody.selects, hbody]
  simp [SearchDocument.fieldValue]

theorem mem_tokens_of_isMatch {query : String} {page pageSize : ℤ}
    {classification contentType : Option String} {entry : SearchDocument}
    (h : E.isMatch (SearchService.searchBody tenantId query page pageSize classification contentType)
      entry) : tenantId ∈ E.tokens entry.tenantId := by
  have hselects := (Bool.and_eq_true_iff.mp h).1
  have hterm := List.all_eq_true.mp hselects (.term "tenant_id" tenantId) List.mem_cons_self
  simpa [SearchDocument.fieldValue] using hterm

variable (P inp E w tenantId) in
theorem results_searchThrough (query : String) (page pageSize : ℤ)
    (classification contentType : Option String) :
    let body := SearchService.searchBody tenantId query (max page 1) (min (max pageSize 1) 100)
      classification contentType
    ∃ response, searchThrough P inp E w tenantId query page pageSize classification contentType =
        .ok response w ∧
      response.results = ((slice body.«from».toNat body.size.toNat
        ((E.rank body.must).read (w.searchIndex.rows.filter (E.isMatch body)))).map
          (E.hit body.must)).map SearchService.hitOfReply :=
  ⟨_, rfl, rfl⟩

theorem exists_page {rows : List SearchDocument} {entry : SearchDocument} (h : entry ∈ rows) :
    ∃ page : ℤ, entry ∈ slice ((max page 1 - 1) * min (max 1 1) 100).toNat
      (min (max 1 1) 100 : ℤ).toNat rows := by
  obtain ⟨k, hk, hentry⟩ := List.mem_iff_getElem.mp h
  refine ⟨k + 1, ?_⟩
  have hfrom : ((max ((k : ℤ) + 1) 1 - 1) * min (max 1 1) 100).toNat = k := by
    rw [show min (max (1 : ℤ) 1) 100 = 1 by decide, mul_one]
    omega
  rw [hfrom, slice, List.drop_eq_getElem_cons hk, hentry]
  exact List.mem_cons_self

theorem onlyOwn_iff : OnlyOwn P inp E w tenantId ↔
    ∀ entry ∈ w.searchIndex.rows, entry.tenantId ≠ tenantId →
      tenantId ∉ E.tokens entry.tenantId := by
  constructor
  · intro h entry hentry hne htoken
    have hfound : entry ∈ (E.rank [.term "tenant_id" tenantId]).read (w.searchIndex.rows.filter
        (E.isMatch (SearchService.searchBody tenantId "" 1 1 none none))) :=
      ((E.rank _).perm _).mem_iff.mpr
        (List.mem_filter.mpr ⟨hentry, isMatch_empty_iff.mpr htoken⟩)
    obtain ⟨page, hshown⟩ := exists_page hfound
    obtain ⟨response, hrun, hresults⟩ := results_searchThrough P inp E w tenantId "" page 1 none
      none
    have hhit : SearchService.hitOfReply (E.hit [.term "tenant_id" tenantId] entry) ∈
        response.results := by
      rw [hresults]
      exact List.mem_map_of_mem (List.mem_map_of_mem hshown)
    obtain ⟨entry', hentry', hid, ht⟩ := h _ _ _ _ _ _ hrun _ hhit
    obtain rfl := List.inj_on_of_nodup_map w.searchIndex.nodup hentry' hentry hid
    exact hne ht
  · intro h query page pageSize classification contentType response hrun hit hhit
    obtain ⟨response', hrun', hresults⟩ := results_searchThrough P inp E w tenantId query page
      pageSize classification contentType
    cases hrun.symm.trans hrun'
    rw [hresults] at hhit
    obtain ⟨reply, hreply, rfl⟩ := List.mem_map.mp hhit
    obtain ⟨entry, hentry, rfl⟩ := List.mem_map.mp hreply
    have hfound := ((E.rank _).perm _).mem_iff.mp (List.mem_of_mem_drop (List.mem_of_mem_take hentry))
    obtain ⟨hmem, hmatch⟩ := List.mem_filter.mp hfound
    refine ⟨entry, hmem, rfl, ?_⟩
    by_contra hne
    exact h entry hmem hne (mem_tokens_of_isMatch hmatch)

theorem allOwn_iff : AllOwn E w tenantId ↔
    ∀ entry ∈ w.searchIndex.rows, entry.tenantId = tenantId → tenantId ∈ E.tokens tenantId := by
  constructor
  · intro h entry hentry ht
    have htoken := isMatch_empty_iff.mp (h 1 1 entry hentry ht)
    rwa [ht] at htoken
  · intro h page pageSize entry hentry ht
    rw [isMatch_empty_iff, ht]
    exact h entry hentry ht

variable (P inp E w tenantId) in
/-- Over analyzed fields the filter selects the documents of the tenant, all and only,
exactly where no other tenant's id has this one among its words, and this one is a
single word in lower case or has no document. -/
theorem tenant_filter_iff (A : Analyzer) :
    OnlyOwn P inp (E.analyzed A) w tenantId ∧ AllOwn (E.analyzed A) w tenantId ↔
      (∀ entry ∈ w.searchIndex.rows, entry.tenantId ≠ tenantId →
        tenantId ∉ A.tokens entry.tenantId) ∧
      ((∃ entry ∈ w.searchIndex.rows, entry.tenantId = tenantId) → A.IsWord tenantId) := by
  have hself : tenantId ∈ (E.analyzed A).tokens tenantId ↔ A.IsWord tenantId := A.mem_tokens_self
  rw [onlyOwn_iff, allOwn_iff, hself]
  refine and_congr_right fun _ => ⟨?_, ?_⟩
  · rintro h ⟨entry, hentry, ht⟩
    exact h entry hentry ht
  · exact fun h entry hentry ht => h ⟨entry, hentry, ht⟩

end Filter

noncomputable def exampleEngine : SearchEngine where
  tokens := Analyzer.ascii.tokens
  fullText := fun _ _ _ => true
  rank := fun _ => default
  score := fun _ _ => some 1
  highlight := fun _ _ => []
  readDateTime := fun _ => exampleTime

/-- An index with a document of another tenant, whose id ends in the word of ours. -/
def exampleForeign : World :=
  { World.empty with
    searchIndex := ⟨[SearchService.searchDocument (newRecord (exampleInputs 1)
      (exampleIngest "ministry-env" "plan.pdf" .internal []))], List.nodup_singleton _⟩ }

/-- A caller of tenant `env` is shown the document of tenant `ministry-env`. -/
theorem foreign_document_found :
    ¬ (OnlyOwn examplePlatform (exampleInputs 1) (exampleEngine.analyzed .ascii)
        exampleForeign "env" ∧
      AllOwn (exampleEngine.analyzed .ascii) exampleForeign "env") := by
  rintro ⟨honly, -⟩
  have htoken := onlyOwn_iff.mp honly _ List.mem_cons_self (by decide)
  exact htoken (by decide)

end GoAnalyze
