import GoAnalyze.Proofs.Downloads
import GoAnalyze.Proofs.SearchFilter

/-! The documents table and the search index over whole runs of the API, with
OpenSearch reachable in any of the requests: what a search counts. -/

namespace GoAnalyze

open Sql Frames Runs

/-! ## What requests do to documents and index -/

structure SameListing (w w' : World) : Prop where
  documents : w'.documents = w.documents
  searchIndex : w'.searchIndex = w.searchIndex

instance : Std.Refl SameListing := ⟨fun _ => ⟨rfl, rfl⟩⟩

instance : IsTrans World SameListing :=
  ⟨fun _ _ _ h h' => ⟨h'.documents.trans h.documents, h'.searchIndex.trans h.searchIndex⟩⟩

instance : IgnoresRecords SameListing where
  audit _ _ := ⟨rfl, rfl⟩
  assignments _ _ := ⟨rfl, rfl⟩

theorem frame_upload {P : Platform} {inp : Inputs} {headers : Headers} {context : TenantContext}
    (d : UUID) (body : Bytes) :
    Frame SameListing (uploadDocumentContent P inp headers context d body) := by
  refine (frame_fetchAllowed _ d).bind fun record => (frame_raiseIf _ _).bind fun _ =>
    (frame_raiseIf _ _).bind fun _ => (frame_raiseIf _ _).bind fun _ => Frame.bind ?_ fun _ =>
      (frame_append _).bind fun _ => Frame.pure _
  intro w
  rw [run_objectPut]
  cases getObjectStorage P inp <;> exact ⟨rfl, rfl⟩

namespace Exchange

variable (x : Exchange)

/-- The record that an ingest builds. -/
def record : Option DocumentRecord :=
  match x.request with
  | .ingestDocument payload => some (newRecord x.inp payload)
  | _ => none

/-- An ingest answered with its record. -/
def acknowledged : Bool :=
  match x.request, x.answer with
  | .ingestDocument _, .ok _ => true
  | _, _ => false

end Exchange

/-- One request leaves both alone and acknowledges no ingest; or it is an ingest that
adds its row, and its entry where OpenSearch is reachable. -/
inductive ListingEffect (P : Platform) (w : World) (x : Exchange) (w' : World) : Prop where
  | unchanged (listing : SameListing w w') (answer : x.acknowledged = false)
  | ingested (record : DocumentRecord) (request : x.record = some record)
      (documents : w.documents.insert (DocumentRepository.toOrm P.dialect record) =
        some w'.documents)
      (searchIndex : w'.searchIndex = if x.inp.indexReachable then
        w.searchIndex.upsert (SearchService.searchDocument record) else w.searchIndex)

section Steps

variable {P : Platform} {w w' : World} {x : Exchange} {inp : Inputs} {headers : Headers}
  {context : TenantContext} {answer : Except HTTPException ApiResponse}

theorem sameListing_of_ingested {payload : DocumentIngestRequest}
    (h : Serves P w ⟨inp, headers, context, .ingestDocument payload, answer⟩ w')
    (hallowed : (evaluateAbac context "document:ingest" payload.tenantId
      payload.classification headers.purpose).allowed)
    {documents : Table DocumentORM.id}
    (hins : w.documents.insertChecked (DocumentORM.fits P.dialect)
      (DocumentRepository.toOrm P.dialect (newRecord inp payload)) = some documents) :
    SameListing { w with
      documents := documents, searchIndex := w.indexWith inp (newRecord inp payload) } w' := by
  have hrun : (handle P inp headers context (.ingestDocument payload)).run w =
    resultOf answer w' := h
  rw [handle, EStateM.run_bind, run_ingestDocument hallowed hins] at hrun
  have happend := frame_append (R := SameListing) (P := P)
    (ingestedEvent inp headers context (newRecord inp payload)) { w with
      documents := documents, searchIndex := w.indexWith inp (newRecord inp payload) }
  cases hresult : (AuditLog.append P
      (ingestedEvent inp headers context (newRecord inp payload))).run { w with
        documents := documents, searchIndex := w.indexWith inp (newRecord inp payload) } with
  | ok a v =>
    rw [hresult] at hrun happend
    rwa [(resultOf_eq_ok.mp hrun.symm).2]
  | error e v =>
    rw [hresult] at hrun happend
    rwa [(resultOf_eq_error.mp hrun.symm).2]

theorem listingEffect_of_ingest {payload : DocumentIngestRequest}
    (h : Serves P w ⟨inp, headers, context, .ingestDocument payload, answer⟩ w') :
    ListingEffect P w ⟨inp, headers, context, .ingestDocument payload, answer⟩ w' := by
  by_cases hstored : (evaluateAbac context "document:ingest" payload.tenantId
      payload.classification headers.purpose).allowed ∧
      ∃ documents, w.documents.insertChecked (DocumentORM.fits P.dialect)
        (DocumentRepository.toOrm P.dialect (newRecord inp payload)) = some documents
  · obtain ⟨hallowed, documents, hins⟩ := hstored
    have hlisting := sameListing_of_ingested h hallowed hins
    refine .ingested (newRecord inp payload) rfl ?_ hlisting.searchIndex
    rw [hlisting.documents]
    exact (Table.insertChecked_eq_some_iff.mp hins).2
  · obtain ⟨e, herror⟩ : ∃ e, (ingestDocument P inp headers context payload).run w =
        .error e w := by
      refine run_ingestDocument_refused ?_
      rw [Option.eq_none_iff_forall_ne_some, ← not_exists]
      exact not_and_or.mp hstored
    have hrun : (handle P inp headers context (.ingestDocument payload)).run w =
      resultOf answer w' := h
    rw [handle, EStateM.run_bind, herror] at hrun
    obtain ⟨rfl, rfl⟩ := resultOf_eq_error.mp hrun.symm
    exact .unchanged (Std.Refl.refl _) rfl

theorem serves_listingEffect (h : Serves P w x w') : ListingEffect P w x w' := by
  obtain ⟨inp, headers, context, request, answer⟩ := x
  by_cases hingest : ∃ payload, request = .ingestDocument payload
  · obtain ⟨payload, rfl⟩ := hingest
    exact listingEffect_of_ingest h
  · have hframe : Frame SameListing (handle P inp headers context request) := by
      by_cases hupload : ∃ d body, request = .uploadDocumentContent d body
      · obtain ⟨d, body, rfl⟩ := hupload
        exact (frame_upload d body).bind fun _ => Frame.pure _
      · exact frame_handle P inp headers context (fun payload h => hingest ⟨payload, h⟩)
          fun d body h => hupload ⟨d, body, h⟩
    have hlisting := hframe w
    rw [show (handle P inp headers context request).run w = resultOf answer w' from h,
      final_resultOf] at hlisting
    refine .unchanged hlisting ?_
    unfold Exchange.acknowledged
    cases request with
    | ingestDocument payload => exact absurd ⟨payload, rfl⟩ hingest
    | _ => rfl

end Steps

/-! ## Whole runs -/

namespace Exchange

variable (P : Platform) (x : Exchange)

/-- The row of an ingest, and its entry in the index. -/
def row : Option DocumentORM := x.record.map (DocumentRepository.toOrm P.dialect)

def entry : Option SearchDocument := x.record.map SearchService.searchDocument

end Exchange

/-- These ingests of a run made the tables what they are: one row for each, and one
entry for each that reached OpenSearch. All acknowledged ones are among them. -/
structure MadeBy (P : Platform) (xs : List Exchange) (w : World) (made : List Exchange) : Prop where
  sublist : made.Sublist xs
  acknowledged : (xs.filter Exchange.acknowledged).Sublist made
  ingests : ∀ x ∈ made, x.record.isSome
  documents : w.documents.rows = made.filterMap (Exchange.row P)
  searchIndex : w.searchIndex.rows =
    (made.filter fun x => x.inp.indexReachable).filterMap Exchange.entry

section Made

variable {P : Platform} {xs made : List Exchange} {w : World}

theorem MadeBy.index_ids (h : MadeBy P xs w made) {d : UUID}
    (hd : d ∈ w.searchIndex.rows.map SearchDocument.id) : d ∈ w.documents.rows.map DocumentORM.id := by
  rw [h.searchIndex] at hd
  rw [h.documents]
  obtain ⟨entry, hentry, rfl⟩ := List.mem_map.mp hd
  obtain ⟨x, hx, hxentry⟩ := List.mem_filterMap.mp hentry
  obtain ⟨record, hrecord, rfl⟩ := Option.map_eq_some_iff.mp hxentry
  refine List.mem_map.mpr ⟨DocumentRepository.toOrm P.dialect record, ?_, rfl⟩
  refine List.mem_filterMap.mpr ⟨x, List.mem_of_mem_filter hx, ?_⟩
  rw [Exchange.row, hrecord, Option.map_some]

theorem run_madeBy (h : Run (Serves P) World.empty xs w) : ∃ made, MadeBy P xs w made := by
  refine h.history (I := fun xs w => ∃ made, MadeBy P xs w made) ?_ ?_
  · exact ⟨[], List.Sublist.refl _, List.Sublist.refl _, List.forall_mem_nil _, rfl, rfl⟩
  · rintro xs w x w' ⟨made, hmade⟩ hserves
    rcases serves_listingEffect hserves with ⟨hlisting, hanswer⟩ | ⟨record, hrecord, hins, hindex⟩
    · refine ⟨made, ?_, ?_, hmade.ingests, ?_, ?_⟩
      · exact hmade.sublist.trans (List.sublist_append_left _ _)
      · rw [List.filter_append, List.filter_cons_of_neg (by simp [hanswer]), List.filter_nil,
          List.append_nil]
        exact hmade.acknowledged
      · rw [hlisting.documents, hmade.documents]
      · rw [hlisting.searchIndex, hmade.searchIndex]
    · obtain ⟨hfresh, hrows⟩ := Table.insert_eq_some_iff.mp hins
      refine ⟨made ++ [x], ?_, ?_, ?_, ?_, ?_⟩
      · exact hmade.sublist.append (List.Sublist.refl _)
      · rw [List.filter_append]
        exact hmade.acknowledged.append List.filter_sublist
      · intro y hy
        rcases List.mem_append.mp hy with hy | hy
        · exact hmade.ingests y hy
        · rw [List.mem_singleton.mp hy, hrecord]
          rfl
      · rw [hrows, hmade.documents, List.filterMap_append]
        simp [Exchange.row, hrecord]
      · rw [hindex, List.filter_append, List.filterMap_append, ← hmade.searchIndex]
        have hnew : (SearchService.searchDocument record).id ∉
            w.searchIndex.rows.map SearchDocument.id := fun hmem => hfresh (hmade.index_ids hmem)
        by_cases hreach : x.inp.indexReachable
        · rw [if_pos hreach, Table.rows_upsert hnew]
          simp [hreach, Exchange.entry, hrecord]
        · simp [hreach]

end Made

def Exchange.ofTenant (tenantId : String) (x : Exchange) : Bool :=
  x.record.any fun record => record.tenantId = tenantId

/-! ## Totals -/

section Totals

variable {P : Platform} {xs made : List Exchange} {w : World} {tenantId : String}

theorem MadeBy.total_rows (h : MadeBy P xs w made) :
    (w.documents.rows.filter (DocumentRepository.conditions P tenantId "" none none)).length =
      (made.filter (Exchange.ofTenant tenantId)).length := by
  rw [h.documents, ← List.countP_eq_length_filter, List.countP_filterMap,
    List.countP_eq_length_filter]
  congr 1
  refine List.filter_congr fun x _ => ?_
  rw [Exchange.row, Exchange.ofTenant]
  cases x.record with
  | none => rfl
  | some record =>
    simp [DocumentRepository.conditions, DocumentRepository.given, DocumentRepository.toOrm]

theorem MadeBy.total_entries (h : MadeBy P xs w made) (E : SearchEngine) (page pageSize : ℤ) :
    (w.searchIndex.rows.filter (E.wholeFields.isMatch
      (SearchService.searchBody tenantId "" page pageSize none none))).length =
      (made.filter fun x => x.ofTenant tenantId && x.inp.indexReachable).length := by
  rw [h.searchIndex, ← List.countP_eq_length_filter, List.countP_filterMap,
    List.countP_eq_length_filter, List.filter_filter]
  congr 1
  refine List.filter_congr fun x _ => ?_
  congr 1
  rw [Exchange.entry, Exchange.ofTenant]
  cases x.record with
  | none => rfl
  | some record =>
    rw [Bool.eq_iff_iff]
    simp only [Option.map_some, Option.getD_some, Option.any_some, decide_eq_true_eq,
      isMatch_empty_iff]
    exact List.mem_singleton.trans eq_comm

/-- Searches without text and filters by a tenant, after any run of the API: if the
database answers, the total is the number of the tenant's ingests that made a document;
if OpenSearch does, of those among them that reached it, as far as OpenSearch counts. -/
theorem search_total (hrun : Run (Serves P) World.empty xs w) (E : SearchEngine)
    (tenantId : String) :
    ∃ made, MadeBy P xs w made ∧ ∀ (inp : Inputs) (page pageSize : ℤ) (response : SearchResponse),
      (∀ index body, inp.openSearch index body = none ∨
        inp.openSearch index body = E.wholeFields.answer index body) →
      (SearchService.search P inp tenantId "" page pageSize none none).run w = .ok response w →
      (response.backend = "database_fallback" ∧
        response.total = (made.filter (Exchange.ofTenant tenantId)).length) ∨
      (response.backend = "opensearch" ∧ response.total =
        min (made.filter fun x => x.ofTenant tenantId && x.inp.indexReachable).length
          SearchEngine.countedHits) := by
  obtain ⟨made, hmade⟩ := run_madeBy hrun
  refine ⟨made, hmade, fun inp page pageSize response hengine hsearch => ?_⟩
  have hopen := hengine w.searchIndex (SearchService.searchBody tenantId "" (max page 1)
    (min (max pageSize 1) 100) none none)
  rcases searchAnswer_eq_some.mp (run_searchService_eq_ok.mp hsearch).1 with
    ⟨reply, hreply, rfl⟩ | ⟨-, -, rfl⟩
  · right
    have hanswer := hreply.symm.trans (hopen.resolve_left (by simp [hreply]))
    rw [SearchEngine.answer, Option.some.injEq] at hanswer
    subst hanswer
    exact ⟨rfl, congrArg (min · SearchEngine.countedHits) (hmade.total_entries E _ _)⟩
  · left
    exact ⟨rfl, hmade.total_rows⟩

end Totals

/-- A second ingest of the tenant, which reaches OpenSearch as the first did not. -/
def exampleIndexed : Exchange :=
  let inp := { exampleInputs 2 with documentId := 9, indexReachable := true }
  ⟨inp, exampleHeaders, exampleContext, .ingestDocument examplePayload,
    .ok (.record (newRecord inp examplePayload))⟩

noncomputable def exampleListing : World := exampleIndexed.after (exampleIngested.after World.empty)

theorem exampleListing_run :
    Run (Serves examplePlatform) World.empty [exampleIngested, exampleIndexed] exampleListing :=
  exampleIngested_run.snoc rfl

/-- Both ingests are acknowledged, and OpenSearch counts one document. -/
theorem index_misses_document :
    Run (Serves examplePlatform) World.empty [exampleIngested, exampleIndexed] exampleListing ∧
    (∀ x ∈ [exampleIngested, exampleIndexed], x.acknowledged ∧ x.ofTenant "env") ∧
    ∃ response, (SearchService.search examplePlatform
        { exampleInputs 3 with openSearch := exampleEngine.wholeFields.answer } "env" "" 1 20 none
        none).run exampleListing = .ok response exampleListing ∧
      response.backend = "opensearch" ∧ response.total = 1 := by
  refine ⟨exampleListing_run, ?_, _, rfl, rfl, ?_⟩
  · intro x hx
    rcases List.mem_pair.mp hx with rfl | rfl
    · exact ⟨rfl, rfl⟩
    · exact ⟨rfl, rfl⟩
  · rfl

theorem search_total_listing :
    ∃ made, MadeBy examplePlatform [exampleIngested, exampleIndexed] exampleListing made ∧
      ∀ (inp : Inputs) (page pageSize : ℤ) (response : SearchResponse),
      (∀ index body, inp.openSearch index body = none ∨
        inp.openSearch index body = exampleEngine.wholeFields.answer index body) →
      (SearchService.search examplePlatform inp "env" "" page pageSize none none).run
        exampleListing = .ok response exampleListing →
      (response.backend = "database_fallback" ∧
        response.total = (made.filter (Exchange.ofTenant "env")).length) ∨
      (response.backend = "opensearch" ∧ response.total =
        min (made.filter fun x => x.ofTenant "env" && x.inp.indexReachable).length
          SearchEngine.countedHits) :=
  search_total exampleListing_run exampleEngine "env"

end GoAnalyze
