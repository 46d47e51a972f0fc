import GoAnalyze.Proofs.Programs

/-! Tenant isolation as a property of two runs: what an endpoint answers a caller
of tenant `t` depends on the rows and objects of `t` alone. -/

namespace GoAnalyze

open Sql AuditRepository TwoRuns

/-- Two states that agree on the rows of tenant `t`. The rows of a table are a set,
so that their order may differ. -/
structure AgreeRows (t : String) (w w' : World) : Prop where
  documents : (w.documents.rows.filter fun orm => orm.tenantId = t).Perm
    (w'.documents.rows.filter fun orm => orm.tenantId = t)
  events : (forTenant t w.audit.events.rows).Perm (forTenant t w'.audit.events.rows)
  chainState : w.audit.chainState t = w'.audit.chainState t

theorem AgreeRows.symm {t : String} {w w' : World} (h : AgreeRows t w w') : AgreeRows t w' w :=
  ⟨h.documents.symm, h.events.symm, h.chainState.symm⟩

/-- Two states that agree on the rows and the stored objects of tenant `t`. -/
structure AgreeOn (t : String) (w w' : World) : Prop extends AgreeRows t w w' where
  objects : ∀ backend documentId,
    w.store backend (storageKey t documentId) = w'.store backend (storageKey t documentId)

def AgreeFresh (t : String) (inp : Inputs) (w w' : World) : Prop :=
  AgreeOn t w w' ∧ Fresh inp w ∧ Fresh inp w'

/-! ## Documents -/

/-- No record, or one of another tenant. -/
def Foreign (t : String) (record : Option DocumentRecord) : Prop :=
  ∀ r, record = some r → r.tenantId ≠ t

theorem mem_documents_iff {t : String} {w w' : World} (h : AgreeRows t w w') {orm : DocumentORM}
    (ht : orm.tenantId = t) : orm ∈ w.documents.rows ↔ orm ∈ w'.documents.rows := by
  have hmem := h.documents.mem_iff (a := orm)
  simpa [List.mem_filter, ht] using hmem

theorem find_of_tenant {t : String} {w w' : World} (h : AgreeRows t w w') {documentId : UUID}
    {record : DocumentRecord} (hfind : DocumentRepository.find w documentId = some record)
    (ht : record.tenantId = t) : DocumentRepository.find w' documentId = some record := by
  obtain ⟨orm, hget, rfl⟩ := Option.map_eq_some_iff.mp hfind
  obtain ⟨hmem, hid⟩ := Table.get_eq_some_iff.mp hget
  exact Option.map_eq_some_iff.mpr
    ⟨orm, Table.get_eq_some_iff.mpr ⟨(mem_documents_iff h ht).mp hmem, hid⟩, rfl⟩

theorem find_agree {t : String} {w w' : World} (h : AgreeRows t w w') (documentId : UUID) :
    DocumentRepository.find w documentId = DocumentRepository.find w' documentId ∨
      (Foreign t (DocumentRepository.find w documentId) ∧
        Foreign t (DocumentRepository.find w' documentId)) := by
  by_cases hown : Foreign t (DocumentRepository.find w documentId) ∧
      Foreign t (DocumentRepository.find w' documentId)
  · exact Or.inr hown
  · left
    rw [not_and_or] at hown
    simp only [Foreign, not_forall, not_not] at hown
    rcases hown with ⟨r, hr, ht⟩ | ⟨r, hr, ht⟩
    · rw [hr, find_of_tenant h hr ht]
    · rw [hr, find_of_tenant h.symm hr ht]

/-- Two lookups that agree on the records of `t`. -/
def DocumentsAgree (t : String) (documents documents' : UUID → Option DocumentRecord) : Prop :=
  ∀ documentId, documents documentId = documents' documentId ∨
    (Foreign t (documents documentId) ∧ Foreign t (documents' documentId))

theorem rel_getMany {t : String} {inp : Inputs} (documentIds : List UUID) :
    Rel (AgreeFresh t inp) (DocumentRepository.getMany documentIds)
      (DocumentRepository.getMany documentIds)
      fun documents documents' w w' => DocumentsAgree t documents documents' ∧
        AgreeFresh t inp w w' := by
  refine fun w w' h => ⟨fun documentId => ?_, h⟩
  by_cases hmem : documentId ∈ documentIds
  · simpa [hmem] using find_agree h.1.toAgreeRows documentId
  · simp [hmem]

section Caller

variable {P : Platform} {inp : Inputs} {headers : Headers} {context : TenantContext}
  (hadmin : "platform-admin" ∉ context.roles)

include hadmin

theorem fetchAllowed_foreign (headers : Headers) (action : String) {w : World} {documentId : UUID}
    (h : Foreign context.tenantId (DocumentRepository.find w documentId)) :
    ∃ e v, (fetchAllowed headers context action documentId).run w = .error e v := by
  simp only [fetchAllowed, EStateM.run_bind, run_documentGet]
  cases hfind : DocumentRepository.find w documentId with
  | none => exact ⟨_, _, rfl⟩
  | some record =>
    have hdenied : (evaluateAbac context action record.tenantId record.classification
        headers.purpose).allowed = false := by
      rw [Bool.eq_false_iff]
      exact fun hallowed => h record hfind (tenantId_of_allowed hadmin hallowed).symm
    simp only [EStateM.run_bind, run_requireAllowed, hdenied]
    exact ⟨_, _, rfl⟩

theorem rel_fetchAllowed (action : String) (documentId : UUID) :
    Rel (AgreeFresh context.tenantId inp) (fetchAllowed headers context action documentId)
      (fetchAllowed headers context action documentId)
      fun r r' w w' => (r = r' ∧ r.tenantId = context.tenantId) ∧
        AgreeFresh context.tenantId inp w w' := by
  intro w w' h
  rcases find_agree h.1.toAgreeRows documentId with heq | ⟨hforeign, hforeign'⟩
  · simp only [fetchAllowed, EStateM.run_bind, run_documentGet, heq]
    cases DocumentRepository.find w' documentId with
    | none => trivial
    | some record =>
      simp only [EStateM.run_bind, run_requireAllowed]
      split_ifs with hallowed
      · exact ⟨⟨rfl, (tenantId_of_allowed hadmin hallowed).symm⟩, h⟩
      · trivial
  · obtain ⟨e, v, hrun⟩ := fetchAllowed_foreign hadmin headers action hforeign
    obtain ⟨e', v', hrun'⟩ := fetchAllowed_foreign hadmin headers action hforeign'
    rw [hrun, hrun']
    trivial

end Caller

/-! ## The audit log -/

theorem chainHead_agree {t : String} {w w' : World} (h : AgreeRows t w w') (P : Platform) :
    chainHead P.dialect P.scanEvents w.audit t = chainHead P.dialect P.scanEvents w'.audit t := by
  unfold chainHead
  cases P.dialect with
  | postgresql => simp only [h.chainState]
  | sqlite => simp only [latestForTenant, orderBy_congr h.events]

theorem rel_append {t : String} {P : Platform} {inp : Inputs} {event : AuditEvent}
    (ht : event.tenantId = t) (hid : event.id = inp.eventId) :
    Rel (AgreeFresh t inp) (AuditLog.append P event) (AuditLog.append P event)
      (Same (AgreeOn t)) := by
  rintro w w' ⟨h, hfresh, hfresh'⟩
  by_cases hfits : (toOrm P.dialect event).fits P.dialect
  · obtain ⟨events, hrows, hrun⟩ := run_append_fresh P hfresh hid hfits
    obtain ⟨events', hrows', hrun'⟩ := run_append_fresh P hfresh' hid hfits
    have hchained : w.chained P event = w'.chained P event := by
      simp only [World.chained, ht, chainHead_agree h.toAgreeRows P]
    rw [hrun, hrun']
    refine ⟨hchained, ⟨⟨h.documents, ?_, ?_⟩, h.objects⟩⟩
    · simp only [World.auditWith, hrows, hrows', forTenant_append, hchained]
      split_ifs
      · exact h.events.append_right _
      · exact h.events
    · simp only [World.auditWith, hchained]
      cases P.dialect with
      | postgresql => subst ht; simp
      | sqlite => exact h.chainState
  · rw [run_append_refused P hfits, run_append_refused P hfits]
    trivial

/-! ## Objects -/

theorem rel_objectPut {t : String} {inp : Inputs} (backend : Backend) (key : String) (data : Bytes)
    (contentType : String) : Rel (AgreeFresh t inp)
      (ObjectStorage.put backend key data contentType)
      (ObjectStorage.put backend key data contentType) fun _ _ => AgreeFresh t inp := by
  rintro w w' ⟨h, hfresh⟩
  simp only [run_objectPut]
  have hobjects : ∀ backend' documentId,
      (w.withObject backend key data contentType).store backend' (storageKey t documentId) =
        (w'.withObject backend key data contentType).store backend' (storageKey t documentId) := by
    intro backend' documentId
    rw [store_withObject, store_withObject]
    split_ifs
    · by_cases hkey : storageKey t documentId = key
      · subst hkey; simp
      · simp only [Function.update_of_ne hkey]
        exact h.objects _ _
    · exact h.objects _ _
  cases backend with
  | minio => exact ⟨⟨⟨h.documents, h.events, h.chainState⟩, hobjects⟩, hfresh⟩
  | fallback => exact ⟨⟨⟨h.documents, h.events, h.chainState⟩, hobjects⟩, hfresh⟩

theorem rel_objectGet {t tenantId : String} {inp : Inputs} (ht : tenantId = t) (backend : Backend)
    (documentId : UUID) :
    Rel (AgreeFresh t inp) (ObjectStorage.get backend (storageKey tenantId documentId))
      (ObjectStorage.get backend (storageKey tenantId documentId)) (Same (AgreeFresh t inp)) :=
  fun _ _ h => ⟨by rw [ht, h.1.objects], h⟩

/-! ## The endpoints -/

section Endpoints

variable {P : Platform} {inp : Inputs} {headers : Headers} {context : TenantContext}
  (hadmin : "platform-admin" ∉ context.roles)

/-- An endpoint that answers a caller from the state of its tenant. -/
def Isolated {α : Type} (inp : Inputs) (context : TenantContext) (m : App α) : Prop :=
  Rel (AgreeFresh context.tenantId inp) m m (Same (AgreeOn context.tenantId))

section Admin

include hadmin

theorem isolated_processDocument (documentId : UUID) :
    Isolated inp context (processDocument P inp headers context documentId) := by
  refine (rel_fetchAllowed hadmin _ documentId).bind fun record _ => Rel.of_and ?_
  rintro ⟨rfl, ht⟩
  simp only [IngestionPipeline.run, IngestionPipeline.runText]
  split
  · exact Rel.throw
  · exact (rel_append ht rfl).bind_same fun _ => Rel.pure fun _ _ h => ⟨rfl, h⟩

theorem isolated_uploadDocumentContent (documentId : UUID) (body : Bytes) :
    Isolated inp context (uploadDocumentContent P inp headers context documentId body) := by
  refine (rel_fetchAllowed hadmin _ documentId).bind fun record _ => Rel.of_and ?_
  rintro ⟨rfl, ht⟩
  refine (rel_raiseIf _ _).bind fun _ _ => (rel_raiseIf _ _).bind fun _ _ =>
    (rel_raiseIf _ _).bind fun _ _ => (rel_objectPut _ _ _ _).bind fun _ _ => ?_
  exact (rel_append ht rfl).bind_same fun _ => Rel.pure fun _ _ h => ⟨rfl, h⟩

theorem isolated_downloadDocument (documentId : UUID) :
    Isolated inp context (downloadDocument P inp headers context documentId) := by
  refine (rel_fetchAllowed hadmin _ documentId).bind fun record _ => Rel.of_and ?_
  rintro ⟨rfl, ht⟩
  refine (rel_objectGet ht _ _).bind_same fun data => ?_
  cases data with
  | none => exact Rel.throw
  | some data =>
    refine (rel_append ht rfl).bind_same fun _ => ?_
    exact (rel_raiseIf _ _).bind fun _ _ => Rel.pure fun _ _ h => ⟨rfl, h⟩

theorem rel_checkCitation {documents documents' : UUID → Option DocumentRecord}
    (h : DocumentsAgree context.tenantId documents documents') (citation : EvidenceCitation)
    {R : World → World → Prop} :
    Rel R (checkCitation context documents citation) (checkCitation context documents' citation)
      fun _ _ => R := by
  have hdenied : ∀ {v : World} {documents : UUID → Option DocumentRecord},
      Foreign context.tenantId (documents citation.documentId) →
      ∃ e u, (checkCitation context documents citation).run v = .error e u := by
    intro v documents hforeign
    unfold checkCitation
    split
    · exact ⟨_, _, rfl⟩
    · next record hrecord =>
      have hne : record.tenantId ≠ context.tenantId := hforeign record hrecord
      simp only [EStateM.run_bind, run_raiseIf, hne, hadmin, ne_eq, not_false_eq_true, and_self,
        decide_true, if_true]
      exact ⟨_, _, rfl⟩
  rcases h citation.documentId with heq | ⟨hforeign, hforeign'⟩
  · simp only [checkCitation, heq]
    cases documents' citation.documentId with
    | none => exact Rel.throw
    | some record => exact (rel_raiseIf _ _).bind fun _ _ => rel_raiseIf _ _
  · exact rel_fail_left fun _ _ _ => ⟨hdenied hforeign, hdenied hforeign'⟩

theorem isolated_ragAnswer (question : String) (citations : List EvidenceCitation) :
    Isolated inp context (ragAnswer P inp headers context question citations) := by
  refine (rel_getMany _).bind fun documents documents' => Rel.of_and fun hdocs => ?_
  refine (Rel.forM citations fun citation _ => rel_checkCitation hadmin hdocs citation).bind
    fun _ _ => ?_
  exact Rel.bind_same (rel_append rfl rfl) fun _ => Rel.pure fun _ _ h => ⟨rfl, h⟩

end Admin

theorem rel_checkPage {R : World → World → Prop} (page pageSize : ℤ) :
    Rel R (checkPage page pageSize) (checkPage page pageSize) fun _ _ => R :=
  (rel_raiseIf _ _).bind fun _ _ => rel_raiseIf _ _

theorem isolated_listAudit (page pageSize : ℤ) :
    Isolated inp context (listAudit P context page pageSize) := by
  refine (rel_checkPage page pageSize).bind fun _ _ => ?_
  rintro w w' ⟨h, -⟩
  have hlist : listForTenantPaginated P.dialect P.scanEvents w.audit.events.rows context.tenantId
      page pageSize = listForTenantPaginated P.dialect P.scanEvents w'.audit.events.rows
      context.tenantId page pageSize := by
    simp only [listForTenantPaginated, h.events.length_eq, orderBy_congr h.events]
  simp only [EStateM.run_bind, run_listEventsPaginated, hlist]
  cases listForTenantPaginated P.dialect P.scanEvents w'.audit.events.rows context.tenantId page
    pageSize with
  | none => exact trivial
  | some answer => exact ⟨rfl, h⟩

theorem searchRows_agree {w w' : World} {t : String} (h : AgreeRows t w w') (query : String)
    (page pageSize : ℤ) (classification contentType : Option String) :
    DocumentRepository.searchRows P w.documents.rows t query page pageSize classification
        contentType =
      DocumentRepository.searchRows P w'.documents.rows t query page pageSize classification
        contentType := by
  have hsub : ∀ rows : List DocumentORM,
      rows.filter (DocumentRepository.conditions P t query classification contentType) =
        (rows.filter fun orm => orm.tenantId = t).filter
          (DocumentRepository.conditions P t query classification contentType) := by
    intro rows
    rw [List.filter_filter]
    refine List.filter_congr fun orm _ => ?_
    by_cases ht : orm.tenantId = t <;> simp [DocumentRepository.conditions, ht]
  have hperm := h.documents.filter
    (DocumentRepository.conditions P t query classification contentType)
  rw [← hsub, ← hsub] at hperm
  simp only [DocumentRepository.searchRows, hperm.length_eq, orderBy_congr hperm]

theorem isolated_searchDocuments (hfallback : ∀ index body, inp.openSearch index body = none)
    (q : String) (page pageSize : ℤ) (classification contentType : Option String) :
    Isolated inp context
      (searchDocuments P inp context q page pageSize classification contentType) := by
  refine (rel_checkPage page pageSize).bind fun _ _ => ?_
  rintro w w' ⟨h, -⟩
  simp only [SearchService.search, EStateM.run_bind, EStateM.run_get, run_search, hfallback,
    searchRows_agree h.toAgreeRows]
  cases DocumentRepository.binds P.dialect context.tenantId q (max page 1)
    (min (max pageSize 1) 100) classification contentType with
  | false => exact trivial
  | true => exact ⟨rfl, h⟩

end Endpoints

/-- The data endpoints, the search as the database serves it. -/
def IsDataRequest (inp : Inputs) : ApiRequest → Prop
  | .processDocument _ | .ragAnswer _ _ | .listAudit _ _ => True
  | .uploadDocumentContent _ _ | .downloadDocument _ => True
  | .searchDocuments .. => ∀ index body, inp.openSearch index body = none
  | _ => False

/-- Two states that agree on the rows and objects of the caller's tenant answer a
request for data alike: where one succeeds, so does the other, with the same
response, and they still agree. -/
theorem data_request_isolated (P : Platform) (inp : Inputs) (headers : Headers)
    (context : TenantContext) (hadmin : "platform-admin" ∉ context.roles) {w w' : World}
    (h : AgreeOn context.tenantId w w') (hfresh : Fresh inp w) (hfresh' : Fresh inp w')
    {request : ApiRequest} (hdata : IsDataRequest inp request) {response : ApiResponse} {v : World}
    (hok : (handle P inp headers context request).run w = .ok response v) :
    ∃ v', (handle P inp headers context request).run w' = .ok response v' ∧
      AgreeOn context.tenantId v v' := by
  have hrel : Isolated inp context (handle P inp headers context request) := by
    have hmap : ∀ {α : Type} {m : App α} (f : α → ApiResponse), Isolated inp context m →
        Isolated inp context (m >>= fun a => pure (f a)) := fun f hm =>
      Rel.bind_same hm fun _ => Rel.pure fun _ _ h => ⟨rfl, h⟩
    cases request with
    | processDocument documentId => exact hmap _ (isolated_processDocument hadmin documentId)
    | ragAnswer question citations => exact hmap _ (isolated_ragAnswer hadmin question citations)
    | listAudit page pageSize => exact hmap _ (isolated_listAudit page pageSize)
    | searchDocuments q page pageSize classification contentType =>
      exact hmap _ (isolated_searchDocuments hdata q page pageSize classification contentType)
    | uploadDocumentContent documentId body =>
      exact hmap _ (isolated_uploadDocumentContent hadmin documentId body)
    | downloadDocument documentId => exact hmap _ (isolated_downloadDocument hadmin documentId)
    | ingestDocument _ | submitSetupConfiguration _ | environmentalReview _ | assignCase _ _ =>
      exact hdata.elim
  exact Rel.ok hrel ⟨h, hfresh, hfresh'⟩ hok

/-- A document of the caller's tenant, with its bytes in MinIO, next to `rows`. -/
def exampleWorld (rows : List DocumentORM) (h : (rows.map DocumentORM.id).Nodup) : World :=
  (World.ofRows rows h).withObject .minio (storageKey "env" 7) exampleBytes "application/pdf"

def exampleRows : List DocumentORM := [exampleRow 7 (exampleIngest "env" "plan.pdf" .internal [])]

def exampleForeignRow : DocumentORM := exampleRow 9 (exampleIngest "roads" "a.pdf" .internal [])

/-- A row of another tenant changes nothing for a download of one's own document. -/
theorem data_request_isolated_download :
    ∃ v', (handle examplePlatform (exampleInputs 1) exampleHeaders exampleContext
        (.downloadDocument 7)).run (exampleWorld (exampleRows ++ [exampleForeignRow]) (by decide)) =
      .ok (.stream ⟨exampleBytes, "application/pdf", contentDisposition "plan.pdf"⟩) v' ∧
      v'.store .minio (storageKey "env" 7) = some (exampleBytes, "application/pdf") := by
  have hown : AgreeOn exampleContext.tenantId (exampleWorld exampleRows (by decide))
      (exampleWorld (exampleRows ++ [exampleForeignRow]) (by decide)) :=
    ⟨⟨.refl _, .refl _, rfl⟩, fun _ _ => rfl⟩
  obtain ⟨v', hv', hagree⟩ := data_request_isolated examplePlatform (exampleInputs 1)
    exampleHeaders exampleContext (by decide) hown List.not_mem_nil List.not_mem_nil
    (show IsDataRequest _ (.downloadDocument 7) from trivial) rfl
  exact ⟨v', hv', (hagree.objects .minio 7).symm⟩

end GoAnalyze
