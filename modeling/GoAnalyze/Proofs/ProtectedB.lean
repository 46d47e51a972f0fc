import GoAnalyze.Proofs.ReviewFlow

/-! Confidentiality of Protected B documents, as a property of two runs: a caller
without the reader role is answered alike from two states that differ in these
documents. The endpoints that check the classification of what they read keep it;
environmental reviews keep it where no Protected B document decides them. -/

namespace GoAnalyze

open JsonText Sql AuditRepository TwoRuns EnvironmentalAuthorizationEngine

/-! ## Two states -/

/-- The same row, or two rows of one Protected B document. -/
def SameDocument (orm orm' : DocumentORM) : Prop :=
  orm = orm' ∨ (orm.id = orm'.id ∧ orm.tenantId = orm'.tenantId ∧
    orm.classification = .protectedB ∧ orm'.classification = .protectedB)

/-- The same for what the search index holds of a document. -/
def SameEntry (entry entry' : SearchDocument) : Prop :=
  entry = entry' ∨ (entry.id = entry'.id ∧ entry.tenantId = entry'.tenantId ∧
    entry.classification = .protectedB ∧ entry'.classification = .protectedB)

/-- The entry can be a copy of a stored row. -/
def SearchDocument.fits (dialect : Dialect) (entry : SearchDocument) : Bool :=
  match dialect with
  | .sqlite => true
  | .postgresql =>
    varchar 255 entry.tenantId && varchar 1024 entry.filename && varchar 255 entry.contentType &&
      (Json.obj entry.metadata).isFinite

/-- The columns of the database take every row, and the index has copies of such rows. -/
structure World.Fits (dialect : Dialect) (w : World) : Prop where
  documents : ∀ orm ∈ w.documents.rows, orm.fits dialect
  searchIndex : ∀ entry ∈ w.searchIndex.rows, entry.fits dialect

/-- Two states that differ in the fields of Protected B documents only: in their
rows, their entries in the search index and their stored content. -/
structure AgreeOpen (w w' : World) : Prop where
  documents : List.Forall₂ SameDocument w.documents.rows w'.documents.rows
  searchIndex : List.Forall₂ SameEntry w.searchIndex.rows w'.searchIndex.rows
  audit : w.audit = w'.audit
  caseAssignments : w.caseAssignments = w'.caseAssignments
  objects : ∀ backend key, (∀ orm ∈ w.documents.rows, orm.classification = .protectedB →
    key ≠ storageKey orm.tenantId orm.id) → w.store backend key = w'.store backend key

theorem SameDocument.id_eq {orm orm' : DocumentORM} (h : SameDocument orm orm') :
    orm.id = orm'.id := by
  rcases h with rfl | h
  · rfl
  · exact h.1

theorem SameEntry.id_eq {entry entry' : SearchDocument} (h : SameEntry entry entry') :
    entry.id = entry'.id := by
  rcases h with rfl | h
  · rfl
  · exact h.1

theorem map_id_eq {rows rows' : List DocumentORM} (h : List.Forall₂ SameDocument rows rows') :
    rows.map DocumentORM.id = rows'.map DocumentORM.id := by
  induction h with
  | nil => rfl
  | cons hr _ ih => rw [List.map_cons, List.map_cons, ih, hr.id_eq]

/-- Two records of one Protected B document. -/
def BothProtected (record record' : DocumentRecord) : Prop :=
  record.tenantId = record'.tenantId ∧
    record.classification = .protectedB ∧ record'.classification = .protectedB

/-- Two lookups that agree but for records of Protected B documents. -/
def RecordsAgreeOpen (documents documents' : UUID → Option DocumentRecord) : Prop :=
  ∀ d, documents d = documents' d ∨ ∃ record record', documents d = some record ∧
    documents' d = some record' ∧ BothProtected record record'

theorem find_agreeOpen {w w' : World} (h : AgreeOpen w w') :
    RecordsAgreeOpen (DocumentRepository.find w) (DocumentRepository.find w') := by
  intro documentId
  have hrel : Option.Rel SameDocument (w.documents.get documentId) (w'.documents.get documentId) :=
    Table.get_rel (fun orm orm' (hsame : SameDocument orm orm') => hsame.id_eq) h.documents
      documentId
  unfold DocumentRepository.find
  cases hget : w.documents.get documentId <;> cases hget' : w'.documents.get documentId <;>
    rw [hget, hget'] at hrel <;> cases hrel
  · exact Or.inl rfl
  · next hsame =>
    rcases hsame with rfl | ⟨-, ht, hpb, hpb'⟩
    · exact Or.inl rfl
    · exact Or.inr ⟨_, _, rfl, rfl, ht, hpb, hpb'⟩

/-! ## The endpoints that check what they read -/

/-- Only the audit log is the same. -/
def SameAudit (w w' : World) : Prop := w.audit = w'.audit

theorem rel_getMany_open (documentIds : List UUID) :
    Rel AgreeOpen (DocumentRepository.getMany documentIds) (DocumentRepository.getMany documentIds)
      fun documents documents' w w' => RecordsAgreeOpen documents documents' ∧ AgreeOpen w w' := by
  refine fun w w' h => ⟨fun d => ?_, h⟩
  by_cases hd : d ∈ documentIds
  · simpa only [if_pos hd] using find_agreeOpen h d
  · simp only [if_neg hd, true_or]

theorem rel_append_sameAudit (P : Platform) (event : AuditEvent) :
    Rel SameAudit (AuditLog.append P event) (AuditLog.append P event) (Same fun _ _ => True) := by
  intro w w' h
  have hchained : w.chained P event = w'.chained P event := by
    simp only [World.chained, show w.audit = w'.audit from h]
  simp only [run_append, ← hchained, ← show w.audit = w'.audit from h]
  cases w.audit.events.insertChecked (AuditEventORM.fits P.dialect)
      (toOrm P.dialect (w.chained P event)) with
  | none => trivial
  | some events => exact ⟨rfl, trivial⟩

section Endpoints

variable {P : Platform} {inp : Inputs} {headers : Headers} {context : TenantContext}

/-- An endpoint that answers alike from states that agree but for Protected B
documents. -/
def Confined {α : Type} (m : App α) : Prop := Rel AgreeOpen m m (Same fun _ _ => True)

/-- No Protected B document is stored under the key of the record. -/
def OpenKey (w : World) (record : DocumentRecord) : Prop :=
  ∀ orm ∈ w.documents.rows, orm.classification = .protectedB →
    storageKey record.tenantId record.id ≠ storageKey orm.tenantId orm.id

theorem openKey_of_find {w : World} {documentId : UUID} {record : DocumentRecord}
    (hfind : DocumentRepository.find w documentId = some record)
    (hopen : record.classification ≠ .protectedB) : OpenKey w record := by
  intro orm horm hpb hkey
  obtain ⟨orm', hget, rfl⟩ := Option.map_eq_some_iff.mp hfind
  obtain ⟨horm', -⟩ := Table.get_eq_some_iff.mp hget
  obtain rfl : orm' = orm :=
    List.inj_on_of_nodup_map w.documents.nodup horm' horm (storageKey_injective hkey).2
  exact hopen hpb

variable (hrole : "protected-b-reader" ∉ context.roles)

section Role

include hrole

theorem fetchAllowed_protected (headers : Headers) (action : String) {w : World}
    {documentId : UUID} {record : DocumentRecord}
    (hfind : DocumentRepository.find w documentId = some record)
    (hpb : record.classification = .protectedB) :
    ∃ e v, (fetchAllowed headers context action documentId).run w = .error e v := by
  have hdenied : (evaluateAbac context action record.tenantId .protectedB
      headers.purpose).allowed = false := by
    rw [Bool.eq_false_iff]
    exact not_allowed_protectedB hrole
  simp only [fetchAllowed, EStateM.run_bind, run_documentGet, hfind, run_requireAllowed, hpb,
    hdenied]
  exact ⟨_, _, rfl⟩

theorem rel_fetchAllowed_open (action : String) (documentId : UUID) :
    Rel AgreeOpen (fetchAllowed headers context action documentId)
      (fetchAllowed headers context action documentId)
      (fun r r' w w' => r = r' ∧ AgreeOpen w w' ∧ OpenKey w r) := by
  intro w w' h
  rcases find_agreeOpen h documentId with heq | ⟨record, record', hfind, hfind', -, hpb, hpb'⟩
  · cases hfind : DocumentRepository.find w documentId with
    | none =>
      simp only [fetchAllowed, EStateM.run_bind, run_documentGet, ← heq, hfind]
      trivial
    | some record =>
      by_cases hpb : record.classification = .protectedB
      · obtain ⟨e, v, hrun⟩ := fetchAllowed_protected hrole headers action hfind hpb
        obtain ⟨e', v', hrun'⟩ := fetchAllowed_protected hrole headers action (heq ▸ hfind) hpb
        rw [hrun, hrun']
        trivial
      · simp only [fetchAllowed, EStateM.run_bind, run_documentGet, ← heq, hfind,
          run_requireAllowed]
        split_ifs
        · exact ⟨rfl, h, openKey_of_find hfind hpb⟩
        · trivial
  · obtain ⟨e, v, hrun⟩ := fetchAllowed_protected hrole headers action hfind hpb
    obtain ⟨e', v', hrun'⟩ := fetchAllowed_protected hrole headers action hfind' hpb'
    rw [hrun, hrun']
    trivial

theorem confined_processDocument (documentId : UUID) :
    Confined (processDocument P inp headers context documentId) := by
  refine (rel_fetchAllowed_open hrole _ documentId).bind fun record _ => Rel.of_and ?_
  rintro rfl
  simp only [IngestionPipeline.run, IngestionPipeline.runText]
  split
  · exact Rel.throw
  · exact ((rel_append_sameAudit P _).imp (fun _ _ h => h.1.audit) fun _ _ _ _ h => h).bind_same
      fun _ => Rel.pure fun _ _ _ => ⟨rfl, trivial⟩

theorem confined_uploadDocumentContent (documentId : UUID) (body : Bytes) :
    Confined (uploadDocumentContent P inp headers context documentId body) := by
  refine (rel_fetchAllowed_open hrole _ documentId).bind fun record _ => Rel.of_and ?_
  rintro rfl
  refine (rel_raiseIf _ _).bind fun _ _ => (rel_raiseIf _ _).bind fun _ _ =>
    (rel_raiseIf _ _).bind fun _ _ => ?_
  have hput : Rel (fun w w' => AgreeOpen w w' ∧ OpenKey w record)
      (ObjectStorage.put (getObjectStorage P inp) (storageKey record.tenantId record.id) body
        record.contentType)
      (ObjectStorage.put (getObjectStorage P inp) (storageKey record.tenantId record.id) body
        record.contentType) fun _ _ => SameAudit := by
    rintro w w' ⟨h, -⟩
    simp only [run_objectPut]
    cases getObjectStorage P inp <;> exact h.audit
  exact hput.bind fun _ _ => (rel_append_sameAudit P _).bind_same
    fun _ => Rel.pure fun _ _ _ => ⟨rfl, trivial⟩

theorem confined_downloadDocument (documentId : UUID) :
    Confined (downloadDocument P inp headers context documentId) := by
  refine (rel_fetchAllowed_open hrole _ documentId).bind fun record _ => Rel.of_and ?_
  rintro rfl
  have hget : Rel (fun w w' => AgreeOpen w w' ∧ OpenKey w record)
      (ObjectStorage.get (getObjectStorage P inp) (storageKey record.tenantId record.id))
      (ObjectStorage.get (getObjectStorage P inp) (storageKey record.tenantId record.id))
      (Same SameAudit) := by
    rintro w w' ⟨h, hkey⟩
    simp only [run_objectGet, h.objects _ _ hkey]
    exact ⟨rfl, h.audit⟩
  refine hget.bind_same fun data => ?_
  cases data with
  | none => exact Rel.throw
  | some data =>
    refine (rel_append_sameAudit P _).bind_same fun _ => ?_
    exact (rel_raiseIf _ _).bind fun _ _ => Rel.pure fun _ _ _ => ⟨rfl, trivial⟩

theorem rel_checkCitation_open {R : World → World → Prop}
    {documents documents' : UUID → Option DocumentRecord}
    (h : RecordsAgreeOpen documents documents') (citation : EvidenceCitation) :
    Rel R (checkCitation context documents citation) (checkCitation context documents' citation)
      fun _ _ => R := by
  have hdenied : ∀ {v : World} {documents : UUID → Option DocumentRecord} {record},
      documents citation.documentId = some record → record.classification = .protectedB →
      ∃ e u, (checkCitation context documents citation).run v = .error e u := by
    intro v documents record hrecord hpb
    simp only [checkCitation, hrecord, EStateM.run_bind, run_raiseIf, hpb, hrole,
      not_false_eq_true, and_self, decide_true, if_true]
    split <;> exact ⟨_, _, rfl⟩
  rcases h citation.documentId with heq | ⟨record, record', hd, hd', -, hpb, hpb'⟩
  · simp only [checkCitation, heq]
    cases documents' citation.documentId with
    | none => exact Rel.throw
    | some record => exact (rel_raiseIf _ _).bind fun _ _ => rel_raiseIf _ _
  · exact rel_fail_left fun _ _ _ => ⟨hdenied hd hpb, hdenied hd' hpb'⟩

theorem confined_ragAnswer (question : String) (citations : List EvidenceCitation) :
    Confined (ragAnswer P inp headers context question citations) := by
  refine (rel_getMany_open _).bind fun documents documents' => Rel.of_and fun hdocs => ?_
  refine (Rel.forM citations fun citation _ => rel_checkCitation_open hrole hdocs citation).bind
    fun _ _ => ?_
  exact ((rel_append_sameAudit P _).imp (fun _ _ h => h.audit) fun _ _ _ _ h => h).bind_same
    fun _ => Rel.pure fun _ _ _ => ⟨rfl, trivial⟩

end Role

/-! ## The endpoints that read no document -/

theorem rel_create (record : DocumentRecord) :
    Rel AgreeOpen (DocumentRepository.create P record) (DocumentRepository.create P record)
      fun _ _ => SameAudit := by
  intro w w' h
  have hids := map_id_eq h.documents
  have hnone : w.documents.insertChecked (DocumentORM.fits P.dialect)
        (DocumentRepository.toOrm P.dialect record) = none ↔
      w'.documents.insertChecked (DocumentORM.fits P.dialect)
        (DocumentRepository.toOrm P.dialect record) = none := by
    rw [Table.insertChecked_eq_none_iff, Table.insertChecked_eq_none_iff, hids]
  simp only [DocumentRepository.create, EStateM.run_bind, EStateM.run_get]
  cases hins : w.documents.insertChecked (DocumentORM.fits P.dialect)
      (DocumentRepository.toOrm P.dialect record) with
  | none =>
    rw [hnone.mp hins]
    trivial
  | some documents =>
    cases hins' : w'.documents.insertChecked (DocumentORM.fits P.dialect)
        (DocumentRepository.toOrm P.dialect record) with
    | none =>
      rw [hnone.mpr hins'] at hins
      cases hins
    | some documents' => exact h.audit

theorem confined_ingestDocument (payload : DocumentIngestRequest) :
    Confined (ingestDocument P inp headers context payload) := by
  have hindex : Rel SameAudit (SearchService.indexDocument inp (newRecord inp payload))
      (SearchService.indexDocument inp (newRecord inp payload)) fun _ _ => SameAudit := by
    intro w w' h
    simp only [SearchService.indexDocument, EStateM.run_modify]
    split <;> exact h
  refine (rel_raiseIf _ _).bind fun _ _ => (rel_create _).bind fun _ _ => hindex.bind fun _ _ => ?_
  exact (rel_append_sameAudit P _).bind_same fun _ => Rel.pure fun _ _ _ => ⟨rfl, trivial⟩

theorem confined_submitSetupConfiguration (payload : SetupConfiguration) :
    Confined (submitSetupConfiguration payload) :=
  Rel.pure fun _ _ _ => ⟨rfl, trivial⟩

theorem confined_assignCase (caseId : UUID) (skill : String) :
    Confined (assignCase P inp context caseId skill) := by
  refine (rel_raiseIf _ _).bind fun _ _ => ?_
  exact Rel.bind (Q := fun _ _ _ _ => True) ((rel_raiseIf _ _).bind fun _ _ _ _ _ => trivial)
    fun _ _ => Rel.pure fun _ _ _ => ⟨rfl, trivial⟩

theorem confined_listAudit (page pageSize : ℤ) :
    Confined (listAudit P context page pageSize) := by
  refine (rel_checkPage page pageSize).bind fun _ _ => fun w w' h => ?_
  simp only [EStateM.run_bind, run_listEventsPaginated, h.audit]
  cases listForTenantPaginated P.dialect P.scanEvents w'.audit.events.rows context.tenantId page
    pageSize with
  | none => exact trivial
  | some answer => exact ⟨rfl, trivial⟩

end Endpoints

/-! ## Other fields for Protected B documents -/

/-- A row with other fields, where it is Protected B. -/
def DocumentORM.redact (version : ℤ) (metadata : Dict) (orm : DocumentORM) : DocumentORM :=
  if orm.classification = .protectedB then
    { orm with version := version, docMetadata := .ofDict metadata }
  else orm

theorem sameDocument_redact (version : ℤ) (metadata : Dict) (orm : DocumentORM) :
    SameDocument orm (orm.redact version metadata) := by
  unfold DocumentORM.redact
  split
  · next hpb => exact Or.inr ⟨rfl, rfl, hpb, hpb⟩
  · exact Or.inl rfl

/-- A state in which every row is replaced by one of the same document. -/
def World.updateRows (w : World) (f : DocumentORM → DocumentORM)
    (hf : ∀ orm ∈ w.documents.rows, SameDocument orm (f orm)) : World :=
  { w with documents := w.documents.update f fun orm horm => (hf orm horm).id_eq.symm }

theorem agreeOpen_updateRows {w : World} {f : DocumentORM → DocumentORM}
    (hf : ∀ orm ∈ w.documents.rows, SameDocument orm (f orm)) :
    AgreeOpen w (w.updateRows f hf) where
  documents := List.forall₂_map_right_iff.mpr (List.forall₂_same.mpr hf)
  searchIndex := List.forall₂_same.mpr fun _ _ => Or.inl rfl
  audit := rfl
  caseAssignments := rfl
  objects := fun backend _ _ => by cases backend <;> rfl

def World.redact (w : World) (version : ℤ) (metadata : Dict) : World :=
  w.updateRows (DocumentORM.redact version metadata) fun orm _ =>
    sameDocument_redact version metadata orm

theorem fits_redact {dialect : Dialect} {w : World} (h : w.Fits dialect) (version : ℤ)
    {metadata : Dict} (hfinite : (Json.obj metadata).isFinite) :
    (w.redact version metadata).Fits dialect := by
  refine ⟨fun orm' horm' => ?_, h.searchIndex⟩
  obtain ⟨orm, horm, rfl⟩ := List.mem_map.mp horm'
  have hfits := h.documents orm horm
  unfold DocumentORM.redact
  split
  · cases dialect with
    | sqlite => rfl
    | postgresql =>
      obtain ⟨htenant, hname, htype, hclass, hsha, huri, -⟩ := DocumentORM.fits_postgresql.mp hfits
      refine DocumentORM.fits_postgresql.mpr ⟨htenant, hname, htype, hclass, hsha, huri, ?_⟩
      rwa [DictColumn.read_ofDict]
  · exact hfits

/-! ## Environmental reviews -/

/-- The record of an id, unless it is Protected B. -/
def openRecord (w : World) (documentId : UUID) : Option DocumentRecord :=
  (DocumentRepository.find w documentId).filter fun record => record.classification ≠ .protectedB

section Redact

variable {w : World} {version : ℤ} {metadata : Dict} {d : UUID} {record : DocumentRecord}

theorem openRecord_eq_some_iff : openRecord w d = some record ↔
    DocumentRepository.find w d = some record ∧ record.classification ≠ .protectedB := by
  simp [openRecord, Option.filter_eq_some_iff]

theorem find_redact : DocumentRepository.find (w.redact version metadata) d =
    (DocumentRepository.find w d).map fun record =>
      if record.classification = .protectedB then
        { record with version := version, metadata := metadata }
      else record := by
  simp only [DocumentRepository.find, World.redact, World.updateRows, Table.get_update,
    Option.map_map]
  congr 1
  funext orm
  by_cases hpb : orm.classification = .protectedB
  · simp only [Function.comp_apply, DocumentORM.redact, DocumentRepository.toDomain,
      DictColumn.read_ofDict, hpb, if_true]
  · simp only [Function.comp_apply, DocumentORM.redact, DocumentRepository.toDomain, hpb, if_false]

theorem find_redact_open (h : openRecord w d = some record) :
    DocumentRepository.find (w.redact version metadata) d = some record := by
  obtain ⟨hfind, hopen⟩ := openRecord_eq_some_iff.mp h
  rw [find_redact, hfind, Option.map_some, if_neg hopen]

theorem find_redact_protected (hfind : DocumentRepository.find w d = some record)
    (hpb : record.classification = .protectedB) :
    DocumentRepository.find (w.redact version metadata) d =
      some { record with version := version, metadata := metadata } := by
  rw [find_redact, hfind, Option.map_some, if_pos hpb]

end Redact

section Review

variable {P : Platform} {inp : Inputs} {headers : Headers} {context : TenantContext}
  {payload : EnvironmentalReviewRequest} {w w' : World}

/-- The request is refused, or names no Protected B document, or the other documents
it names hold every required type, and the first three that exist are among them. -/
def ReviewOfOpen (P : Platform) (headers : Headers) (context : TenantContext)
    (payload : EnvironmentalReviewRequest) (w : World) : Prop :=
  ¬ MayReview P headers context payload ∨
  (∀ d ∈ payload.documents, ∀ record, DocumentRepository.find w d = some record →
    record.classification ≠ .protectedB) ∨
  (required payload.projectType ⊆ availableTypes P (openRecord w) payload.documents ∧
    ∀ d ∈ (payload.documents.filter fun d => (DocumentRepository.find w d).isSome).take 3,
      (openRecord w d).isSome)

theorem citationsOf_filter (projectType : String) (documents : UUID → Option DocumentRecord)
    (docIds : List UUID) : citationsOf projectType documents docIds =
      citationsOf projectType documents (docIds.filter fun d => (documents d).isSome) := by
  rw [citationsOf, citationsOf, List.filterMap_filter]
  refine List.filterMap_congr fun d _ => ?_
  cases hd : documents d <;> simp

theorem reviewOf_agreeOpen (h : AgreeOpen w w')
    (hopen : ReviewOfOpen P headers context payload w)
    (hmay : MayReview P headers context payload) :
    reviewOf P payload (DocumentRepository.find w) =
      reviewOf P payload (DocumentRepository.find w') := by
  have hagree := find_agreeOpen h
  have hkeep : ∀ d record, openRecord w d = some record →
      DocumentRepository.find w' d = some record := by
    intro d record hrecord
    obtain ⟨hfind, hpb⟩ := openRecord_eq_some_iff.mp hrecord
    rcases hagree d with heq | ⟨r, r', hr, -, -, hr_pb, -⟩
    · rw [← heq, hfind]
    · obtain rfl : record = r := Option.some.inj (hfind.symm.trans hr)
      exact absurd hr_pb hpb
  rcases hopen with hrefused | hnone | ⟨htypes, hfirst⟩
  · exact absurd hmay hrefused
  · refine reviewOf_congr fun d hd => ?_
    rcases hagree d with heq | ⟨r, r', hr, -, -, hpb, -⟩
    · exact heq
    · exact absurd hpb (hnone d hd r hr)
  · have hle : ∀ d record, openRecord w d = some record →
        DocumentRepository.find w d = some record :=
      fun d record hrecord => (openRecord_eq_some_iff.mp hrecord).1
    apply review_congr
    · rw [missing_eq_nil_iff.mpr (List.Subset.trans htypes (availableTypes_mono hle)),
        missing_eq_nil_iff.mpr (List.Subset.trans htypes (availableTypes_mono hkeep))]
    · have hexists : ∀ d, (DocumentRepository.find w d).isSome =
          (DocumentRepository.find w' d).isSome := by
        intro d
        rcases hagree d with heq | ⟨r, r', hr, hr', -⟩
        · rw [heq]
        · rw [hr, hr']; rfl
      have hfound : ∀ d ∈ (payload.documents.filter fun d =>
          (DocumentRepository.find w d).isSome).take 3,
          (DocumentRepository.find w d).isSome ∧
            DocumentRepository.find w d = DocumentRepository.find w' d := by
        intro d hd
        obtain ⟨record, hrecord⟩ := Option.isSome_iff_exists.mp (hfirst d hd)
        rw [hle d record hrecord, hkeep d record hrecord]
        exact ⟨rfl, rfl⟩
      rw [citationsOf_filter, citationsOf_filter _ (DocumentRepository.find w')]
      simp only [← hexists, citationsOf]
      rw [take_filterMap fun d hd => by simpa using (hfound d hd).1,
        take_filterMap fun d hd => by rw [← (hfound d hd).2]; simpa using (hfound d hd).1]
      exact List.filterMap_congr fun d hd => by rw [(hfound d hd).2]

/-- A review that is the same for all fields of the Protected B documents needs none
of their types. -/
theorem required_subset_of_redact {d : UUID} (hd : d ∈ payload.documents)
    {record : DocumentRecord} (hfind : DocumentRepository.find w d = some record)
    (hpb : record.classification = .protectedB)
    (h : ∀ metadata metadata' : Dict, (Json.obj metadata).isFinite →
      (Json.obj metadata').isFinite →
      (reviewOf P payload (DocumentRepository.find (w.redact 1 metadata))).modelDump =
        (reviewOf P payload (DocumentRepository.find (w.redact 1 metadata'))).modelDump) :
    required payload.projectType ⊆ availableTypes P (openRecord w) payload.documents := by
  intro name hname
  by_contra hmissing
  -- without types for Protected B documents the name is missing; as one's type it is not
  have hblank : name ∉ availableTypes P (DocumentRepository.find (w.redact 1 []))
      payload.documents := by
    intro hmem
    obtain ⟨d', hd', hbind⟩ := List.mem_filterMap.mp hmem
    obtain ⟨r, hr, htype⟩ := Option.bind_eq_some_iff.mp hbind
    rw [find_redact] at hr
    obtain ⟨r', hr', rfl⟩ := Option.map_eq_some_iff.mp hr
    by_cases hpb' : r'.classification = .protectedB
    · rw [if_pos hpb'] at htype
      simp [documentType, lookup] at htype
    · rw [if_neg hpb'] at htype
      refine hmissing (List.mem_filterMap.mpr ⟨d', hd', ?_⟩)
      rw [openRecord_eq_some_iff.mpr ⟨hr', hpb'⟩]
      exact htype
  have hmem := mem_missing.mpr ⟨hname, hblank⟩
  rw [missing_of_modelDump_eq (h [] [("document_type", .str name)] rfl rfl), mem_missing] at hmem
  refine hmem.2 (List.mem_filterMap.mpr ⟨d, hd, ?_⟩)
  rw [find_redact_protected hfind hpb, Option.bind_some]
  exact documentType_of_metadata P (ne_empty_of_required hname) rfl

theorem modelDump_redact_ne {d : UUID} {record : DocumentRecord}
    (hd : d ∈ (payload.documents.filter fun d =>
      (DocumentRepository.find w d).isSome).take 3)
    (hfind : DocumentRepository.find w d = some record)
    (hpb : record.classification = .protectedB)
    (htypes : required payload.projectType ⊆
      availableTypes P (openRecord w) payload.documents) :
    (reviewOf P payload (DocumentRepository.find (w.redact 1 []))).modelDump ≠
      (reviewOf P payload (DocumentRepository.find (w.redact 2 []))).modelDump := by
  intro h
  have hexists : ∀ version, (fun d => (DocumentRepository.find (w.redact version []) d).isSome) =
      fun d => (DocumentRepository.find w d).isSome := by
    intro version
    funext d
    rw [find_redact, Option.isSome_map]
  have hnone : missing payload.projectType (availableTypes P
      (DocumentRepository.find (w.redact 1 [])) payload.documents) = [] :=
    missing_eq_nil_iff.mpr (List.Subset.trans htypes (availableTypes_mono fun _ _ =>
      find_redact_open))
  have htake := citations_of_modelDump_eq h hnone
  rw [citationsOf_filter, citationsOf_filter _ (DocumentRepository.find (w.redact 2 [])), hexists,
    hexists] at htake
  have hcited : citeDocument payload.projectType d { record with version := 1, metadata := [] } ∈
      (citationsOf payload.projectType (DocumentRepository.find (w.redact 1 []))
        (payload.documents.filter fun d => (DocumentRepository.find w d).isSome)).take 3 :=
    mem_take_filterMap hd (by rw [find_redact_protected hfind hpb]; rfl)
  rw [htake] at hcited
  obtain ⟨d', -, hcite⟩ := List.mem_filterMap.mp (List.mem_of_mem_take hcited)
  obtain ⟨r, hr, heq⟩ := Option.map_eq_some_iff.mp hcite
  obtain rfl : d' = d := congrArg EvidenceCitation.documentId heq
  rw [find_redact_protected hfind hpb] at hr
  cases hr
  have hversion : (2 : ℤ) = 1 := congrArg EvidenceCitation.version heq
  exact absurd hversion (by decide)

variable (P headers) in
theorem confidential_review_iff (hfresh : Fresh inp w) {dialect : Dialect}
    (hfits : w.Fits dialect) :
    (∀ w', AgreeOpen w w' → w'.Fits dialect → ∀ body v,
      (environmentalReview P inp headers context payload).run w = .ok body v →
      ∃ v', (environmentalReview P inp headers context payload).run w' = .ok body v') ↔
    ReviewOfOpen P headers context payload w := by
  have hfresh' : ∀ {w'}, AgreeOpen w w' → Fresh inp w' := fun h => by rwa [Fresh, ← h.audit]
  by_cases hmay : MayReview P headers context payload
  · obtain ⟨v, hrun⟩ := run_environmentalReview inp hmay hfresh
    constructor
    · intro hconf
      by_cases hnone : ∀ d ∈ payload.documents, ∀ record,
          DocumentRepository.find w d = some record → record.classification ≠ .protectedB
      · exact Or.inr (Or.inl hnone)
      have hdump : ∀ w', AgreeOpen w w' → w'.Fits dialect →
          (reviewOf P payload (DocumentRepository.find w)).modelDump =
            (reviewOf P payload (DocumentRepository.find w')).modelDump := by
        intro w' h hfits'
        obtain ⟨v', hv'⟩ := hconf w' h hfits' _ _ hrun
        obtain ⟨u, hu⟩ := run_environmentalReview inp hmay (hfresh' h)
        rw [hv'] at hu
        exact (EStateM.Result.ok.inj hu).1
      have hredact := fun version {metadata : Dict} (hfinite : (Json.obj metadata).isFinite) =>
        hdump (w.redact version metadata) (agreeOpen_updateRows _)
          (fits_redact hfits version hfinite)
      simp only [not_forall, not_not] at hnone
      obtain ⟨d, hd, record, hfind, hpb⟩ := hnone
      have htypes := required_subset_of_redact hd hfind hpb
        fun metadata metadata' h h' => (hredact 1 h).symm.trans (hredact 1 h')
      refine Or.inr (Or.inr ⟨htypes, fun d' hd' => ?_⟩)
      obtain ⟨record', hfind'⟩ := Option.isSome_iff_exists.mp
        (List.mem_filter.mp (List.mem_of_mem_take hd')).2
      by_cases hpb' : record'.classification = .protectedB
      · exact absurd ((hredact 1 (show (Json.obj []).isFinite from rfl)).symm.trans (hredact 2 rfl))
          (modelDump_redact_ne hd' hfind' hpb' htypes)
      · rw [openRecord_eq_some_iff.mpr ⟨hfind', hpb'⟩]
        rfl
    · intro hopen w' h _ body u hu
      rw [hrun] at hu
      rw [← (EStateM.Result.ok.inj hu).1, reviewOf_agreeOpen h hopen hmay]
      exact run_environmentalReview inp hmay (hfresh' h)
  · refine iff_of_true (fun w' _ _ body v hrun => ?_) (Or.inl hmay)
    obtain ⟨e, he⟩ : ∃ e, (environmentalReview P inp headers context payload).run w =
        .error e w := run_environmentalReview_refused hmay
    rw [he] at hrun
    cases hrun

end Review

end GoAnalyze
