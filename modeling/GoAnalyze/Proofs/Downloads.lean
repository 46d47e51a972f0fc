import GoAnalyze.Lib.Frame
import GoAnalyze.Lib.Runs
import GoAnalyze.Proofs.Programs

/-! Uploads and downloads over whole runs of the API: where the bytes of a download
come from, and when an acknowledged upload can be downloaded again. -/

namespace GoAnalyze

open Sql TwoRuns Frames Runs

/-! ## What requests leave alone -/

/-- The documents and the stored objects are the same. -/
structure SameData (w w' : World) : Prop where
  documents : w'.documents = w.documents
  store : w'.store = w.store

instance : Std.Refl SameData := ⟨fun _ => ⟨rfl, rfl⟩⟩

instance : IsTrans World SameData :=
  ⟨fun _ _ _ h h' => ⟨h'.documents.trans h.documents, h'.store.trans h.store⟩⟩

theorem SameData.find_eq {w w' : World} (h : SameData w w') :
    DocumentRepository.find w' = DocumentRepository.find w := by
  funext documentId
  rw [DocumentRepository.find, h.documents, DocumentRepository.find]

/-- The audit log and the assignments do not enter the relation. -/
class IgnoresRecords (R : World → World → Prop) : Prop where
  audit : ∀ w audit, R w { w with audit := audit }
  assignments : ∀ w assignments, R w { w with caseAssignments := assignments }

instance : IgnoresRecords SameData where
  audit _ _ := ⟨rfl, by funext backend; cases backend <;> rfl⟩
  assignments _ _ := ⟨rfl, by funext backend; cases backend <;> rfl⟩

section Frames

variable {R : World → World → Prop} [Std.Refl R] {P : Platform} {inp : Inputs} {headers : Headers}
  {context : TenantContext}

theorem frame_raiseIf (c : Bool) (e : HTTPException) : Frame R (raiseIf c e) := by
  intro w
  rw [run_raiseIf]
  split <;> exact Std.Refl.refl w

variable [IsTrans World R]

theorem frame_fetchAllowed (action : String) (documentId : UUID) :
    Frame R (fetchAllowed headers context action documentId) := by
  refine Frame.bind (Frame.bind Frame.get fun _ => Frame.pure _) fun record => ?_
  cases record with
  | none => exact Frame.throw _
  | some record => exact (frame_raiseIf _ _).bind fun _ => Frame.pure _

theorem frame_getMany (documentIds : List UUID) :
    Frame R (DocumentRepository.getMany documentIds) :=
  Frame.bind Frame.get fun _ => Frame.pure _

theorem frame_checkPage (page pageSize : ℤ) : Frame R (checkPage page pageSize) :=
  (frame_raiseIf _ _).bind fun _ => frame_raiseIf _ _

theorem frame_listEventsPaginated (tenantId : String) (page pageSize : ℤ) :
    Frame R (AuditLog.listEventsPaginated P tenantId page pageSize) := by
  refine Frame.bind Frame.get fun w => ?_
  split
  · exact Frame.pure _
  · exact Frame.throw _

theorem frame_listAudit (page pageSize : ℤ) :
    Frame R (listAudit P context page pageSize) :=
  (frame_checkPage page pageSize).bind fun _ =>
    (frame_listEventsPaginated _ page pageSize).bind fun _ => Frame.pure _

theorem frame_searchDocuments (q : String) (page pageSize : ℤ)
    (classification contentType : Option String) :
    Frame R (searchDocuments P inp context q page pageSize classification contentType) := by
  refine (frame_checkPage page pageSize).bind fun _ => Frame.bind Frame.get fun w => ?_
  split
  · exact Frame.pure _
  · exact Frame.bind ((frame_raiseIf _ _).bind fun _ => Frame.bind Frame.get fun _ =>
      Frame.pure _) fun _ => Frame.pure _

variable [IgnoresRecords R]

omit [IsTrans World R] in
theorem frame_append (event : AuditEvent) : Frame R (AuditLog.append P event) := by
  intro w
  rw [run_append]
  split
  · exact IgnoresRecords.audit w _
  · exact Std.Refl.refl w

theorem frame_processDocument (documentId : UUID) :
    Frame R (processDocument P inp headers context documentId) := by
  refine (frame_fetchAllowed _ documentId).bind fun record => ?_
  simp only [IngestionPipeline.run, IngestionPipeline.runText]
  split
  · exact Frame.throw _
  · exact (frame_append _).bind fun _ => Frame.pure _

theorem frame_ragAnswer (question : String) (citations : List EvidenceCitation) :
    Frame R (ragAnswer P inp headers context question citations) := by
  refine (frame_getMany _).bind fun documents => ?_
  refine (Frame.forM citations fun citation => ?_).bind fun _ =>
    (frame_append _).bind fun _ => Frame.pure _
  unfold checkCitation
  split
  · exact Frame.throw _
  · exact (frame_raiseIf _ _).bind fun _ => frame_raiseIf _ _

theorem frame_environmentalReview (payload : EnvironmentalReviewRequest) :
    Frame R (environmentalReview P inp headers context payload) :=
  (frame_raiseIf _ _).bind fun _ => (frame_getMany _).bind fun _ =>
    (frame_append _).bind fun _ => Frame.pure _

theorem frame_assignCase (caseId : UUID) (skill : String) :
    Frame R (assignCase P inp context caseId skill) := by
  refine (frame_raiseIf _ _).bind fun _ => Frame.bind ?_ fun _ => Frame.pure _
  exact (frame_raiseIf _ _).bind fun _ w => IgnoresRecords.assignments w _

theorem frame_downloadDocument (documentId : UUID) :
    Frame R (downloadDocument P inp headers context documentId) := by
  refine (frame_fetchAllowed _ documentId).bind fun record => ?_
  refine Frame.bind (Frame.bind Frame.get fun _ => Frame.pure _) fun data => ?_
  cases data with
  | none => exact Frame.throw _
  | some data =>
    exact (frame_append _).bind fun _ => (frame_raiseIf _ _).bind fun _ => Frame.pure _

variable (P inp headers context) in
theorem frame_handle {request : ApiRequest} (hingest : ∀ payload, request ≠ .ingestDocument payload)
    (hupload : ∀ d body, request ≠ .uploadDocumentContent d body) :
    Frame R (handle P inp headers context request) := by
  cases request with
  | ingestDocument payload => exact absurd rfl (hingest payload)
  | uploadDocumentContent d body => exact absurd rfl (hupload d body)
  | submitSetupConfiguration payload => exact (Frame.pure _).bind fun _ => Frame.pure _
  | processDocument d => exact (frame_processDocument d).bind fun _ => Frame.pure _
  | ragAnswer question citations =>
    exact (frame_ragAnswer question citations).bind fun _ => Frame.pure _
  | environmentalReview payload =>
    exact (frame_environmentalReview payload).bind fun _ => Frame.pure _
  | assignCase caseId skill => exact (frame_assignCase caseId skill).bind fun _ => Frame.pure _
  | listAudit page pageSize => exact (frame_listAudit page pageSize).bind fun _ => Frame.pure _
  | searchDocuments q page pageSize classification contentType =>
    exact (frame_searchDocuments q page pageSize classification contentType).bind
      fun _ => Frame.pure _
  | downloadDocument d => exact (frame_downloadDocument d).bind fun _ => Frame.pure _

end Frames

/-! ## What uploads, downloads and ingests do -/

section Cases

variable {P : Platform} {inp : Inputs} {headers : Headers} {context : TenantContext} {w : World}

theorem append_cases (event : AuditEvent) :
    (∃ a v, (AuditLog.append P event).run w = .ok a v ∧ SameData w v) ∨
      (AuditLog.append P event).run w = .error internalServerError w := by
  rw [run_append]
  split
  · exact Or.inl ⟨_, _, rfl, IgnoresRecords.audit w _⟩
  · exact Or.inr rfl

theorem find_id {documentId : UUID} {record : DocumentRecord}
    (hfind : DocumentRepository.find w documentId = some record) : record.id = documentId := by
  obtain ⟨orm, hget, rfl⟩ := Option.map_eq_some_iff.mp hfind
  exact (Table.get_eq_some_iff.mp hget).2

theorem run_fetchAllowed {action : String} {documentId : UUID} {record : DocumentRecord}
    (hfind : DocumentRepository.find w documentId = some record)
    (hallowed : (evaluateAbac context action record.tenantId record.classification
      headers.purpose).allowed) :
    (fetchAllowed headers context action documentId).run w = .ok record w := by
  simp only [fetchAllowed, EStateM.run_bind, run_documentGet, hfind, run_requireAllowed, hallowed,
    if_true]
  rfl

theorem fetchAllowed_cases (action : String) (documentId : UUID) :
    (∃ e, e ≠ internalServerError ∧
      (fetchAllowed headers context action documentId).run w = .error e w) ∨
    ∃ record, DocumentRepository.find w documentId = some record ∧
      (evaluateAbac context action record.tenantId record.classification headers.purpose).allowed ∧
      (fetchAllowed headers context action documentId).run w = .ok record w := by
  cases hfind : DocumentRepository.find w documentId with
  | none =>
    refine Or.inl ⟨⟨404, "document_not_found"⟩, by simp [internalServerError], ?_⟩
    simp only [fetchAllowed, EStateM.run_bind, run_documentGet, hfind]
    rfl
  | some record =>
    by_cases hallowed : (evaluateAbac context action record.tenantId record.classification
        headers.purpose).allowed
    · exact Or.inr ⟨record, rfl, hallowed, run_fetchAllowed hfind hallowed⟩
    · refine Or.inl ⟨⟨403, (evaluateAbac context action record.tenantId record.classification
        headers.purpose).reason⟩, by simp [internalServerError], ?_⟩
      simp only [fetchAllowed, EStateM.run_bind, run_documentGet, hfind, run_requireAllowed,
        hallowed]
      rfl

@[simp] theorem documents_withObject (backend : Backend) (key : String) (data : Bytes)
    (contentType : String) : (w.withObject backend key data contentType).documents = w.documents := by
  cases backend <;> rfl

variable (P inp headers) in
theorem run_uploadDocumentContent {documentId : UUID} {record : DocumentRecord}
    (hfind : DocumentRepository.find w documentId = some record)
    (hallowed : (evaluateAbac context "document:upload" record.tenantId record.classification
      headers.purpose).allowed) {body : Bytes} (hempty : ¬ body.isEmpty)
    (hlarge : ¬ body.length > maxUploadBytes) (hdigest : P.sha256Hex body = record.sha256) :
    (uploadDocumentContent P inp headers context documentId body).run w =
      match (AuditLog.append P (newAuditEvent inp headers context record.tenantId
          "document.content_uploaded" "document" (strUuid documentId)
          [("bytes", intJson body.length)])).run
        (w.withObject (getObjectStorage P inp) (storageKey record.tenantId documentId) body
          record.contentType) with
      | .ok _ v => .ok [("document_id", .str (strUuid documentId)),
          ("bytes_stored", intJson body.length), ("sha256", .str record.sha256)] v
      | .error e v => .error e v := by
  obtain rfl : record.id = documentId := find_id hfind
  simp only [uploadDocumentContent, EStateM.run_bind, run_fetchAllowed hfind hallowed,
    run_raiseIf, hempty, hlarge, hdigest, ne_eq, not_true, decide_false, Bool.false_eq_true,
    if_false, run_objectPut]
  cases (AuditLog.append P _).run _ <;> rfl

variable (P inp headers) in
/-- Where the columns refuse its event, the body is stored all the same. -/
theorem run_uploadDocumentContent_refused {documentId : UUID} {record : DocumentRecord}
    (hfind : DocumentRepository.find w documentId = some record)
    (hallowed : (evaluateAbac context "document:upload" record.tenantId record.classification
      headers.purpose).allowed) {body : Bytes} (hempty : ¬ body.isEmpty)
    (hlarge : ¬ body.length > maxUploadBytes) (hdigest : P.sha256Hex body = record.sha256)
    (hrecord : ¬ Recordable P headers context record.tenantId) :
    (uploadDocumentContent P inp headers context documentId body).run w =
      .error internalServerError (w.withObject (getObjectStorage P inp)
        (storageKey record.tenantId documentId) body record.contentType) := by
  rw [run_uploadDocumentContent P inp headers hfind hallowed hempty hlarge hdigest,
    run_append_refused P fun hfits =>
      hrecord ((fits_newAuditEvent rfl rfl (varchar_strUuid documentId)).mp hfits)]

/-- An upload is refused and changes nothing, or puts bytes of the recorded digest under
the key of the document, in the backend of the request. It may still fail then. -/
theorem uploadDocumentContent_cases (documentId : UUID) (body : Bytes) :
    (∃ e, e ≠ internalServerError ∧
      (uploadDocumentContent P inp headers context documentId body).run w = .error e w) ∨
    ∃ record v, DocumentRepository.find w documentId = some record ∧
      P.sha256Hex body = record.sha256 ∧
      ((∃ response,
        (uploadDocumentContent P inp headers context documentId body).run w = .ok response v) ∨
        (uploadDocumentContent P inp headers context documentId body).run w =
          .error internalServerError v) ∧
      SameData (w.withObject (getObjectStorage P inp) (storageKey record.tenantId documentId) body
        record.contentType) v := by
  rcases fetchAllowed_cases "document:upload" documentId with
    ⟨e, hne, hrun⟩ | ⟨record, hfind, hallowed, hrun⟩
  · refine Or.inl ⟨e, hne, ?_⟩
    rw [uploadDocumentContent, EStateM.run_bind, hrun]
  by_cases hempty : body.isEmpty
  · refine Or.inl ⟨⟨422, "empty_upload_body"⟩, by simp [internalServerError], ?_⟩
    simp only [uploadDocumentContent, EStateM.run_bind, hrun, run_raiseIf, hempty, if_true]
  by_cases hlarge : body.length > maxUploadBytes
  · refine Or.inl ⟨⟨413, "upload_too_large"⟩, by simp [internalServerError], ?_⟩
    simp only [uploadDocumentContent, EStateM.run_bind, hrun, run_raiseIf, hempty, hlarge,
      decide_true, if_true, Bool.false_eq_true, if_false]
  by_cases hdigest : P.sha256Hex body = record.sha256
  · right
    have hput := run_uploadDocumentContent P inp headers hfind hallowed hempty hlarge
      hdigest
    rcases append_cases (P := P) _ with ⟨a, v, happend, hsame⟩ | happend
    · rw [happend] at hput
      exact ⟨record, v, hfind, hdigest, Or.inl ⟨_, hput⟩, hsame⟩
    · rw [happend] at hput
      exact ⟨record, _, hfind, hdigest, Or.inr hput, Std.Refl.refl _⟩
  · refine Or.inl ⟨⟨422, "sha256_mismatch"⟩, by simp [internalServerError], ?_⟩
    simp only [uploadDocumentContent, EStateM.run_bind, hrun, run_raiseIf, hempty, hlarge, hdigest,
      ne_eq, not_false_eq_true, decide_true, decide_false, Bool.false_eq_true, if_false, if_true]

variable (inp headers context) in
def ingestedEvent (record : DocumentRecord) : AuditEvent :=
  newAuditEvent inp headers context record.tenantId "document.ingested" "document"
    (strUuid record.id)
    [("sha256", .str record.sha256), ("classification", .str record.classification.value)]

theorem run_ingestDocument_refused {payload : DocumentIngestRequest}
    (h : ¬ (evaluateAbac context "document:ingest" payload.tenantId payload.classification
        headers.purpose).allowed ∨
      w.documents.insertChecked (DocumentORM.fits P.dialect)
        (DocumentRepository.toOrm P.dialect (newRecord inp payload)) = none) :
    ∃ e, (ingestDocument P inp headers context payload).run w = .error e w := by
  simp only [ingestDocument, EStateM.run_bind, run_requireAllowed]
  split_ifs with hallowed
  · have hcreate := run_create P w (newRecord inp payload)
    rw [h.resolve_left (not_not.mpr hallowed)] at hcreate
    simp only [hcreate]
    exact ⟨_, rfl⟩
  · exact ⟨_, rfl⟩

theorem run_ingestDocument {payload : DocumentIngestRequest}
    (hallowed : (evaluateAbac context "document:ingest" payload.tenantId payload.classification
      headers.purpose).allowed) {documents : Table DocumentORM.id}
    (hins : w.documents.insertChecked (DocumentORM.fits P.dialect)
      (DocumentRepository.toOrm P.dialect (newRecord inp payload)) = some documents) :
    (ingestDocument P inp headers context payload).run w =
      match (AuditLog.append P (ingestedEvent inp headers context (newRecord inp payload))).run
        { w with
          documents := documents, searchIndex := w.indexWith inp (newRecord inp payload) } with
      | .ok _ v => .ok (newRecord inp payload) v
      | .error e v => .error e v := by
  have hcreate := run_create P w (newRecord inp payload)
  rw [hins] at hcreate
  have hindex : (SearchService.indexDocument inp (newRecord inp payload)).run
      { w with documents := documents } = .ok () { w with
        documents := documents, searchIndex := w.indexWith inp (newRecord inp payload) } :=
    run_indexDocument _ inp _
  simp only [ingestDocument, EStateM.run_bind, run_requireAllowed, hallowed, if_true, hcreate, hindex,
    ingestedEvent]
  cases (AuditLog.append P _).run _ <;> rfl

theorem ingestDocument_cases (payload : DocumentIngestRequest) :
    (∃ e, (ingestDocument P inp headers context payload).run w = .error e w) ∨
    ∃ v, w.documents.insert (DocumentRepository.toOrm P.dialect (newRecord inp payload)) =
        some v.documents ∧ v.store = w.store ∧
      ((ingestDocument P inp headers context payload).run w = .ok (newRecord inp payload) v ∨
        (ingestDocument P inp headers context payload).run w = .error internalServerError v) := by
  by_cases hallowed : (evaluateAbac context "document:ingest" payload.tenantId
      payload.classification headers.purpose).allowed
  swap
  · exact Or.inl (run_ingestDocument_refused (Or.inl hallowed))
  cases hins : w.documents.insertChecked (DocumentORM.fits P.dialect)
      (DocumentRepository.toOrm P.dialect (newRecord inp payload)) with
  | none => exact Or.inl (run_ingestDocument_refused (Or.inr hins))
  | some documents =>
    have hrun := run_ingestDocument hallowed hins
    have hadded := (Table.insertChecked_eq_some_iff.mp hins).2
    set index := w.indexWith inp (newRecord inp payload)
    have hstore : World.store { w with documents := documents, searchIndex := index } = w.store := by
      funext backend
      cases backend <;> rfl
    rcases append_cases (P := P) (w := { w with documents := documents, searchIndex := index })
      (ingestedEvent inp headers context (newRecord inp payload)) with ⟨a, v, happend, hsame⟩ | happend
    · rw [happend] at hrun
      exact Or.inr ⟨v, by rw [hsame.documents, hadded], hsame.store.trans hstore, Or.inl hrun⟩
    · rw [happend] at hrun
      exact Or.inr ⟨_, hadded, hstore, Or.inr hrun⟩

/-- A download that the policy allows returns the object under the key of the document,
if the columns take its audit event and the content type can be sent as a header. -/
theorem run_downloadDocument_iff (hfresh : Fresh inp w) {documentId : UUID}
    {record : DocumentRecord} (hfind : DocumentRepository.find w documentId = some record)
    (hallowed : (evaluateAbac context "document:download" record.tenantId record.classification
      headers.purpose).allowed) (body : Bytes) :
    (∃ response v, (downloadDocument P inp headers context documentId).run w = .ok response v ∧
      response.data = body) ↔
    (w.store (getObjectStorage P inp) (storageKey record.tenantId documentId)).map (·.1) =
        some body ∧
      isLatin1 record.contentType ∧ Recordable P headers context record.tenantId := by
  obtain rfl : record.id = documentId := find_id hfind
  simp only [downloadDocument, EStateM.run_bind, run_fetchAllowed hfind hallowed, run_objectGet]
  cases hstore : w.store (getObjectStorage P inp) (storageKey record.tenantId record.id) with
  | none =>
    refine iff_of_false ?_ (by simp)
    rintro ⟨response, v, hrun, -⟩
    cases hrun
  | some object =>
    have hfits : (AuditRepository.toOrm P.dialect (newAuditEvent inp headers context
        record.tenantId "document.downloaded" "document" (strUuid record.id)
        [("bytes", intJson object.1.length)])).fits P.dialect ↔
          Recordable P headers context record.tenantId :=
      fits_newAuditEvent rfl rfl (varchar_strUuid record.id)
    simp only [Option.map_some, EStateM.run_bind, Option.some.injEq]
    by_cases hrecord : Recordable P headers context record.tenantId
    · obtain ⟨events, -, happend⟩ := run_append_fresh P hfresh rfl (hfits.mpr hrecord)
      simp only [happend, run_raiseIf, hrecord, and_true]
      cases isLatin1 record.contentType with
      | false =>
        refine iff_of_false ?_ (by simp)
        rintro ⟨response, v, hrun, -⟩
        cases hrun
      | true =>
        constructor
        · rintro ⟨response, v, hrun, rfl⟩
          cases hrun
          exact ⟨rfl, rfl⟩
        · rintro ⟨rfl, -⟩
          exact ⟨_, _, rfl, rfl⟩
    · rw [run_append_refused P fun h => hrecord (hfits.mp h)]
      refine iff_of_false ?_ fun h => hrecord h.2.2
      rintro ⟨response, v, hrun, -⟩
      cases hrun

theorem downloadDocument_ok {documentId : UUID} {response : StreamingResponse} {v : World}
    (h : (downloadDocument P inp headers context documentId).run w = .ok response v) :
    ∃ record, DocumentRepository.find w documentId = some record ∧
      (w.store (getObjectStorage P inp) (storageKey record.tenantId documentId)).map (·.1) =
        some response.data ∧
      response = ⟨response.data, record.contentType, contentDisposition record.filename⟩ := by
  rw [downloadDocument, EStateM.run_bind] at h
  rcases fetchAllowed_cases "document:download" documentId with ⟨e, -, he⟩ | ⟨r, hfind, -, hfetch⟩
  · rw [he] at h
    cases h
  · obtain rfl : r.id = documentId := find_id hfind
    refine ⟨r, hfind, ?_⟩
    simp only [hfetch, EStateM.run_bind, run_objectGet] at h
    cases hstore : w.store (getObjectStorage P inp) (storageKey r.tenantId r.id) with
    | none =>
      rw [hstore] at h
      cases h
    | some object =>
      simp only [hstore, Option.map_some, EStateM.run_bind] at h
      rcases append_cases (P := P) (w := w) (newAuditEvent inp headers context r.tenantId
          "document.downloaded" "document" (strUuid r.id)
          [("bytes", intJson object.1.length)]) with ⟨a, v, happend, -⟩ | happend
      · simp only [happend, run_raiseIf] at h
        split_ifs at h
        cases h
        exact ⟨rfl, rfl⟩
      · rw [happend] at h
        cases h

end Cases

/-! ## Runs of the API -/

/-- A request with what it is given, and its answer. -/
structure Exchange where
  inp : Inputs
  headers : Headers
  context : TenantContext
  request : ApiRequest
  answer : Except HTTPException ApiResponse

namespace Exchange

variable (P : Platform) (x : Exchange)

/-- An ingest answered with the record. -/
def Ingested (record : DocumentRecord) : Prop :=
  ∃ payload, x.request = .ingestDocument payload ∧ x.answer = .ok (.record record)

def Uploaded (documentId : UUID) (body : Bytes) : Prop :=
  x.request = .uploadDocumentContent documentId body ∧ ∃ response, x.answer = .ok response

def Downloaded (documentId : UUID) (response : StreamingResponse) : Prop :=
  x.request = .downloadDocument documentId ∧ x.answer = .ok (.stream response)

/-- An upload keeps what it stored when it is acknowledged, and when it fails with 500,
which it does only after it stored its body. -/
def kept : Bool :=
  match x.answer with
  | .ok _ => true
  | .error e => e = internalServerError

/-- An upload that stored its body. -/
def Put (documentId : UUID) (body : Bytes) : Prop :=
  x.request = .uploadDocumentContent documentId body ∧ x.kept

/-- The body that a request stored for a document in a backend. -/
def putTo (backend : Backend) (documentId : UUID) : Option Bytes :=
  match x.request with
  | .uploadDocumentContent d body =>
    if x.kept ∧ d = documentId ∧ getObjectStorage P x.inp = backend then some body else none
  | _ => none

variable {P x} {backend : Backend} {d : UUID} {body : Bytes}

theorem put_of_uploaded (h : x.Uploaded d body) : x.Put d body := by
  obtain ⟨hrequest, response, hanswer⟩ := h
  exact ⟨hrequest, by rw [kept, hanswer]⟩

theorem putTo_eq_some_iff : x.putTo P backend d = some body ↔
    x.Put d body ∧ getObjectStorage P x.inp = backend := by
  unfold putTo Put
  cases x.request with
  | uploadDocumentContent d' body' =>
    simp only [Option.ite_none_right_eq_some, Option.some.injEq,
      ApiRequest.uploadDocumentContent.injEq]
    constructor
    · rintro ⟨⟨hkept, hd, hbackend⟩, hbody⟩
      exact ⟨⟨⟨hd, hbody⟩, hkept⟩, hbackend⟩
    · rintro ⟨⟨⟨hd, hbody⟩, hkept⟩, hbackend⟩
      exact ⟨⟨hkept, hd, hbackend⟩, hbody⟩
  | _ => simp

theorem putTo_eq_none (h : ∀ body, ¬ x.Put d body) : x.putTo P backend d = none := by
  rw [Option.eq_none_iff_forall_not_mem]
  exact fun body hbody => h body (putTo_eq_some_iff.mp hbody).1

end Exchange

/-- The body of the last upload that stored one for the document in the backend. -/
def lastPut (P : Platform) (backend : Backend) (d : UUID) (xs : List Exchange) : Option Bytes :=
  (xs.filterMap (Exchange.putTo P · backend d)).getLast?

section LastPut

variable {P : Platform} {backend : Backend} {d : UUID} {xs : List Exchange} {x : Exchange}

theorem lastPut_append :
    lastPut P backend d (xs ++ [x]) = (x.putTo P backend d).or (lastPut P backend d xs) := by
  rw [lastPut, List.filterMap_append, List.getLast?_append, lastPut]
  cases hput : x.putTo P backend d with
  | none => simp [hput]
  | some body => simp [hput]

theorem exists_of_lastPut {body : Bytes} (h : lastPut P backend d xs = some body) :
    ∃ y ∈ xs, y.Put d body ∧ getObjectStorage P y.inp = backend := by
  obtain ⟨y, hy, hput⟩ := List.mem_filterMap.mp (List.mem_of_getLast? h)
  exact ⟨y, hy, Exchange.putTo_eq_some_iff.mp hput⟩

theorem lastPut_isSome {body : Bytes} (hx : x ∈ xs) (hput : x.Put d body)
    (hbackend : getObjectStorage P x.inp = backend) : (lastPut P backend d xs).isSome := by
  rw [lastPut, List.getLast?_isSome]
  exact List.ne_nil_of_mem (List.mem_filterMap.mpr
    ⟨x, hx, Exchange.putTo_eq_some_iff.mpr ⟨hput, hbackend⟩⟩)

theorem lastPut_eq_none (h : ∀ y ∈ xs, ∀ body, ¬ y.Put d body) : lastPut P backend d xs = none := by
  rw [Option.eq_none_iff_forall_not_mem]
  intro body hbody
  obtain ⟨y, hy, hput, -⟩ := exists_of_lastPut hbody
  exact h y hy body hput

end LastPut

def resultOf (answer : Except HTTPException ApiResponse) (w : World) :
    EStateM.Result HTTPException World ApiResponse :=
  match answer with
  | .ok response => .ok response w
  | .error e => .error e w

/-- A request is served: its endpoint gives the answer. -/
def Serves (P : Platform) (w : World) (x : Exchange) (w' : World) : Prop :=
  (handle P x.inp x.headers x.context x.request).run w = resultOf x.answer w'

theorem serves_of_upload_error {P : Platform} {w v : World} {inp : Inputs} {headers : Headers}
    {context : TenantContext} {d : UUID} {body : Bytes} {e : HTTPException}
    (h : (uploadDocumentContent P inp headers context d body).run w = .error e v) :
    Serves P w ⟨inp, headers, context, .uploadDocumentContent d body, .error e⟩ v := by
  rw [Serves, handle, EStateM.run_bind, h]
  rfl

theorem final_resultOf (answer : Except HTTPException ApiResponse) (w : World) :
    final (resultOf answer w) = w := by
  cases answer <;> rfl

theorem resultOf_eq_ok {answer : Except HTTPException ApiResponse} {w v : World}
    {response : ApiResponse} :
    resultOf answer w = .ok response v ↔ answer = .ok response ∧ w = v := by
  cases answer <;> simp [resultOf]

theorem resultOf_eq_error {answer : Except HTTPException ApiResponse} {w v : World}
    {e : HTTPException} : resultOf answer w = .error e v ↔ answer = .error e ∧ w = v := by
  cases answer <;> simp [resultOf]

/-- What one request can do to documents and objects. -/
inductive Effect (P : Platform) (w : World) (x : Exchange) (w' : World) : Prop where
  | unchanged (data : SameData w w') (ingested : ∀ record, ¬ x.Ingested record)
      (put : ∀ d body, ¬ x.Put d body)
  | ingested (payload : DocumentIngestRequest) (request : x.request = .ingestDocument payload)
      (answer : ∀ record, x.Ingested record → record = newRecord x.inp payload)
      (documents : w.documents.insert
        (DocumentRepository.toOrm P.dialect (newRecord x.inp payload)) = some w'.documents)
      (store : w'.store = w.store)
  | put (d : UUID) (body : Bytes) (record : DocumentRecord) (put : x.Put d body)
      (found : DocumentRepository.find w d = some record)
      (digest : P.sha256Hex body = record.sha256)
      (data : SameData (w.withObject (getObjectStorage P x.inp) (storageKey record.tenantId d) body
        record.contentType) w')

section Steps

variable {P : Platform} {w w' : World} {x : Exchange}

theorem effect_of_frame {inp : Inputs} {headers : Headers} {context : TenantContext}
    {request : ApiRequest} {answer : Except HTTPException ApiResponse}
    (h : Serves P w ⟨inp, headers, context, request, answer⟩ w')
    (hingest : ∀ payload, request ≠ .ingestDocument payload)
    (hupload : ∀ d body, request ≠ .uploadDocumentContent d body) :
    Effect P w ⟨inp, headers, context, request, answer⟩ w' := by
  have hrun : (handle P inp headers context request).run w = resultOf answer w' := h
  have hdata := frame_handle P inp headers context (R := SameData) hingest hupload w
  rw [hrun, final_resultOf] at hdata
  refine .unchanged hdata ?_ fun d body hx => hupload d body hx.1
  rintro record ⟨payload, hrequest, -⟩
  exact hingest payload hrequest

theorem effect_of_ingest {inp : Inputs} {headers : Headers} {context : TenantContext}
    {payload : DocumentIngestRequest} {answer : Except HTTPException ApiResponse}
    (h : Serves P w ⟨inp, headers, context, .ingestDocument payload, answer⟩ w') :
    Effect P w ⟨inp, headers, context, .ingestDocument payload, answer⟩ w' := by
  have hrun : (handle P inp headers context (.ingestDocument payload)).run w =
    resultOf answer w' := h
  rw [handle, EStateM.run_bind] at hrun
  rcases ingestDocument_cases payload with ⟨e, he⟩ | ⟨v, hins, hstore, hok | herror⟩
  · rw [he] at hrun
    obtain ⟨rfl, rfl⟩ := resultOf_eq_error.mp hrun.symm
    refine .unchanged (Std.Refl.refl _) ?_ fun d body hx => by cases hx.1
    rintro record ⟨-, -, hanswer⟩
    cases hanswer
  · rw [hok] at hrun
    obtain ⟨rfl, rfl⟩ := resultOf_eq_ok.mp hrun.symm
    refine .ingested payload rfl ?_ hins hstore
    rintro record ⟨-, -, hanswer⟩
    cases hanswer
    rfl
  · rw [herror] at hrun
    obtain ⟨rfl, rfl⟩ := resultOf_eq_error.mp hrun.symm
    refine .ingested payload rfl ?_ hins hstore
    rintro record ⟨-, -, hanswer⟩
    cases hanswer

theorem effect_of_upload {inp : Inputs} {headers : Headers} {context : TenantContext} {d : UUID}
    {body : Bytes} {answer : Except HTTPException ApiResponse}
    (h : Serves P w ⟨inp, headers, context, .uploadDocumentContent d body, answer⟩ w') :
    Effect P w ⟨inp, headers, context, .uploadDocumentContent d body, answer⟩ w' := by
  have hrun : (handle P inp headers context (.uploadDocumentContent d body)).run w =
    resultOf answer w' := h
  rw [handle, EStateM.run_bind] at hrun
  rcases uploadDocumentContent_cases d body with
    ⟨e, hne, he⟩ | ⟨record, v, hfind, hdigest, ⟨response, hok⟩ | herror, hsame⟩
  · rw [he] at hrun
    obtain ⟨rfl, rfl⟩ := resultOf_eq_error.mp hrun.symm
    refine .unchanged (Std.Refl.refl _) ?_ fun d body hx => ?_
    · rintro record ⟨payload, hrequest, -⟩
      cases hrequest
    · exact hne (of_decide_eq_true hx.2)
  · rw [hok] at hrun
    obtain ⟨rfl, rfl⟩ := resultOf_eq_ok.mp hrun.symm
    exact .put d body record ⟨rfl, rfl⟩ hfind hdigest hsame
  · rw [herror] at hrun
    obtain ⟨rfl, rfl⟩ := resultOf_eq_error.mp hrun.symm
    exact .put d body record ⟨rfl, rfl⟩ hfind hdigest hsame

theorem serves_effect (h : Serves P w x w') : Effect P w x w' := by
  obtain ⟨inp, headers, context, request, answer⟩ := x
  cases request with
  | ingestDocument payload => exact effect_of_ingest h
  | uploadDocumentContent d body => exact effect_of_upload h
  | submitSetupConfiguration _ => exact effect_of_frame h nofun nofun
  | processDocument _ => exact effect_of_frame h nofun nofun
  | ragAnswer _ _ => exact effect_of_frame h nofun nofun
  | environmentalReview _ => exact effect_of_frame h nofun nofun
  | assignCase _ _ => exact effect_of_frame h nofun nofun
  | listAudit _ _ => exact effect_of_frame h nofun nofun
  | searchDocuments _ _ _ _ _ => exact effect_of_frame h nofun nofun
  | downloadDocument _ => exact effect_of_frame h nofun nofun

theorem find_of_effect (h : Effect P w x w') {d : UUID} {r : DocumentRecord}
    (hfind : DocumentRepository.find w d = some r) : DocumentRepository.find w' d = some r := by
  cases h with
  | unchanged data => rw [data.find_eq, hfind]
  | put _ _ _ _ _ _ data =>
    rw [DocumentRepository.find, data.documents, documents_withObject]
    exact hfind
  | ingested payload _ _ documents =>
    obtain ⟨orm, hget, rfl⟩ := Option.map_eq_some_iff.mp hfind
    obtain ⟨hmem, hid⟩ := Table.get_eq_some_iff.mp hget
    have hother : (DocumentRepository.toOrm P.dialect (newRecord x.inp payload)).id ≠ d :=
      fun hsame => (Table.insert_eq_some_iff.mp documents).1
        (List.mem_map.mpr ⟨orm, hmem, hid.trans hsame.symm⟩)
    rw [DocumentRepository.find, Table.get_insert documents, if_neg hother, hget]
    rfl

theorem find_of_ingested (h : Effect P w x w') {record : DocumentRecord}
    (hx : x.Ingested record) : DocumentRepository.find w' record.id =
      some (DocumentRepository.toDomain (DocumentRepository.toOrm P.dialect record)) := by
  cases h with
  | unchanged _ ingested => exact absurd hx (ingested record)
  | put _ _ _ put =>
    obtain ⟨payload, hrequest, -⟩ := hx
    cases hrequest.symm.trans put.1
  | ingested payload _ answer documents =>
    obtain rfl := answer record hx
    have hget := Table.get_insert documents (newRecord x.inp payload).id
    rw [if_pos (show (DocumentRepository.toOrm P.dialect (newRecord x.inp payload)).id =
      (newRecord x.inp payload).id from rfl)] at hget
    rw [DocumentRepository.find, hget]
    rfl

theorem find_cases (h : Effect P w x w') {d : UUID} {r : DocumentRecord}
    (hfind : DocumentRepository.find w' d = some r) :
    DocumentRepository.find w d = some r ∨ DocumentRepository.find w d = none ∧
      ∃ payload, x.request = .ingestDocument payload ∧ x.inp.documentId = d ∧
        r.sha256 = payload.sha256 := by
  cases h with
  | unchanged data =>
    rw [data.find_eq] at hfind
    exact Or.inl hfind
  | put _ _ _ _ _ _ data =>
    rw [DocumentRepository.find, data.documents, documents_withObject] at hfind
    exact Or.inl hfind
  | ingested payload request _ documents =>
    rw [DocumentRepository.find, Table.get_insert documents] at hfind
    split_ifs at hfind with hid
    · cases hfind
      refine Or.inr ⟨?_, payload, request, hid, rfl⟩
      rw [DocumentRepository.find, Table.get_eq_none_iff.mpr]
      · rfl
      · intro orm hmem hsame
        exact (Table.insert_eq_some_iff.mp documents).1
          (List.mem_map.mpr ⟨orm, hmem, hsame.trans hid.symm⟩)
    · exact Or.inl hfind

theorem digest_of_put (h : Effect P w x w') {d : UUID} {body : Bytes} (hx : x.Put d body) :
    ∃ r, DocumentRepository.find w d = some r ∧ P.sha256Hex body = r.sha256 := by
  cases h with
  | unchanged _ _ put => exact absurd hx (put d body)
  | ingested _ request => cases request.symm.trans hx.1
  | put d' body' r put found digest =>
    cases put.1.symm.trans hx.1
    exact ⟨r, found, digest⟩

theorem store_of_effect (h : Effect P w x w') {d : UUID} {r : DocumentRecord}
    (hfind : DocumentRepository.find w d = some r) (backend : Backend) :
    (w'.store backend (storageKey r.tenantId d)).map (·.1) =
      (x.putTo P backend d).or ((w.store backend (storageKey r.tenantId d)).map (·.1)) := by
  cases h with
  | unchanged data _ put => rw [data.store, Exchange.putTo_eq_none (put d), Option.none_or]
  | ingested payload request _ _ store =>
    have hnone : ∀ body, ¬ x.Put d body := fun body hx => by cases request.symm.trans hx.1
    rw [store, Exchange.putTo_eq_none hnone, Option.none_or]
  | put d' body record put found _ data =>
    rw [data.store, store_withObject]
    by_cases hd : d' = d
    · subst hd
      obtain rfl : record = r := Option.some.inj (found.symm.trans hfind)
      split_ifs with hbackend
      · rw [Exchange.putTo_eq_some_iff.mpr ⟨put, hbackend.symm⟩, Function.update_self]
        rfl
      · have hnone : x.putTo P backend d' = none := by
          rw [Option.eq_none_iff_forall_not_mem]
          exact fun body' hbody =>
            hbackend (Exchange.putTo_eq_some_iff.mp hbody).2.symm
        rw [hnone, Option.none_or]
    · have hnone : ∀ body', ¬ x.Put d body' := fun body' hx => by
        cases put.1.symm.trans hx.1
        exact hd rfl
      have hkey : storageKey r.tenantId d ≠ storageKey record.tenantId d' := fun hkey =>
        hd (storageKey_injective hkey).2.symm
      rw [Exchange.putTo_eq_none hnone, Option.none_or]
      split_ifs with hbackend
      · rw [Function.update_of_ne hkey, hbackend]
      · rfl

theorem key_of_effect (h : Effect P w x w') {backend : Backend} {key : String}
    (hobject : (w'.store backend key).isSome) : (w.store backend key).isSome ∨
      ∃ d r, DocumentRepository.find w d = some r ∧ key = storageKey r.tenantId d := by
  cases h with
  | unchanged data => exact Or.inl (data.store ▸ hobject)
  | ingested _ _ _ _ store => exact Or.inl (store ▸ hobject)
  | put d body record _ found _ data =>
    by_cases hkey : key = storageKey record.tenantId d
    · exact Or.inr ⟨d, record, found, hkey⟩
    · rw [data.store, store_withObject] at hobject
      split_ifs at hobject with hbackend
      · rw [Function.update_of_ne hkey] at hobject
        exact Or.inl (hbackend ▸ hobject)
      · exact Or.inl hobject

end Steps

/-- What a run leaves: every record comes from an ingest and has its digest, every upload
that stored its body has the recorded digest, and the object of a document is the body
of the last of them. -/
structure Stored (P : Platform) (xs : List Exchange) (w : World) : Prop where
  ingested : ∀ x ∈ xs, ∀ record, x.Ingested record →
    ∃ r, DocumentRepository.find w record.id = some r ∧ r.sha256 = record.sha256
  recorded : ∀ d r, DocumentRepository.find w d = some r → ∃ x ∈ xs, ∃ payload,
    x.request = .ingestDocument payload ∧ x.inp.documentId = d ∧ r.sha256 = payload.sha256
  digest : ∀ x ∈ xs, ∀ d body, x.Put d body →
    ∃ r, DocumentRepository.find w d = some r ∧ P.sha256Hex body = r.sha256
  keys : ∀ backend key, (w.store backend key).isSome →
    ∃ d r, DocumentRepository.find w d = some r ∧ key = storageKey r.tenantId d
  objects : ∀ d r, DocumentRepository.find w d = some r → ∀ backend,
    (w.store backend (storageKey r.tenantId d)).map (·.1) = lastPut P backend d xs

section Stored

variable {P : Platform} {xs : List Exchange} {w w' : World} {x : Exchange}

theorem stored_empty : Stored P [] World.empty where
  ingested := fun _ hx => absurd hx List.not_mem_nil
  recorded := fun _ _ hfind => by cases hfind
  digest := fun _ hx => absurd hx List.not_mem_nil
  keys := fun backend _ hobject => by cases backend <;> cases hobject
  objects := fun _ _ hfind => by cases hfind

theorem Stored.unrecorded (h : Stored P xs w) {d : UUID}
    (hnone : DocumentRepository.find w d = none) (backend : Backend) (tenantId : String) :
    w.store backend (storageKey tenantId d) = none ∧ lastPut P backend d xs = none := by
  constructor
  · by_contra hsome
    obtain ⟨d', r, hfind, hkey⟩ := h.keys backend _ (Option.isSome_iff_ne_none.mpr hsome)
    obtain ⟨-, rfl⟩ := storageKey_injective hkey
    rw [hnone] at hfind
    cases hfind
  · refine lastPut_eq_none fun y hy body hput => ?_
    obtain ⟨r, hfind, -⟩ := h.digest y hy d body hput
    rw [hnone] at hfind
    cases hfind

theorem Stored.step (h : Stored P xs w) (hserve : Serves P w x w') : Stored P (xs ++ [x]) w' := by
  have heffect := serves_effect hserve
  have hkeep : ∀ {d r}, DocumentRepository.find w d = some r →
      DocumentRepository.find w' d = some r := find_of_effect heffect
  have hlast : x ∈ xs ++ [x] := by simp
  have hcases : ∀ {y}, y ∈ xs ++ [x] → y ∈ xs ∨ y = x := fun hy => by simpa using hy
  refine ⟨fun y hy record hrecord => ?_, fun d r hfind => ?_, fun y hy d body hput => ?_,
    fun backend key hobject => ?_, fun d r hfind backend => ?_⟩
  · rcases hcases hy with hy | rfl
    · obtain ⟨r, hfind, hsha⟩ := h.ingested y hy record hrecord
      exact ⟨r, hkeep hfind, hsha⟩
    · exact ⟨_, find_of_ingested heffect hrecord, rfl⟩
  · rcases find_cases heffect hfind with hold | ⟨-, payload, hrequest, hid, hsha⟩
    · obtain ⟨y, hy, hmade⟩ := h.recorded d r hold
      exact ⟨y, List.mem_append_left _ hy, hmade⟩
    · exact ⟨x, hlast, payload, hrequest, hid, hsha⟩
  · rcases hcases hy with hy | rfl
    · obtain ⟨r, hfind, hsha⟩ := h.digest y hy d body hput
      exact ⟨r, hkeep hfind, hsha⟩
    · obtain ⟨r, hfind, hsha⟩ := digest_of_put heffect hput
      exact ⟨r, hkeep hfind, hsha⟩
  · rcases key_of_effect heffect hobject with hold | ⟨d, r, hfind, hkey⟩
    · obtain ⟨d, r, hfind, hkey⟩ := h.keys backend key hold
      exact ⟨d, r, hkeep hfind, hkey⟩
    · exact ⟨d, r, hkeep hfind, hkey⟩
  · rw [lastPut_append]
    rcases find_cases heffect hfind with hold | ⟨hnone, payload, hrequest, -, -⟩
    · rw [store_of_effect heffect hold, h.objects d r hold]
    · have hput : ∀ body, ¬ x.Put d body := fun body hx => by cases hrequest.symm.trans hx.1
      obtain ⟨hstore, hlastPut⟩ := h.unrecorded hnone backend r.tenantId
      rw [Exchange.putTo_eq_none hput, hlastPut]
      cases hobject : w'.store backend (storageKey r.tenantId d) with
      | none => rfl
      | some object =>
        rcases key_of_effect heffect (Option.isSome_of_eq_some hobject) with
          hsome | ⟨d', r', hfind', hkey⟩
        · rw [hstore] at hsome
          cases hsome
        · obtain ⟨-, rfl⟩ := storageKey_injective hkey
          rw [hnone] at hfind'
          cases hfind'

theorem stored_of_run (h : Run (Serves P) World.empty xs w) : Stored P xs w :=
  h.history stored_empty fun _ _ _ _ hstored hserve => hstored.step hserve

theorem store_of_downloaded (hserve : Serves P w x w') {d : UUID} {response : StreamingResponse}
    (hx : x.Downloaded d response) : ∃ r, DocumentRepository.find w d = some r ∧
      (w.store (getObjectStorage P x.inp) (storageKey r.tenantId d)).map (·.1) =
        some response.data := by
  obtain ⟨inp, headers, context, request, answer⟩ := x
  obtain ⟨rfl, rfl⟩ := hx
  obtain ⟨a, hdown, ha⟩ := run_map_eq_ok.mp hserve
  cases ha
  obtain ⟨r, hfind, hstore, -⟩ := downloadDocument_ok hdown
  exact ⟨r, hfind, hstore⟩

end Stored

/-! ## An example run -/

def examplePayload : DocumentIngestRequest := exampleIngest "env" "plan.pdf" .internal []

def exampleIngested : Exchange :=
  ⟨exampleInputs 1, exampleHeaders, exampleContext, .ingestDocument examplePayload,
    .ok (.record (newRecord (exampleInputs 1) examplePayload))⟩

/-- An upload that reaches MinIO, or does not. -/
def exampleUploaded (reachable : Bool) : Exchange :=
  ⟨{ exampleInputs 2 with minioReachable := reachable }, exampleHeaders, exampleContext,
    .uploadDocumentContent 7 exampleBytes,
    .ok (.json (.obj [("document_id", .str (strUuid 7)), ("bytes_stored", intJson 3),
      ("sha256", .str exampleSha256)]))⟩

def exampleDownload (answer : Except HTTPException ApiResponse) : Exchange :=
  ⟨exampleInputs 3, exampleHeaders, exampleContext, .downloadDocument 7, answer⟩

/-- What a download of the example document returns. -/
def exampleResponse : StreamingResponse :=
  ⟨exampleBytes, "application/pdf", contentDisposition "plan.pdf"⟩

noncomputable def Exchange.after (x : Exchange) (w : World) : World :=
  final ((handle examplePlatform x.inp x.headers x.context x.request).run w)

noncomputable def exampleState (reachable : Bool) : World :=
  (exampleUploaded reachable).after (exampleIngested.after World.empty)

theorem run_examplePayload :
    (ingestDocument examplePlatform (exampleInputs 1) exampleHeaders exampleContext
      examplePayload).run World.empty =
        .ok (newRecord (exampleInputs 1) examplePayload) (exampleIngested.after World.empty) := by
  rfl

theorem exampleIngested_run : Run (Serves examplePlatform) World.empty [exampleIngested]
    (exampleIngested.after World.empty) :=
  .snoc .nil (run_map_eq_ok.mpr ⟨_, run_examplePayload, rfl⟩)

theorem exampleState_run (reachable : Bool) : Run (Serves examplePlatform) World.empty
    [exampleIngested, exampleUploaded reachable] (exampleState reachable) := by
  have hsecond : Serves examplePlatform (exampleIngested.after World.empty)
      (exampleUploaded reachable) (exampleState reachable) := by
    cases reachable <;> rfl
  exact exampleIngested_run.snoc hsecond

theorem exampleState_fresh : Fresh (exampleInputs 3) (exampleState true) := by
  have hids : (exampleState true).audit.events.rows.map AuditEventORM.id = [1, 2] := rfl
  rw [Fresh, hids]
  decide

/-! ## Downloads -/

/-- Download integrity: in every run, a download that succeeds returns bytes whose
digest is the one recorded when the document was ingested, and which an earlier upload
of the same document stored. Keys of different documents differ. -/
theorem download_integrity (P : Platform) {xs : List Exchange} {w : World}
    (hrun : Run (Serves P) World.empty xs w) {x : Exchange} {w' : World} (hserve : Serves P w x w')
    {d : UUID} {response : StreamingResponse} (hx : x.Downloaded d response) :
    (∃ y ∈ xs, ∃ payload, y.request = .ingestDocument payload ∧ y.inp.documentId = d ∧
      P.sha256Hex response.data = payload.sha256) ∧
    (∀ y ∈ xs, ∀ record, y.Ingested record → record.id = d →
      P.sha256Hex response.data = record.sha256) ∧
    (∃ y ∈ xs, y.Put d response.data) ∧
    ∀ tenantId tenantId' documentId documentId',
      storageKey tenantId documentId = storageKey tenantId' documentId' →
        tenantId = tenantId' ∧ documentId = documentId' := by
  have hstored := stored_of_run hrun
  obtain ⟨r, hfind, hobject⟩ := store_of_downloaded hserve hx
  rw [hstored.objects d r hfind] at hobject
  obtain ⟨y, hy, hput, -⟩ := exists_of_lastPut hobject
  have hdigest : P.sha256Hex response.data = r.sha256 := by
    obtain ⟨r', hfind', hsha⟩ := hstored.digest y hy d _ hput
    rw [hsha, Option.some.inj (hfind'.symm.trans hfind)]
  refine ⟨?_, fun z hz record hrecord hid => ?_, ⟨y, hy, hput⟩,
    fun _ _ _ _ => storageKey_injective⟩
  · obtain ⟨z, hz, payload, hrequest, hid, hsha⟩ := hstored.recorded d r hfind
    exact ⟨z, hz, payload, hrequest, hid, hdigest.trans hsha⟩
  · obtain ⟨r', hfind', hsha'⟩ := hstored.ingested z hz record hrecord
    obtain rfl : r' = r := Option.some.inj ((hid ▸ hfind').symm.trans hfind)
    exact hdigest.trans hsha'

theorem download_integrity_run :
    ∃ y ∈ [exampleIngested, exampleUploaded true], y.Put 7 exampleBytes := by
  have hserve : Serves examplePlatform (exampleState true)
      (exampleDownload (.ok (.stream exampleResponse))) _ := rfl
  exact (download_integrity examplePlatform (exampleState_run true) hserve ⟨rfl, rfl⟩).2.2.1

/-- A trace id that is too long for its column. -/
def longTraceId : String := String.ofList (List.replicate 256 'a')

theorem not_varchar_longTraceId : ¬ varchar 255 longTraceId := by
  have hlength : ∀ n, 255 < n → ¬ varchar 255 (String.ofList (List.replicate n 'a')) := by
    intro n hn hfits
    simp only [varchar, String.length_ofList, List.length_replicate, Bool.and_eq_true,
      decide_eq_true_eq] at hfits
    omega
  exact hlength 256 (by decide)

def exampleRefused : Exchange :=
  ⟨exampleInputs 2, ⟨none, some longTraceId⟩, exampleContext,
    .uploadDocumentContent 7 exampleBytes, .error internalServerError⟩

def exampleRecord : DocumentRecord :=
  DocumentRepository.toDomain (DocumentRepository.toOrm .postgresql
    (newRecord (exampleInputs 1) examplePayload))

noncomputable def exampleRefusedState : World :=
  (exampleIngested.after World.empty).withObject .minio (storageKey exampleRecord.tenantId 7)
    exampleBytes exampleRecord.contentType

theorem exampleRefused_serves :
    Serves examplePlatform (exampleIngested.after World.empty) exampleRefused
      exampleRefusedState := by
  have hfind : DocumentRepository.find (exampleIngested.after World.empty) 7 =
      some exampleRecord := rfl
  have hallowed : (evaluateAbac exampleContext "document:upload" exampleRecord.tenantId
      exampleRecord.classification exampleRefused.headers.purpose).allowed := by
    show (evaluateAbac exampleContext "document:upload" "env" .internal "case-review").allowed
    decide
  have hrefused : ¬ Recordable examplePlatform exampleRefused.headers exampleContext
      exampleRecord.tenantId := fun hrecord => not_varchar_longTraceId (hrecord rfl).2.2.2
  have hput := run_uploadDocumentContent_refused examplePlatform exampleRefused.inp
    exampleRefused.headers hfind hallowed (show ¬ exampleBytes.isEmpty by decide)
    (show ¬ exampleBytes.length > maxUploadBytes by decide) rfl hrefused
  have hminio : getObjectStorage examplePlatform exampleRefused.inp = .minio := rfl
  rw [hminio] at hput
  exact serves_of_upload_error hput

/-- What a failed upload stored can be downloaded. -/
theorem download_of_refused_upload :
    Run (Serves examplePlatform) World.empty [exampleIngested, exampleRefused]
      exampleRefusedState ∧
    (∃ w', Serves examplePlatform exampleRefusedState
      (exampleDownload (.ok (.stream exampleResponse))) w') ∧
    ∀ y ∈ [exampleIngested, exampleRefused], ∀ body, ¬ y.Uploaded 7 body := by
  refine ⟨exampleIngested_run.snoc exampleRefused_serves, ⟨_, rfl⟩, fun y hy body hup => ?_⟩
  rcases List.mem_pair.mp hy with rfl | rfl
  · cases hup.1
  · obtain ⟨-, response, hanswer⟩ := hup
    cases hanswer

/-- A download that the policy allows returns the bytes of every acknowledged upload of the
document exactly where the last upload that went to the backend selected now had these
bytes, the content type can be sent as a header, and the columns take the audit event. -/
theorem download_returns_uploads_iff (P : Platform) {xs : List Exchange} {w : World}
    (hrun : Run (Serves P) World.empty xs w) {inp : Inputs} {headers : Headers}
    {context : TenantContext} {d : UUID} {r : DocumentRecord} (hfresh : Fresh inp w)
    (hfind : DocumentRepository.find w d = some r)
    (hallowed : (evaluateAbac context "document:download" r.tenantId r.classification
      headers.purpose).allowed)
    (hup : ∃ y ∈ xs, ∃ body, y.Uploaded d body) :
    (∀ y ∈ xs, ∀ body, y.Uploaded d body → ∃ response v,
      (downloadDocument P inp headers context d).run w = .ok response v ∧
        response.data = body) ↔
    (∀ y ∈ xs, ∀ body, y.Uploaded d body →
      lastPut P (getObjectStorage P inp) d xs = some body) ∧
    isLatin1 r.contentType ∧ Recordable P headers context r.tenantId := by
  have hobject := (stored_of_run hrun).objects d r hfind (getObjectStorage P inp)
  simp only [run_downloadDocument_iff hfresh hfind hallowed, hobject]
  constructor
  · intro hall
    obtain ⟨y, hy, body, hbody⟩ := hup
    exact ⟨fun z hz body hz' => (hall z hz body hz').1, (hall y hy body hbody).2⟩
  · rintro ⟨hlast, hsent⟩ y hy body hbody
    exact ⟨hlast y hy body hbody, hsent⟩

/-- While the requests select one backend throughout, an acknowledged upload can be
downloaded, if no other body of its digest was stored. -/
theorem download_of_steady_backend (P : Platform) {xs : List Exchange} {w : World}
    (hrun : Run (Serves P) World.empty xs w) {inp : Inputs} {headers : Headers}
    {context : TenantContext} {d : UUID} {r : DocumentRecord} (hfresh : Fresh inp w)
    (hfind : DocumentRepository.find w d = some r)
    (hallowed : (evaluateAbac context "document:download" r.tenantId r.classification
      headers.purpose).allowed)
    (hlatin : isLatin1 r.contentType) (hrecord : Recordable P headers context r.tenantId)
    (hsteady : ∀ y ∈ xs, getObjectStorage P y.inp = getObjectStorage P inp) {x : Exchange}
    (hx : x ∈ xs) {body : Bytes} (hup : x.Uploaded d body)
    (hdigest : ∀ y ∈ xs, ∀ body', y.Put d body' → P.sha256Hex body' = P.sha256Hex body →
      body' = body) :
    ∃ response v, (downloadDocument P inp headers context d).run w = .ok response v ∧
      response.data = body := by
  have hstored := stored_of_run hrun
  have hput := Exchange.put_of_uploaded hup
  refine (run_downloadDocument_iff hfresh hfind hallowed body).mpr ⟨?_, hlatin, hrecord⟩
  rw [hstored.objects d r hfind]
  obtain ⟨body', hlast⟩ := Option.isSome_iff_exists.mp (lastPut_isSome hx hput (hsteady x hx))
  obtain ⟨y, hy, hput', -⟩ := exists_of_lastPut hlast
  obtain ⟨r₁, hfind₁, hsha⟩ := hstored.digest x hx d body hput
  obtain ⟨r₂, hfind₂, hsha'⟩ := hstored.digest y hy d body' hput'
  obtain rfl : r₂ = r₁ := Option.some.inj (hfind₂.symm.trans hfind₁)
  rw [hlast, hdigest y hy body' hput' (hsha'.trans hsha.symm)]

/-- What was uploaded while MinIO was away is gone when it is back. -/
theorem upload_lost_after_outage :
    Run (Serves examplePlatform) World.empty [exampleIngested, exampleUploaded false]
      (exampleState false) ∧
    (exampleUploaded false).Uploaded 7 exampleBytes ∧
    Serves examplePlatform (exampleState false)
      (exampleDownload (.error ⟨404, "document_content_not_uploaded"⟩)) (exampleState false) ∧
    ∃ r, DocumentRepository.find (exampleState false) 7 = some r ∧
      (evaluateAbac exampleContext "document:download" r.tenantId r.classification
        exampleHeaders.purpose).allowed :=
  ⟨exampleState_run false, ⟨rfl, _, rfl⟩, rfl, _, rfl, rfl⟩

/-- While MinIO stays reachable the upload can be downloaded. -/
theorem download_returns_uploads_run :
    ∃ response v, (downloadDocument examplePlatform (exampleInputs 3) exampleHeaders exampleContext
      7).run (exampleState true) = .ok response v ∧ response.data = exampleBytes := by
  have hup : (exampleUploaded true).Uploaded 7 exampleBytes := ⟨rfl, _, rfl⟩
  have hmem : exampleUploaded true ∈ [exampleIngested, exampleUploaded true] := by simp
  have hallowed : (evaluateAbac exampleContext "document:download" "env" .internal
      exampleHeaders.purpose).allowed := by decide
  refine (download_returns_uploads_iff examplePlatform (exampleState_run true)
    exampleState_fresh rfl hallowed ⟨_, hmem, _, hup⟩).mpr
      ⟨fun y hy body hbody => ?_, rfl, fun _ => by decide⟩ _ hmem _ hup
  rcases List.mem_pair.mp hy with rfl | rfl
  · cases hbody.1
  · cases hbody.1
    rfl

end GoAnalyze
