import GoAnalyze.Proofs.ColumnBounds
import GoAnalyze.Spec.Ledger

/-! What a request writes, in five cases. -/

namespace GoAnalyze

open Sql AuditRepository Frames

/-! ## What a request asks for -/

namespace Exchange

variable (P : Platform) (x : Exchange)

/-- The entry in the trail that an event of the request leaves. -/
def audited (tenantId action resourceType resourceId : String) : AuditEntry where
  id := x.inp.eventId
  tenantId := tenantId
  actor := x.context.actor
  action := action
  resourceType := resourceType
  resourceId := resourceId
  purpose := x.headers.purpose
  traceId := x.headers.traceId
  timestamp := storedDateTime P.dialect x.inp.eventTime

/-- The entry that the request leaves where it succeeds, for the endpoints that log. -/
def logEntry (records : UUID → Option DocumentRecord) : Option AuditEntry :=
  let onDocument := fun action documentId => (records documentId).map fun record =>
    x.audited P record.tenantId action "document" (strUuid documentId)
  match x.request with
  | .ingestDocument payload =>
    some (x.audited P payload.tenantId "document.ingested" "document" (strUuid x.inp.documentId))
  | .processDocument documentId => onDocument "document.pipeline_completed" documentId
  | .ragAnswer _ citations => some (x.audited P x.context.tenantId "rag.answer_generated"
      "rag_query" (ragResourceId citations))
  | .environmentalReview payload => some (x.audited P payload.tenantId
      "environmental_review.completed" "case" (strUuid payload.caseId))
  | .uploadDocumentContent documentId _ => onDocument "document.content_uploaded" documentId
  | .downloadDocument documentId => onDocument "document.downloaded" documentId
  | .submitSetupConfiguration _ | .assignCase _ _ | .listAudit _ _ | .searchDocuments .. => none

/-- The stored form of the record that an ingest makes. -/
def registered (payload : DocumentIngestRequest) : DocumentRecord :=
  DocumentRepository.toDomain (DocumentRepository.toOrm P.dialect (newRecord x.inp payload))

/-- What the request does to the ledger where it succeeds. -/
def intent (records : UUID → Option DocumentRecord) : Ledger.Action :=
  match x.request with
  | .ingestDocument payload => .register (x.registered P payload) (x.logEntry P records)
  | .assignCase caseId skill => .assign (assignmentRow x.inp x.context caseId skill)
  | .uploadDocumentContent documentId body =>
    .store (getObjectStorage P x.inp) documentId body (x.logEntry P records)
  | _ => ((x.logEntry P records).map .log).getD .nothing

/-- The caller may do what the request asks for. -/
def Authorized (records : UUID → Option DocumentRecord) : Prop :=
  let onDocument := fun action documentId => ∃ record, records documentId = some record ∧
    (evaluateAbac x.context action record.tenantId record.classification x.headers.purpose).allowed
  match x.request with
  | .ingestDocument payload => (evaluateAbac x.context "document:ingest" payload.tenantId
      payload.classification x.headers.purpose).allowed
  | .processDocument documentId => onDocument "document:process" documentId
  | .uploadDocumentContent documentId _ => onDocument "document:upload" documentId
  | .downloadDocument documentId => onDocument "document:download" documentId
  | .ragAnswer _ citations => ∀ citation ∈ citations, ∃ record,
      records citation.documentId = some record ∧
      ¬ (record.tenantId ≠ x.context.tenantId ∧ "platform-admin" ∉ x.context.roles) ∧
      ¬ (record.classification = .protectedB ∧ "protected-b-reader" ∉ x.context.roles)
  | .environmentalReview payload =>
      ¬ (x.context.tenantId ≠ payload.tenantId ∧ "platform-admin" ∉ x.context.roles)
  | .assignCase _ _ =>
      ¬ ("case-manager" ∉ x.context.roles ∧ "tenant-admin" ∉ x.context.roles)
  | .submitSetupConfiguration _ | .listAudit _ _ | .searchDocuments .. => True

/-- The tenant whose rows and objects the request writes. -/
def target (records : UUID → Option DocumentRecord) : String :=
  match x.request with
  | .ingestDocument payload => payload.tenantId
  | .environmentalReview payload => payload.tenantId
  | .processDocument documentId | .uploadDocumentContent documentId _
  | .downloadDocument documentId => ((records documentId).map (·.tenantId)).getD ""
  | _ => x.context.tenantId

end Exchange

/-! ## Appends -/

section Endpoints

variable {P : Platform} {inp : Inputs} {headers : Headers} {context : TenantContext} {w w' : World}

def Appended (P : Platform) (event : AuditEvent) (w w' : World) : Prop :=
  ∃ events, w.audit.events.insertChecked (AuditEventORM.fits P.dialect)
    (toOrm P.dialect (w.chained P event)) = some events ∧
    w' = { w with audit := w.auditWith P event events }

theorem append_appends (event : AuditEvent) :
    (∃ a v, (AuditLog.append P event).run w = .ok a v ∧ Appended P event w v) ∨
      (AuditLog.append P event).run w = .error internalServerError w := by
  rw [run_append]
  cases hins : w.audit.events.insertChecked (AuditEventORM.fits P.dialect)
      (toOrm P.dialect (w.chained P event)) with
  | none => exact Or.inr rfl
  | some events => exact Or.inl ⟨_, _, rfl, events, hins, rfl⟩

theorem Appended.documents {event : AuditEvent} (h : Appended P event w w') :
    w'.documents = w.documents := by
  obtain ⟨_, -, rfl⟩ := h
  rfl

theorem Appended.store {event : AuditEvent} (h : Appended P event w w') : w'.store = w.store := by
  obtain ⟨_, -, rfl⟩ := h
  funext backend
  cases backend <;> rfl

theorem Appended.caseAssignments {event : AuditEvent} (h : Appended P event w w') :
    w'.caseAssignments = w.caseAssignments := by
  obtain ⟨_, -, rfl⟩ := h
  rfl

theorem Appended.rows {event : AuditEvent} (h : Appended P event w w') :
    w'.audit.events.rows = w.audit.events.rows ++ [toOrm P.dialect (w.chained P event)] := by
  obtain ⟨_, hins, rfl⟩ := h
  exact Table.rows_insertChecked hins

/-! ## The endpoints that only log -/

/-- A program that fails and changes nothing, or returns, where `p`, and appends an event. -/
def Logs (P : Platform) (inp : Inputs) (headers : Headers) (context : TenantContext) (w : World)
    {α : Type} (m : App α) (p : Prop) (tenantId action resourceType resourceId : String) : Prop :=
  (∃ e, m.run w = .error e w) ∨ p ∧ ∃ details a v, m.run w = .ok a v ∧
    Appended P (newAuditEvent inp headers context tenantId action resourceType resourceId details)
      w v

theorem logs_of_run {α : Type} {m : App α} (m' : App α) {p : Prop}
    {tenantId action resourceType resourceId : String} (hm : m.run w = m'.run w)
    (h : Logs P inp headers context w m' p tenantId action resourceType resourceId) :
    Logs P inp headers context w m p tenantId action resourceType resourceId := by
  simpa only [Logs, hm] using h

theorem logs_append {α : Type} {a : AuditEvent → α} {p : Prop}
    {tenantId action resourceType resourceId : String} (details : Dict) (hp : p) :
    Logs P inp headers context w (AuditLog.append P (newAuditEvent inp headers context tenantId
      action resourceType resourceId details) >>= fun event => pure (a event))
      p tenantId action resourceType resourceId := by
  simp only [Logs, EStateM.run_bind]
  rcases append_appends (P := P) (w := w) (newAuditEvent inp headers context tenantId action
    resourceType resourceId details) with ⟨event, v, happend, h⟩ | happend
  · rw [happend]
    exact Or.inr ⟨hp, details, _, v, rfl, h⟩
  · rw [happend]
    exact Or.inl ⟨_, rfl⟩

theorem ragAnswer_logs (question : String) (citations : List EvidenceCitation) :
    Logs P inp headers context w (ragAnswer P inp headers context question citations)
      (∀ citation ∈ citations, CitationAllowed context w citation) context.tenantId
      "rag.answer_generated" "rag_query" (ragResourceId citations) := by
  obtain ⟨hall, hsome⟩ := run_ragAnswer P inp headers context w question citations
  by_cases hallowed : ∀ citation ∈ citations, CitationAllowed context w citation
  · exact logs_of_run _ (hall hallowed) (logs_append _ hallowed)
  · exact Or.inl (hsome hallowed)

theorem environmentalReview_logs (payload : EnvironmentalReviewRequest) :
    Logs P inp headers context w (environmentalReview P inp headers context payload)
      (¬ (context.tenantId ≠ payload.tenantId ∧ "platform-admin" ∉ context.roles))
      payload.tenantId "environmental_review.completed" "case" (strUuid payload.caseId) := by
  by_cases hpass : context.tenantId ≠ payload.tenantId ∧ "platform-admin" ∉ context.roles
  · left
    simp only [environmentalReview, EStateM.run_bind, run_raiseIf, hpass, not_false_eq_true,
      and_self, ne_eq, decide_true, if_true]
    exact ⟨_, rfl⟩
  · refine logs_of_run _ ?_ (logs_append (a := fun _ => (listedReview P w payload).modelDump)
      [("risk_score", scoreJson (listedReview P w payload).riskScore),
        ("recommendation", .str (listedReview P w payload).recommendation)] hpass)
    simp only [environmentalReview, EStateM.run_bind, run_raiseIf, hpass, decide_false,
      Bool.false_eq_true, if_false, run_getMany]
    rfl

theorem processDocument_logs (d : UUID) :
    (∃ e, (processDocument P inp headers context d).run w = .error e w) ∨
    ∃ record, DocumentRepository.find w d = some record ∧
      Logs P inp headers context w (processDocument P inp headers context d)
        (evaluateAbac context "document:process" record.tenantId record.classification
          headers.purpose).allowed
        record.tenantId "document.pipeline_completed" "document" (strUuid d) := by
  rcases fetchAllowed_cases "document:process" d with ⟨e, -, he⟩ | ⟨record, hfind, hallowed, hrun⟩
  · refine Or.inl ⟨e, ?_⟩
    rw [processDocument, EStateM.run_bind, he]
  · obtain rfl : record.id = d := find_id hfind
    refine Or.inr ⟨record, hfind, logs_of_run (IngestionPipeline.run P record nullOcrEngine none
      inp context.actor headers.traceId headers.purpose) ?_ ?_⟩
    · rw [processDocument, EStateM.run_bind, hrun]
    · simp only [IngestionPipeline.run, IngestionPipeline.runText]
      split
      · exact Or.inl ⟨_, rfl⟩
      · exact logs_append _ hallowed

/-! ## The endpoints that write more -/

theorem assignCase_cases (caseId : UUID) (skill : String) :
    (∃ e, (assignCase P inp context caseId skill).run w = .error e w) ∨
    ¬ ("case-manager" ∉ context.roles ∧ "tenant-admin" ∉ context.roles) ∧
      ∃ response, (assignCase P inp context caseId skill).run w = .ok response
        { w with caseAssignments := w.caseAssignments ++ [assignmentRow inp context caseId skill] } := by
  by_cases hrole : "case-manager" ∉ context.roles ∧ "tenant-admin" ∉ context.roles
  · left
    simp only [assignCase, EStateM.run_bind, run_raiseIf, hrole, not_false_eq_true, and_self,
      decide_true, if_true]
    exact ⟨_, rfl⟩
  · have hassign : AssignmentEngine.assign inp.assignTime caseId skill
        [("analyst-1", 3), ("analyst-2", 1)] =
          { caseId := caseId, assignee := "analyst-2", queue := skill ++ "-review"
            dueAt := inp.assignTime.addDays 5, escalationAt := inp.assignTime.addDays 4
            status := .technicalReview } := rfl
    simp only [assignCase, hassign, CaseRepository.createAssignment, EStateM.run_bind, run_raiseIf,
      hrole, decide_false, Bool.false_eq_true, if_false]
    cases hfits : (assignmentRow inp context caseId skill).fits P.dialect with
    | false =>
      rw [assignmentRow] at hfits
      simp only [hfits, Bool.not_false, if_true]
      exact Or.inl ⟨_, rfl⟩
    | true =>
      rw [assignmentRow] at hfits
      simp only [hfits, Bool.not_true, Bool.false_eq_true, if_false]
      exact Or.inr ⟨not_false, _, rfl⟩

theorem downloadDocument_cases (d : UUID) :
    (∃ e, (downloadDocument P inp headers context d).run w = .error e w) ∨
    ∃ record details v, DocumentRepository.find w d = some record ∧
      (evaluateAbac context "document:download" record.tenantId record.classification
        headers.purpose).allowed ∧
      Appended P (newAuditEvent inp headers context record.tenantId "document.downloaded"
        "document" (strUuid d) details) w v ∧
      ((∃ response, (downloadDocument P inp headers context d).run w = .ok response v) ∨
        (downloadDocument P inp headers context d).run w = .error internalServerError v) := by
  rcases fetchAllowed_cases "document:download" d with ⟨e, -, he⟩ | ⟨record, hfind, hallowed, hrun⟩
  · refine Or.inl ⟨e, ?_⟩
    rw [downloadDocument, EStateM.run_bind, he]
  obtain rfl : record.id = d := find_id hfind
  simp only [downloadDocument, EStateM.run_bind, hrun, run_objectGet]
  cases w.store (getObjectStorage P inp) (storageKey record.tenantId record.id) with
  | none => exact Or.inl ⟨_, rfl⟩
  | some object =>
    simp only [Option.map_some, EStateM.run_bind]
    rcases append_appends (P := P) (w := w) (newAuditEvent inp headers context record.tenantId
      "document.downloaded" "document" (strUuid record.id) [("bytes", intJson object.1.length)])
      with ⟨a, v, happend, h⟩ | happend
    · refine Or.inr ⟨record, _, v, hfind, hallowed, h, ?_⟩
      simp only [happend, run_raiseIf]
      cases isLatin1 record.contentType with
      | false => exact Or.inr rfl
      | true => exact Or.inl ⟨_, rfl⟩
    · rw [happend]
      exact Or.inl ⟨_, rfl⟩

theorem uploadDocumentContent_logs (d : UUID) (body : Bytes) :
    (∃ e, (uploadDocumentContent P inp headers context d body).run w = .error e w) ∨
    ∃ record, DocumentRepository.find w d = some record ∧
      (evaluateAbac context "document:upload" record.tenantId record.classification
        headers.purpose).allowed ∧ P.sha256Hex body = record.sha256 ∧
      ((uploadDocumentContent P inp headers context d body).run w = .error internalServerError
          (w.withObject (getObjectStorage P inp) (storageKey record.tenantId d) body
            record.contentType) ∨
        ∃ details response v,
          (uploadDocumentContent P inp headers context d body).run w = .ok response v ∧
          Appended P (newAuditEvent inp headers context record.tenantId
              "document.content_uploaded" "document" (strUuid d) details)
            (w.withObject (getObjectStorage P inp) (storageKey record.tenantId d) body
              record.contentType) v) := by
  rcases fetchAllowed_cases "document:upload" d with ⟨e, -, he⟩ | ⟨record, hfind, hallowed, hrun⟩
  · refine Or.inl ⟨e, ?_⟩
    rw [uploadDocumentContent, EStateM.run_bind, he]
  by_cases hempty : body.isEmpty
  · left
    simp only [uploadDocumentContent, EStateM.run_bind, hrun, run_raiseIf, hempty, if_true]
    exact ⟨_, rfl⟩
  by_cases hlarge : body.length > maxUploadBytes
  · left
    simp only [uploadDocumentContent, EStateM.run_bind, hrun, run_raiseIf, hempty, hlarge,
      decide_true, if_true, Bool.false_eq_true, if_false]
    exact ⟨_, rfl⟩
  by_cases hdigest : P.sha256Hex body = record.sha256
  swap
  · left
    simp only [uploadDocumentContent, EStateM.run_bind, hrun, run_raiseIf, hempty, hlarge, hdigest,
      ne_eq, not_false_eq_true, decide_true, decide_false, Bool.false_eq_true, if_false, if_true]
    exact ⟨_, rfl⟩
  refine Or.inr ⟨record, hfind, hallowed, hdigest, ?_⟩
  rw [run_uploadDocumentContent P inp headers hfind hallowed hempty hlarge hdigest]
  rcases append_appends (P := P) (newAuditEvent inp headers context record.tenantId
      "document.content_uploaded" "document" (strUuid d) [("bytes", intJson body.length)]) with
    ⟨a, v, happend, h⟩ | happend
  · rw [happend]
    exact Or.inr ⟨_, _, v, rfl, h⟩
  · rw [happend]
    exact Or.inl rfl

/-- The state with the row and the index entry of an ingest. -/
def World.withDocument (w : World) (inp : Inputs) (record : DocumentRecord)
    (documents : Table DocumentORM.id) : World :=
  { w with documents := documents, searchIndex := w.indexWith inp record }

theorem ingestDocument_logs (payload : DocumentIngestRequest) :
    (∃ e, (ingestDocument P inp headers context payload).run w = .error e w) ∨
    (evaluateAbac context "document:ingest" payload.tenantId payload.classification
      headers.purpose).allowed ∧
    ∃ documents, w.documents.insertChecked (DocumentORM.fits P.dialect)
        (DocumentRepository.toOrm P.dialect (newRecord inp payload)) = some documents ∧
      ((ingestDocument P inp headers context payload).run w = .error internalServerError
          (w.withDocument inp (newRecord inp payload) documents) ∨
        ∃ v, (ingestDocument P inp headers context payload).run w =
            .ok (newRecord inp payload) v ∧
          Appended P (ingestedEvent inp headers context (newRecord inp payload))
            (w.withDocument inp (newRecord inp payload) documents) v) := by
  by_cases hallowed : (evaluateAbac context "document:ingest" payload.tenantId
      payload.classification headers.purpose).allowed
  swap
  · exact Or.inl (run_ingestDocument_refused (Or.inl hallowed))
  cases hins : w.documents.insertChecked (DocumentORM.fits P.dialect)
      (DocumentRepository.toOrm P.dialect (newRecord inp payload)) with
  | none => exact Or.inl (run_ingestDocument_refused (Or.inr hins))
  | some documents =>
    refine Or.inr ⟨hallowed, documents, rfl, ?_⟩
    rw [run_ingestDocument hallowed hins]
    rcases append_appends (P := P) (w := w.withDocument inp (newRecord inp payload) documents)
      (ingestedEvent inp headers context (newRecord inp payload)) with ⟨a, v, happend, h⟩ | happend
    · rw [World.withDocument] at happend
      rw [happend]
      exact Or.inr ⟨v, rfl, h⟩
    · rw [World.withDocument] at happend
      rw [happend]
      exact Or.inl rfl

end Endpoints

/-! ## The inversion -/

/-- What one request does: to the state, to its answer, and to the ledger. -/
inductive Outcome (P : Platform) (w : World) (x : Exchange) (w' : World) : Prop where
  | nothing (state : w' = w)
      (answer : (∃ e, x.answer = .error e) ∨ x.Authorized (DocumentRepository.find w) ∧
        x.intent P (DocumentRepository.find w) = .nothing)
  | logged (tenantId action resourceType resourceId : String) (details : Dict)
      (authorized : x.Authorized (DocumentRepository.find w))
      (tenant : x.target (DocumentRepository.find w) = tenantId)
      (intent : x.intent P (DocumentRepository.find w) =
        .log (x.audited P tenantId action resourceType resourceId))
      (appended : Appended P (newAuditEvent x.inp x.headers x.context tenantId action resourceType
        resourceId details) w w')
      (answer : (∃ response, x.answer = .ok response) ∨
        (∃ d, x.request = .downloadDocument d) ∧ x.answer = .error internalServerError)
  | assigned (caseId : UUID) (skill : String) (request : x.request = .assignCase caseId skill)
      (authorized : x.Authorized (DocumentRepository.find w))
      (state : w' = { w with
        caseAssignments := w.caseAssignments ++ [assignmentRow x.inp x.context caseId skill] })
      (answer : ∃ response, x.answer = .ok response)
  | registered (payload : DocumentIngestRequest) (request : x.request = .ingestDocument payload)
      (authorized : x.Authorized (DocumentRepository.find w)) (documents : Table DocumentORM.id)
      (inserted : w.documents.insertChecked (DocumentORM.fits P.dialect)
        (DocumentRepository.toOrm P.dialect (newRecord x.inp payload)) = some documents)
      (logged : (w' = w.withDocument x.inp (newRecord x.inp payload) documents ∧
          x.answer = .error internalServerError) ∨
        Appended P (ingestedEvent x.inp x.headers x.context (newRecord x.inp payload))
            (w.withDocument x.inp (newRecord x.inp payload) documents) w' ∧
          ∃ response, x.answer = .ok response)
  | stored (d : UUID) (body : Bytes) (record : DocumentRecord)
      (request : x.request = .uploadDocumentContent d body)
      (authorized : x.Authorized (DocumentRepository.find w))
      (found : DocumentRepository.find w d = some record)
      (digest : P.sha256Hex body = record.sha256)
      (logged : (w' = w.withObject (getObjectStorage P x.inp) (storageKey record.tenantId d) body
            record.contentType ∧ x.answer = .error internalServerError) ∨
        (∃ details, Appended P (newAuditEvent x.inp x.headers x.context record.tenantId
            "document.content_uploaded" "document" (strUuid d) details)
          (w.withObject (getObjectStorage P x.inp) (storageKey record.tenantId d) body
            record.contentType) w') ∧ ∃ response, x.answer = .ok response)

section Serves

variable {P : Platform} {inp : Inputs} {headers : Headers} {context : TenantContext} {w w' : World}
  {answer : Except HTTPException ApiResponse}

theorem outcome_of_unchanged {x : Exchange} (hserve : Serves P w x w')
    (hauthorized : ∀ records, x.Authorized records)
    (hintent : ∀ records, x.intent P records = .nothing)
    (hframe : Frame Eq (handle P x.inp x.headers x.context x.request)) : Outcome P w x w' := by
  have hfinal := hframe w
  rw [show (handle P x.inp x.headers x.context x.request).run w = resultOf x.answer w' from hserve,
    final_resultOf] at hfinal
  exact .nothing hfinal.symm (Or.inr ⟨hauthorized _, hintent _⟩)

theorem outcome_of_logs {α : Type} {request : ApiRequest} {m : App α} {f : α → ApiResponse}
    {p : Prop} {tenantId action resourceType resourceId : String}
    (hserve : Serves P w ⟨inp, headers, context, request, answer⟩ w')
    (hhandle : handle P inp headers context request = m >>= fun a => pure (f a))
    (hlogs : Logs P inp headers context w m p tenantId action resourceType resourceId)
    (hauthorized : p → Exchange.Authorized ⟨inp, headers, context, request, answer⟩
      (DocumentRepository.find w))
    (htenant : Exchange.target ⟨inp, headers, context, request, answer⟩
      (DocumentRepository.find w) = tenantId)
    (hintent : Exchange.intent P ⟨inp, headers, context, request, answer⟩
      (DocumentRepository.find w) = .log (Exchange.audited P
        ⟨inp, headers, context, request, answer⟩ tenantId action resourceType resourceId)) :
    Outcome P w ⟨inp, headers, context, request, answer⟩ w' := by
  have hrun : (handle P inp headers context request).run w = resultOf answer w' := hserve
  rw [hhandle, EStateM.run_bind] at hrun
  rcases hlogs with ⟨e, he⟩ | ⟨hp, details, a, v, ha, happended⟩
  · rw [he] at hrun
    obtain ⟨rfl, rfl⟩ := resultOf_eq_error.mp hrun.symm
    exact .nothing rfl (Or.inl ⟨e, rfl⟩)
  · rw [ha] at hrun
    obtain ⟨rfl, rfl⟩ := resultOf_eq_ok.mp hrun.symm
    exact .logged tenantId action resourceType resourceId details (hauthorized hp) htenant hintent
      happended (Or.inl ⟨_, rfl⟩)

theorem outcome_of_processDocument {d : UUID}
    (hserve : Serves P w ⟨inp, headers, context, .processDocument d, answer⟩ w') :
    Outcome P w ⟨inp, headers, context, .processDocument d, answer⟩ w' := by
  rcases processDocument_logs d with ⟨e, he⟩ | ⟨record, hfind, hlogs⟩
  · have hrun : (handle P inp headers context (.processDocument d)).run w = resultOf answer w' :=
      hserve
    rw [handle, EStateM.run_bind, he] at hrun
    obtain ⟨rfl, rfl⟩ := resultOf_eq_error.mp hrun.symm
    exact .nothing rfl (Or.inl ⟨e, rfl⟩)
  · refine outcome_of_logs hserve rfl hlogs (fun hallowed => ⟨record, hfind, hallowed⟩) ?_ ?_
    · simp only [Exchange.target, hfind, Option.map_some, Option.getD_some]
    · simp only [Exchange.intent, Exchange.logEntry, hfind, Option.map_some, Option.getD_some]

theorem outcome_of_assignCase {caseId : UUID} {skill : String}
    (hserve : Serves P w ⟨inp, headers, context, .assignCase caseId skill, answer⟩ w') :
    Outcome P w ⟨inp, headers, context, .assignCase caseId skill, answer⟩ w' := by
  have hrun : (handle P inp headers context (.assignCase caseId skill)).run w =
    resultOf answer w' := hserve
  rw [handle, EStateM.run_bind] at hrun
  rcases assignCase_cases caseId skill with ⟨e, he⟩ | ⟨hrole, response, hok⟩
  · rw [he] at hrun
    obtain ⟨rfl, rfl⟩ := resultOf_eq_error.mp hrun.symm
    exact .nothing rfl (Or.inl ⟨e, rfl⟩)
  · rw [hok] at hrun
    obtain ⟨rfl, rfl⟩ := resultOf_eq_ok.mp hrun.symm
    exact .assigned caseId skill rfl hrole rfl ⟨_, rfl⟩

theorem outcome_of_downloadDocument {d : UUID}
    (hserve : Serves P w ⟨inp, headers, context, .downloadDocument d, answer⟩ w') :
    Outcome P w ⟨inp, headers, context, .downloadDocument d, answer⟩ w' := by
  have hrun : (handle P inp headers context (.downloadDocument d)).run w = resultOf answer w' :=
    hserve
  rw [handle, EStateM.run_bind] at hrun
  rcases downloadDocument_cases d with
    ⟨e, he⟩ | ⟨record, details, v, hfind, hallowed, happended, hanswer⟩
  · rw [he] at hrun
    obtain ⟨rfl, rfl⟩ := resultOf_eq_error.mp hrun.symm
    exact .nothing rfl (Or.inl ⟨e, rfl⟩)
  have hstate : w' = v ∧ ((∃ response, answer = .ok response) ∨
      (∃ d', ApiRequest.downloadDocument d = .downloadDocument d') ∧
        answer = .error internalServerError) := by
    rcases hanswer with ⟨response, hok⟩ | herror
    · rw [hok] at hrun
      obtain ⟨rfl, rfl⟩ := resultOf_eq_ok.mp hrun.symm
      exact ⟨rfl, Or.inl ⟨_, rfl⟩⟩
    · rw [herror] at hrun
      obtain ⟨rfl, rfl⟩ := resultOf_eq_error.mp hrun.symm
      exact ⟨rfl, Or.inr ⟨⟨d, rfl⟩, rfl⟩⟩
  obtain ⟨rfl, hanswered⟩ := hstate
  refine .logged _ _ _ _ details ⟨record, hfind, hallowed⟩ ?_ ?_ happended hanswered
  · simp only [Exchange.target, hfind, Option.map_some, Option.getD_some]
  · simp only [Exchange.intent, Exchange.logEntry, hfind, Option.map_some, Option.getD_some]

theorem outcome_of_uploadDocumentContent {d : UUID} {body : Bytes}
    (hserve : Serves P w ⟨inp, headers, context, .uploadDocumentContent d body, answer⟩ w') :
    Outcome P w ⟨inp, headers, context, .uploadDocumentContent d body, answer⟩ w' := by
  have hrun : (handle P inp headers context (.uploadDocumentContent d body)).run w =
    resultOf answer w' := hserve
  rw [handle, EStateM.run_bind] at hrun
  rcases uploadDocumentContent_logs d body with
    ⟨e, he⟩ | ⟨record, hfind, hallowed, hdigest, herror | ⟨details, response, v, hok, happended⟩⟩
  · rw [he] at hrun
    obtain ⟨rfl, rfl⟩ := resultOf_eq_error.mp hrun.symm
    exact .nothing rfl (Or.inl ⟨e, rfl⟩)
  · rw [herror] at hrun
    obtain ⟨rfl, rfl⟩ := resultOf_eq_error.mp hrun.symm
    exact .stored d body record rfl ⟨record, hfind, hallowed⟩ hfind hdigest (Or.inl ⟨rfl, rfl⟩)
  · rw [hok] at hrun
    obtain ⟨rfl, rfl⟩ := resultOf_eq_ok.mp hrun.symm
    exact .stored d body record rfl ⟨record, hfind, hallowed⟩ hfind hdigest
      (Or.inr ⟨⟨details, happended⟩, _, rfl⟩)

theorem outcome_of_ingestDocument {payload : DocumentIngestRequest}
    (hserve : Serves P w ⟨inp, headers, context, .ingestDocument payload, answer⟩ w') :
    Outcome P w ⟨inp, headers, context, .ingestDocument payload, answer⟩ w' := by
  have hrun : (handle P inp headers context (.ingestDocument payload)).run w =
    resultOf answer w' := hserve
  rw [handle, EStateM.run_bind] at hrun
  rcases ingestDocument_logs payload with
    ⟨e, he⟩ | ⟨hallowed, documents, hins, herror | ⟨v, hok, happended⟩⟩
  · rw [he] at hrun
    obtain ⟨rfl, rfl⟩ := resultOf_eq_error.mp hrun.symm
    exact .nothing rfl (Or.inl ⟨e, rfl⟩)
  · rw [herror] at hrun
    obtain ⟨rfl, rfl⟩ := resultOf_eq_error.mp hrun.symm
    exact .registered payload rfl hallowed documents hins (Or.inl ⟨rfl, rfl⟩)
  · rw [hok] at hrun
    obtain ⟨rfl, rfl⟩ := resultOf_eq_ok.mp hrun.symm
    exact .registered payload rfl hallowed documents hins (Or.inr ⟨happended, _, rfl⟩)

end Serves

theorem outcome_of_serves {P : Platform} {w w' : World} {x : Exchange} (h : Serves P w x w') :
    Outcome P w x w' := by
  obtain ⟨inp, headers, context, request, answer⟩ := x
  cases request with
  | ingestDocument payload => exact outcome_of_ingestDocument h
  | uploadDocumentContent d body => exact outcome_of_uploadDocumentContent h
  | downloadDocument d => exact outcome_of_downloadDocument h
  | processDocument d => exact outcome_of_processDocument h
  | assignCase caseId skill => exact outcome_of_assignCase h
  | ragAnswer question citations =>
    exact outcome_of_logs h rfl (ragAnswer_logs question citations) id rfl rfl
  | environmentalReview payload =>
    exact outcome_of_logs h rfl (environmentalReview_logs payload) id rfl rfl
  | submitSetupConfiguration payload =>
    exact outcome_of_unchanged h (fun _ => trivial) (fun _ => rfl)
      ((Frame.pure _).bind fun _ => Frame.pure _)
  | listAudit page pageSize =>
    exact outcome_of_unchanged h (fun _ => trivial) (fun _ => rfl)
      ((frame_listAudit page pageSize).bind fun _ => Frame.pure _)
  | searchDocuments q page pageSize classification contentType =>
    exact outcome_of_unchanged h (fun _ => trivial) (fun _ => rfl)
      ((frame_searchDocuments q page pageSize classification contentType).bind
        fun _ => Frame.pure _)

end GoAnalyze
