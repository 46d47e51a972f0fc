import GoAnalyze.Lib.Turns
import GoAnalyze.Proofs.LiveApi
import GoAnalyze.Proofs.UploadProgress

/-! What the upload page says of its uploads holds at the API, whatever the other clients do
and whichever responses are lost. -/

namespace GoAnalyze

open EventLoop Runs JsonExchange

/-! ## What the ledger says of an upload -/

/-- A record as the database gives it back. -/
def DocumentRecord.kept (P : Platform) (record : DocumentRecord) : DocumentRecord :=
  DocumentRepository.toDomain (DocumentRepository.toOrm P.dialect record)

/-- The trail has an entry for an action on the document. -/
def Ledger.Logs (L : Ledger) (record : DocumentRecord) (action : String) : Prop :=
  ∃ entry ∈ L.trail, entry.action = action ∧ entry.resourceType = "document" ∧
    entry.resourceId = strUuid record.id ∧ entry.tenantId = record.tenantId

/-- The record is what was read of a payload that the page made of the file. -/
structure Registered (P : Platform) (B : JsonWire) (defaultTenantId : String) (L : Ledger)
    (record : DocumentRecord) (file : File) : Prop where
  sent : ∃ form, (ingestPayload defaultTenantId form file (P.sha256Hex file.bytes)).received
    B.pydantic = some record.toDocumentIngestRequest
  kept : L.records record.id = some (record.kept P)
  logged : L.Logs record "document.ingested"

structure Uploaded (P : Platform) (L : Ledger) (record : DocumentRecord) (file : File) : Prop where
  content : ∃ backend body, L.contents backend record.id = some body ∧
    P.sha256Hex body = P.sha256Hex file.bytes
  logged : L.Logs record "document.content_uploaded"

section Grows

variable {P : Platform} {B : JsonWire} {defaultTenantId : String} {L L' : Ledger}
  {record : DocumentRecord} {file : File}

theorem Ledger.Logs.grows {action : String} (h : L.Logs record action) (hgrows : L.Grows L') :
    L'.Logs record action := by
  obtain ⟨entry, hentry, hsame⟩ := h
  exact ⟨entry, hgrows.trail.subset hentry, hsame⟩

theorem Registered.grows (h : Registered P B defaultTenantId L record file)
    (hgrows : L.Grows L') : Registered P B defaultTenantId L' record file :=
  ⟨h.sent, hgrows.records _ _ h.kept, h.logged.grows hgrows⟩

theorem Registered.digest (h : Registered P B defaultTenantId L record file) :
    record.sha256 = P.sha256Hex file.bytes := by
  obtain ⟨form, hsent⟩ := h.sent
  obtain ⟨caseId, -, hread⟩ := Option.bind_eq_some_iff.mp hsent
  split_ifs at hread
  exact (congrArg DocumentIngestRequest.sha256 (Option.some.inj hread)).symm

end Grows

section Served

variable {P : Platform} {a : Arrival} {w : World}

theorem served_ingest (h : Reached P w) (payload : DocumentIngestRequest)
    {response : ApiResponse} (hok : (serve P a (.ingestDocument payload) w).1 = .ok response) :
    response = .record (newRecord a.inp payload) ∧
      (serve P a (.ingestDocument payload) w).2.ledger.records a.inp.documentId =
        some ((newRecord a.inp payload).kept P) ∧
      (serve P a (.ingestDocument payload) w).2.ledger.Logs (newRecord a.inp payload)
        "document.ingested" := by
  obtain ⟨-, happly⟩ := h.applies (.ingestDocument payload) hok
  obtain ⟨-, hledger⟩ := Ledger.apply_register_eq_some.mp happly
  refine ⟨?_, ?_, ?_⟩
  · have hanswer : (serve P a (.ingestDocument payload) w).1 =
        match (ingestDocument P a.inp a.headers a.context payload).run w with
        | .ok record _ => .ok (.record record)
        | .error e _ => .error e := by
      simp only [serve, handle, EStateM.run_bind]
      cases (ingestDocument P a.inp a.headers a.context payload).run w <;> rfl
    rw [hanswer] at hok
    rcases ingestDocument_cases payload with ⟨e, he⟩ | ⟨v, -, -, hrun | hrun⟩
    · rw [he] at hok
      cases hok
    · rw [hrun] at hok
      exact (Except.ok.inj hok).symm
    · rw [hrun] at hok
      cases hok
  · rw [hledger]
    exact Function.update_self _ _ _
  · exact ⟨_, mem_trail_of_served h hok rfl, rfl, rfl, rfl, rfl⟩

theorem logEntry_of_found {x : Exchange} {records : UUID → Option DocumentRecord} {d : UUID}
    {record : DocumentRecord} {action : String} (hfind : records d = some record)
    (hrequest : action = "document.pipeline_completed" ∧ x.request = .processDocument d ∨
      action = "document.content_uploaded" ∧ ∃ body, x.request = .uploadDocumentContent d body) :
    x.logEntry P records = some (x.audited P record.tenantId action "document" (strUuid d)) := by
  rcases hrequest with ⟨rfl, hrequest⟩ | ⟨rfl, body, hrequest⟩ <;>
    simp only [Exchange.logEntry, hrequest, hfind, Option.map_some]

section Kept

variable {record : DocumentRecord} {response : ApiResponse}
  (hkept : w.ledger.records record.id = some (record.kept P))
include hkept

theorem served_upload (h : Reached P w) {file : File}
    (hok : (serve P a (.uploadDocumentContent record.id file.bytes) w).1 = .ok response) :
    Uploaded P (serve P a (.uploadDocumentContent record.id file.bytes) w).2.ledger record
      file := by
  constructor
  · obtain ⟨-, hledger⟩ := Ledger.apply_store_eq_some.mp (h.applies _ hok).2
    refine ⟨getObjectStorage P a.inp, file.bytes, ?_, rfl⟩
    rw [hledger]
    exact if_pos ⟨rfl, rfl⟩
  · exact ⟨_, mem_trail_of_served h hok (logEntry_of_found hkept (Or.inr ⟨rfl, _, rfl⟩)),
      rfl, rfl, rfl, rfl⟩

theorem served_process (h : Reached P w)
    (hok : (serve P a (.processDocument record.id) w).1 = .ok response) :
    (serve P a (.processDocument record.id) w).2.ledger.Logs record
      "document.pipeline_completed" :=
  ⟨_, mem_trail_of_served h hok (logEntry_of_found hkept (Or.inl ⟨rfl, rfl⟩)), rfl, rfl, rfl, rfl⟩

end Kept

/-- The content of a registered record keeps the digest, whoever stores it again. -/
theorem Uploaded.grows {L L' : Ledger} {record : DocumentRecord} {file : File}
    (h : Uploaded P L record file) (hkept : L'.records record.id = some (record.kept P))
    (hdigest : record.sha256 = P.sha256Hex file.bytes) (hsound : L'.Sound P.sha256Hex)
    (hgrows : L.Grows L') : Uploaded P L' record file := by
  refine ⟨?_, h.logged.grows hgrows⟩
  obtain ⟨backend, body, hbody, -⟩ := h.content
  obtain ⟨body', hbody'⟩ := Option.isSome_iff_exists.mp
    (hgrows.contents backend record.id (Option.isSome_of_eq_some hbody))
  obtain ⟨found, hfound, hsame⟩ := hsound backend record.id body' hbody'
  cases hkept.symm.trans hfound
  exact ⟨backend, body', hbody', hsame.trans hdigest⟩

end Served

/-! ## What a run knows -/

section Page

variable (P : Platform) (B : JsonWire) (defaultTenantId : String)

/-- What the page says of the record that it shows as uploaded holds at the API. -/
def LivePage.Truthful (s : LivePage) : Prop :=
  ∀ record, s.form.uploaded = some record → ∃ file, s.form.recordFile = some file ∧
    Registered P B defaultTenantId s.world.ledger record file ∧
    Uploaded P s.world.ledger record file ∧
    (s.form.steps.process = .done → s.world.ledger.Logs record "document.pipeline_completed")

/-- The record of the form, if it has one, is that of the run. -/
def LivePage.Owns (s : LivePage) (documentId : UUID) (file : File) : Prop :=
  ∀ record, s.form.record = some record → record.id = documentId ∧
    s.form.recordFile = some file ∧ Registered P B defaultTenantId s.world.ledger record file

/-- What the run knows while it waits. -/
def LivePage.Knows (s : LivePage) : UploadOp → Prop
  | .digest _ => True
  | .ingest payload file =>
    ∃ form, payload = ingestPayload defaultTenantId form file (P.sha256Hex file.bytes)
  | .uploadContent documentId file => s.Owns P B defaultTenantId documentId file
  | .process documentId => ∃ file, s.Owns P B defaultTenantId documentId file

/-- What a reply says of the API. -/
def LivePage.Learns (s : LivePage) : (op : UploadOp) → UploadReply op → Prop
  | .digest file, reply => ∀ bytes, reply = some bytes →
    String.ofList (bytes.flatMap fun b => JsonText.hex 2 b.toNat) = P.sha256Hex file.bytes
  | .ingest _ file, reply => ∀ record, reply = .ok record →
    Registered P B defaultTenantId s.world.ledger record file
  | .uploadContent _ file, reply => ∀ result, reply = .ok result → ∀ record,
    s.form.record = some record → Uploaded P s.world.ledger record file
  | .process _, reply => ∀ result, reply = .ok result → ∀ record,
    s.form.record = some record → s.world.ledger.Logs record "document.pipeline_completed"

structure LivePage.Waits (op : UploadOp) (s : LivePage) : Prop where
  busy : s.form.busy
  reached : Reached P s.world
  truthful : s.Truthful P B defaultTenantId
  knows : s.Knows P B defaultTenantId op

def uploadTurns : Turns LivePage UploadOp UploadReply where
  free s := Reached P s.world ∧ s.Truthful P B defaultTenantId
  held := LivePage.Waits P B defaultTenantId
  replies op r s := s.Learns P B defaultTenantId op r

end Page

section Runs

variable {P : Platform} {B : JsonWire} {defaultTenantId : String}

/-! ### One segment -/

theorem LivePage.Truthful.withForm {s : LivePage} (h : s.Truthful P B defaultTenantId)
    {form : UploadState} (hrecord : form.record = s.form.record)
    (hfile : form.recordFile = s.form.recordFile)
    (hcontent : form.steps.content = .done → s.form.steps.content = .done)
    (hprocess : form.steps.process = .done → s.form.steps.process = .done) :
    LivePage.Truthful P B defaultTenantId { s with form := form } := by
  intro record hshown
  have hshown' : s.form.uploaded = some record := by
    rw [UploadState.uploaded] at hshown ⊢
    split_ifs at hshown with hdone
    rw [if_pos (hcontent hdone), ← hrecord, hshown]
  obtain ⟨file, hfile', hregistered, huploaded, hdone⟩ := h record hshown'
  exact ⟨file, hfile.trans hfile', hregistered, huploaded, fun h => hdone (hprocess h)⟩

theorem truthful_of_uploaded_none {s : LivePage} (h : s.form.uploaded = none) :
    s.Truthful P B defaultTenantId := by
  intro record hshown
  rw [h] at hshown
  cases hshown

theorem free_failed {op : UploadOp} {s : LivePage} (h : s.Waits P B defaultTenantId op)
    (message : String) :
    (uploadTurns P B defaultTenantId).free { s with form := s.form.fail message } :=
  ⟨h.reached, h.truthful.withForm rfl rfl fail_eq_done_iff.mp fail_eq_done_iff.mp⟩

theorem waits_begin {s : LivePage} (hreached : Reached P s.world)
    (h : s.Truthful P B defaultTenantId) (file : File) :
    LivePage.Waits P B defaultTenantId (.digest file) { s with form := s.form.begin } :=
  ⟨rfl, hreached, h.withForm rfl rfl id id, trivial⟩

theorem waits_ingested {payload : IngestPayload} {file : File} {s : LivePage}
    (h : s.Waits P B defaultTenantId (.ingest payload file)) {record : DocumentRecord}
    (hreply : Registered P B defaultTenantId s.world.ledger record file) :
    LivePage.Waits P B defaultTenantId (.uploadContent record.id file)
      { s with form := s.form.ingested file record } := by
  refine ⟨h.busy, h.reached, truthful_of_uploaded_none rfl, fun record' hrecord => ?_⟩
  cases hrecord
  exact ⟨rfl, rfl, hreply⟩

theorem truthful_contentDone {documentId : UUID} {file : File} {s : LivePage}
    (h : s.Waits P B defaultTenantId (.uploadContent documentId file))
    (hreply : ∀ record, s.form.record = some record →
      Uploaded P s.world.ledger record file) (autoProcess : Bool) :
    LivePage.Truthful P B defaultTenantId
      { s with form := s.form.contentDone autoProcess } := by
  intro record hshown
  have hrecord : s.form.record = some record := by
    rwa [UploadState.uploaded, UploadState.contentDone, if_pos rfl] at hshown
  obtain ⟨-, hfile, hregistered⟩ := h.knows record hrecord
  refine ⟨file, hfile, hregistered, hreply record hrecord, fun hdone => ?_⟩
  cases autoProcess <;> exact StepStatus.noConfusion hdone

theorem waits_contentDone {documentId : UUID} {file : File} {s : LivePage}
    (h : s.Waits P B defaultTenantId (.uploadContent documentId file))
    (hreply : ∀ record, s.form.record = some record →
      Uploaded P s.world.ledger record file) :
    LivePage.Waits P B defaultTenantId (.process documentId)
      { s with form := s.form.contentDone true } :=
  ⟨h.busy, h.reached, truthful_contentDone h hreply true, file, h.knows⟩

theorem free_finish {s : LivePage} (hreached : Reached P s.world)
    (h : s.Truthful P B defaultTenantId) :
    (uploadTurns P B defaultTenantId).free { s with form := s.form.finish } :=
  ⟨hreached, h.withForm rfl rfl id id⟩

theorem free_processDone {documentId : UUID} {s : LivePage}
    (h : s.Waits P B defaultTenantId (.process documentId))
    (hreply : ∀ record, s.form.record = some record →
      s.world.ledger.Logs record "document.pipeline_completed") :
    (uploadTurns P B defaultTenantId).free { s with form := s.form.processDone.finish } := by
  refine ⟨h.reached, fun record hshown => ?_⟩
  obtain ⟨file, hfile, hregistered, huploaded, -⟩ := h.truthful record hshown
  refine ⟨file, hfile, hregistered, huploaded, fun _ => hreply record ?_⟩
  rw [UploadState.uploaded] at hshown
  split_ifs at hshown
  exact hshown

theorem inTurn_uploadFile (form : UploadState) (file : File) {s : LivePage}
    (hreached : Reached P s.world) (h : s.Truthful P B defaultTenantId) :
    ((uploadFile defaultTenantId form file).zoom LivePage.formOf id fun _ r => r).InTurn
      (uploadTurns P B defaultTenantId) s := by
  obtain ⟨form, auto, rfl⟩ : ∃ form' auto, form = { form' with autoProcess := auto } :=
    ⟨form, form.autoProcess, rfl⟩
  refine ⟨waits_begin hreached h file, fun r s₁ h₁ hdigest => ?_⟩
  cases r with
  | none => exact free_failed h₁ _
  | some digest =>
    refine ⟨⟨h₁.busy, h₁.reached, h₁.truthful, _, congrArg _ (hdigest _ rfl)⟩,
      fun r s₂ h₂ hingest => ?_⟩
    cases r with
    | error e => exact free_failed h₂ _
    | ok record =>
      refine ⟨waits_ingested h₂ (hingest record rfl), fun r s₃ h₃ hcontent => ?_⟩
      cases r with
      | error e => exact free_failed h₃ _
      | ok result =>
        cases auto with
        | false =>
          exact free_finish h₃.reached (truthful_contentDone h₃ (hcontent result rfl) false)
        | true =>
          refine ⟨waits_contentDone h₃ (hcontent result rfl), fun r s₄ h₄ hprocess => ?_⟩
          cases r with
          | error e => exact free_failed h₄ _
          | ok result => exact free_processDone h₄ (hprocess result rfl)

theorem inTurn_clickUpload {s : LivePage} (h : (uploadTurns P B defaultTenantId).free s) :
    ((clickUpload defaultTenantId).zoom LivePage.formOf id fun _ r => r).InTurn
      (uploadTurns P B defaultTenantId) s := by
  have hclick : ((clickUpload defaultTenantId).zoom LivePage.formOf id fun _ r => r).InTurn
      (uploadTurns P B defaultTenantId) s =
        ((if s.form.canUpload then runUpload defaultTenantId else return () : UploadTask Unit).zoom
          LivePage.formOf id fun _ r => r).InTurn (uploadTurns P B defaultTenantId) s := rfl
  rw [hclick]
  split_ifs with hcan
  · cases hfile : s.form.file with
    | none => simp [UploadState.canUpload, hfile] at hcan
    | some file =>
      obtain ⟨⟨form, world⟩, rfl⟩ : ∃ s', s = s' := ⟨s, rfl⟩
      obtain ⟨form, rfl⟩ : ∃ form', form = { form' with file := some file } :=
        ⟨form, by rw [← hfile]⟩
      exact inTurn_uploadFile _ file h.1 h.2
  · exact h

/-! ### Requests -/

theorem LivePage.Owns.grows {s : LivePage} {documentId : UUID} {file : File} {w : World}
    (h : s.Owns P B defaultTenantId documentId file) (hgrows : s.world.ledger.Grows w.ledger) :
    LivePage.Owns P B defaultTenantId { s with world := w } documentId file := by
  intro record hrecord
  obtain ⟨hid, hfile, hregistered⟩ := h record hrecord
  exact ⟨hid, hfile, hregistered.grows hgrows⟩

theorem LivePage.Truthful.grows {s : LivePage} (h : s.Truthful P B defaultTenantId) {w : World}
    (hreached : Reached P w) (hgrows : s.world.ledger.Grows w.ledger) :
    LivePage.Truthful P B defaultTenantId { s with world := w } := by
  intro record hshown
  obtain ⟨file, hfile, hregistered, huploaded, hdone⟩ := h record hshown
  have hregistered' := hregistered.grows hgrows
  exact ⟨file, hfile, hregistered', huploaded.grows hregistered'.kept hregistered'.digest
    hreached.sound hgrows, fun hprocess => (hdone hprocess).grows hgrows⟩

theorem LivePage.Waits.grows {op : UploadOp} {s : LivePage}
    (h : s.Waits P B defaultTenantId op) {w : World} (hreached : Reached P w)
    (hgrows : s.world.ledger.Grows w.ledger) :
    LivePage.Waits P B defaultTenantId op { s with world := w } := by
  refine ⟨h.busy, hreached, h.truthful.grows hreached hgrows, ?_⟩
  have hknows := h.knows
  cases op with
  | digest file => trivial
  | ingest payload file => exact hknows
  | uploadContent documentId file => exact LivePage.Owns.grows hknows hgrows
  | process documentId =>
    obtain ⟨file, howns⟩ := hknows
    exact ⟨file, howns.grows hgrows⟩

theorem waits_served {op : UploadOp} {s : LivePage} (h : s.Waits P B defaultTenantId op)
    (a : Arrival) (request : ApiRequest) : LivePage.Waits P B defaultTenantId op
      { s with world := (serve P a request s.world).2 } := by
  obtain ⟨hreached, hgrows⟩ := h.reached.served a request
  exact h.grows hreached hgrows

theorem registered_of_ingest {s : LivePage} {payload : IngestPayload} {file : File}
    (h : s.Waits P B defaultTenantId (.ingest payload file)) {a : Arrival}
    {body : DocumentIngestRequest} (hbody : payload.received B.pydantic = some body)
    {record : DocumentRecord} {result : Payload}
    (hreply : B.reply "/v1/documents" (serve P a (.ingestDocument body) s.world).1 = .ok result)
    (hread : responseBody B.numbers record.json =
      some (B.response (serve P a (.ingestDocument body) s.world).1).body) :
    Registered P B defaultTenantId (serve P a (.ingestDocument body) s.world).2.ledger record
      file := by
  obtain ⟨response, text, hok, hwritten, -⟩ := answered_of_reply hreply
  obtain ⟨rfl, hkept, hlogged⟩ := served_ingest h.reached body hok
  rw [hok, response_ok hwritten] at hread
  rw [B.body_record] at hwritten
  obtain rfl : newRecord a.inp body = record := record_of_body hwritten hread
  obtain ⟨form, rfl⟩ := h.knows
  exact ⟨⟨form, hbody⟩, hkept, hlogged⟩

theorem learns_ingest {s s' : LivePage} {payload : IngestPayload} {file : File}
    (h : s.Waits P B defaultTenantId (.ingest payload file)) {d : Delivery}
    {reply : Except RequestError DocumentRecord}
    (hanswer : s.ingest P B payload d = some (reply, s')) :
    s'.Waits P B defaultTenantId (.ingest payload file) ∧
      s'.Learns P B defaultTenantId (.ingest payload file) reply := by
  cases d with
  | digested _ | served _ => cases hanswer
  | unserved e =>
    cases hanswer
    exact ⟨h, fun record hreply => by cases hreply⟩
  | ingested a record =>
    simp only [LivePage.ingest, readJsonBody_jsonBody, Option.bind_some, Option.bind_eq_bind,
      documentIngestRequest_json] at hanswer
    obtain ⟨body, hbody, hanswer⟩ := Option.bind_eq_some_iff.mp hanswer
    split at hanswer
    · cases hanswer
      exact ⟨waits_served h a _, fun record hreply => by cases hreply⟩
    · next result hreply =>
      split_ifs at hanswer with hread
      cases hanswer
      refine ⟨waits_served h a _, fun record' hrecord => ?_⟩
      cases hrecord
      exact registered_of_ingest h hbody hreply hread

theorem waits_request {op : UploadOp} {s s' : LivePage} (h : s.Waits P B defaultTenantId op)
    {path : String} {request : ApiRequest} {d : Delivery} {reply : Except RequestError Payload}
    (hanswer : s.request P B path request d = some (reply, s')) :
    s'.Waits P B defaultTenantId op ∧ ∀ result, reply = .ok result →
      ∃ a, B.reply path (serve P a request s.world).1 = .ok result ∧
        s' = { s with world := (serve P a request s.world).2 } := by
  cases d with
  | digested _ | ingested _ _ => cases hanswer
  | unserved e =>
    cases hanswer
    exact ⟨h, fun result hreply => by cases hreply⟩
  | served a =>
    cases hanswer
    exact ⟨waits_served h a request, fun result hreply => ⟨a, hreply, rfl⟩⟩

theorem learns_of_answer {op : UploadOp} {s s' : LivePage} (h : s.Waits P B defaultTenantId op)
    {d : Delivery} {reply : UploadReply op} (hanswer : s.answer P B d op = some (reply, s')) :
    s'.Waits P B defaultTenantId op ∧ s'.Learns P B defaultTenantId op reply := by
  cases op with
  | digest file =>
    cases d with
    | ingested _ _ | served _ | unserved _ => cases hanswer
    | digested digest =>
      obtain ⟨hdigest, heq⟩ := Option.ite_none_right_eq_some.mp hanswer
      cases heq
      exact ⟨h, hdigest⟩
  | ingest payload file => exact learns_ingest h hanswer
  | uploadContent documentId file =>
    obtain ⟨hwaits, hreply⟩ := waits_request h hanswer
    refine ⟨hwaits, fun result hok record hrecord => ?_⟩
    obtain ⟨a, hserved, rfl⟩ := hreply result hok
    obtain ⟨rfl, -, hregistered⟩ := h.knows record hrecord
    obtain ⟨response, -, hresponse, -⟩ := answered_of_reply hserved
    exact served_upload hregistered.kept h.reached hresponse
  | process documentId =>
    obtain ⟨hwaits, hreply⟩ := waits_request h hanswer
    refine ⟨hwaits, fun result hok record hrecord => ?_⟩
    obtain ⟨a, hserved, rfl⟩ := hreply result hok
    obtain ⟨file, howns⟩ := h.knows
    obtain ⟨rfl, -, hregistered⟩ := howns record hrecord
    obtain ⟨response, -, hresponse, -⟩ := answered_of_reply hserved
    exact served_process hregistered.kept h.reached hresponse

/-! ### Events -/

theorem event_cases {form form' : UploadState} {e : UploadEvent} (he : form.event e = some form') :
    (form'.record = none ∧ (form'.busy = form.busy ∨ form.busy = false)) ∨
      form'.record = form.record ∧ form'.recordFile = form.recordFile ∧
        form'.steps = form.steps ∧ form'.busy = form.busy := by
  cases e with
  | pick file =>
    cases file with
    | none =>
      cases he
      exact Or.inr ⟨rfl, rfl, rfl, rfl⟩
    | some file =>
      cases he
      exact Or.inl ⟨rfl, Or.inl rfl⟩
  | remove =>
    rw [UploadState.event] at he
    split_ifs at he with hcan
    cases he
    refine Or.inl ⟨rfl, Or.inr ?_⟩
    simpa [UploadState.canRemove] using (Bool.and_eq_true_iff.mp hcan).2
  | setTenantId _ | setCaseId _ | setClassification _ | setDescription _ | setAutoProcess _ =>
    cases he
    exact Or.inr ⟨rfl, rfl, rfl, rfl⟩

theorem truthful_event {s : LivePage} (h : s.Truthful P B defaultTenantId) {form : UploadState}
    {e : UploadEvent} (he : s.form.event e = some form) :
    LivePage.Truthful P B defaultTenantId { s with form := form } := by
  rcases event_cases he with ⟨hnone, -⟩ | ⟨hrecord, hfile, hsteps, -⟩
  · refine truthful_of_uploaded_none ?_
    simp only [UploadState.uploaded, hnone, ite_self]
  · exact h.withForm hrecord hfile (fun h => hsteps ▸ h) fun h => hsteps ▸ h

theorem owns_event {s : LivePage} {documentId : UUID} {file : File}
    (h : s.Owns P B defaultTenantId documentId file) {form : UploadState} {e : UploadEvent}
    (he : s.form.event e = some form) :
    LivePage.Owns P B defaultTenantId { s with form := form } documentId file := by
  intro record hrecord
  rcases event_cases he with ⟨hnone, -⟩ | ⟨hsame, hfile, -, -⟩
  · cases hnone.symm.trans hrecord
  · obtain ⟨hid, hfile', hregistered⟩ := h record (hsame.symm.trans hrecord)
    exact ⟨hid, hfile.trans hfile', hregistered⟩

theorem waits_event {op : UploadOp} {s : LivePage} (h : s.Waits P B defaultTenantId op)
    {form : UploadState} {e : UploadEvent} (he : s.form.event e = some form) :
    LivePage.Waits P B defaultTenantId op { s with form := form } := by
  have hbusy : form.busy := by
    rcases event_cases he with ⟨-, hbusy | hidle⟩ | ⟨-, -, -, hbusy⟩
    · exact hbusy.trans h.busy
    · cases hidle.symm.trans h.busy
    · exact hbusy.trans h.busy
  refine ⟨hbusy, h.reached, truthful_event h.truthful he, ?_⟩
  have hknows := h.knows
  cases op with
  | digest file => trivial
  | ingest payload file => exact hknows
  | uploadContent documentId file => exact owns_event hknows he
  | process documentId =>
    obtain ⟨file, howns⟩ := hknows
    exact ⟨file, owns_event howns he⟩

/-! ## The page -/

section Page

variable {ι : Type} [DecidableEq ι] {as : List (Label ι Delivery LiveEvent)}
  {l : Loop ι LivePage UploadOp UploadReply Unit}

theorem holds_of_run {s : LivePage} (hreached : Reached P s.world)
    (hs : s.Truthful P B defaultTenantId)
    (h : Run (liveUpload ι P B defaultTenantId).Step (Loop.init s) as l) :
    (uploadTurns P B defaultTenantId).Holds l := by
  refine turns_of_run (fun _ s hs => inTurn_clickUpload hs) (fun _ op s hs => ⟨(), ?_⟩)
    (fun _ op d s reply s' hs hanswer => learns_of_answer hs hanswer) ?_ ⟨hreached, hs⟩ h
  · have hcan : ¬ s.form.canUpload := by simp [UploadState.canUpload, hs.busy]
    change ((if s.form.canUpload then runUpload defaultTenantId else return () :
      UploadTask Unit).zoom LivePage.formOf id fun _ r => r).settle s = _
    rw [if_neg hcan]
    rfl
  · intro e s s' he
    cases e with
    | page e =>
      obtain ⟨form, hform, rfl⟩ := Option.map_eq_some_iff.mp he
      exact ⟨fun h => ⟨h.1, truthful_event h.2 hform⟩, fun op h => waits_event h hform⟩
    | request a request =>
      cases he
      refine ⟨fun h => ?_, fun op h => waits_served h a request⟩
      obtain ⟨hreached, hgrows⟩ := h.1.served a request
      exact ⟨hreached, h.2.grows hreached hgrows⟩

/-- Whatever the user and the other clients do meanwhile, and whichever responses are lost:
the record that the page shows as uploaded is registered as the page has sent it, for the file
that was selected, the digest of that file is the digest of its content, the trail says so,
and where the page shows the processing as done, that as well. -/
theorem uploaded_record_is_kept (P : Platform) (B : JsonWire) (defaultTenantId : String)
    (ι : Type) [DecidableEq ι] (cache : DocumentCache) {w : World} (hw : Reached P w)
    {as : List (Label ι Delivery LiveEvent)} {l : Loop ι LivePage UploadOp UploadReply Unit}
    (h : Run (liveUpload ι P B defaultTenantId).Step
      (Loop.init ⟨UploadState.initial defaultTenantId cache, w⟩) as l)
    {record : DocumentRecord} (hshown : l.memory.form.uploaded = some record) :
    ∃ file, l.memory.form.recordFile = some file ∧
      Registered P B defaultTenantId l.memory.world.ledger record file ∧
      Uploaded P l.memory.world.ledger record file ∧
      (l.memory.form.steps.process = .done →
        l.memory.world.ledger.Logs record "document.pipeline_completed") := by
  have hinit : LivePage.Truthful P B defaultTenantId
      ⟨UploadState.initial defaultTenantId cache, w⟩ := truthful_of_uploaded_none rfl
  rcases (holds_of_run hw hinit h).turn with ⟨-, -, hfree⟩ | ⟨i, op, -, -, hheld⟩
  · exact hfree record hshown
  · exact hheld.truthful record hshown

end Page

/-! ## An example upload -/

section Answered

variable {s : LivePage} {a : Arrival} {w : World}

theorem digest_served {file : File} {digest : Bytes}
    (h : String.ofList (digest.flatMap fun b => JsonText.hex 2 b.toNat) =
      P.sha256Hex file.bytes) :
    s.digest P file (.digested (some digest)) = some (some digest, s) :=
  if_pos fun _ hbytes => Option.some.inj hbytes ▸ h

theorem ingest_served {payload : IngestPayload} {body : DocumentIngestRequest}
    (hbody : payload.received B.pydantic = some body) {record : DocumentRecord}
    (hfinite : record.json.isFinite)
    (hserve : serve P a (.ingestDocument body) s.world = (.ok (.record record), w)) :
    s.ingest P B payload (.ingested a record) = some (.ok record, { s with world := w }) := by
  have hjson : (readJsonBody (jsonBody payload.json)).bind B.pydantic.documentIngestRequest =
      some body := by
    rw [readJsonBody_jsonBody, Option.bind_some, documentIngestRequest_json, hbody]
  rw [← B.body_record] at hfinite
  have hwritten := responseBody_of_finite B.numbers hfinite
  have hsame : responseBody B.numbers record.json =
      some (B.response (.ok (.record record))).body := by
    rw [response_ok hwritten, ← B.body_record, hwritten]
  simp only [LivePage.ingest, hjson, Option.bind_eq_bind, Option.bind_some, hserve,
    reply_ok _ hfinite, if_pos hsame]
  rfl

theorem request_served {path : String} {request : ApiRequest} {response : ApiResponse}
    (hfinite : (B.body response).isFinite)
    (hserve : serve P a request s.world = (.ok response, w)) :
    s.request P B path request (.served a) =
      some (.ok (.json (fromJs (toJs (B.body response)))), { s with world := w }) := by
  rw [LivePage.request, hserve, reply_ok path hfinite]

end Answered

end Runs

def exampleFile : File := ⟨"plan.pdf", "application/pdf", exampleBytes⟩

def exampleDigest : Bytes :=
  [0xba, 0x78, 0x16, 0xbf, 0x8f, 0x01, 0xcf, 0xea, 0x41, 0x41, 0x40, 0xde, 0x5d, 0xae, 0x22, 0x23,
    0xb0, 0x03, 0x61, 0xa3, 0x96, 0x17, 0x7a, 0x9c, 0xb4, 0x10, 0xff, 0x61, 0xf2, 0x00, 0x15, 0xad]

def exampleConfig : ApiConfig where
  apiBaseUrl := "http://localhost:8000"
  apiTimeoutMs := 20000
  readJson := fun _ => none
  readText := fun _ => ""
  syntaxErrorMessage := ""
  typeErrorMessage := ""

def exampleJson : ApiResponse → JsonText.Json
  | .record record => record.json
  | .json j => j
  | _ => .null

def exampleWire : JsonWire where
  numbers := NumberWriter.dumps
  pydantic := hexIds
  config := exampleConfig
  body := exampleJson
  body_record _ := rfl
  body_json _ := rfl

/-- What the page posts for the file. -/
def examplePosted : DocumentIngestRequest :=
  { examplePayload with objectUri := "pending://env/" ++ exampleSha256 ++ "/plan.pdf" }

def exampleArrival (eventId : UUID) : Arrival :=
  ⟨exampleInputs eventId, exampleHeaders, exampleContext⟩

noncomputable def exampleStored : World :=
  (serve examplePlatform (exampleArrival 1) (.ingestDocument examplePosted) World.empty).2

noncomputable def exampleFilled : World :=
  (serve examplePlatform (exampleArrival 2) (.uploadDocumentContent 7 exampleBytes) exampleStored).2

def exampleSteps : List (Label Unit Delivery LiveEvent) :=
  [.event (.page (.pick (some exampleFile))), .call (), .answer () (.digested (some exampleDigest)),
    .answer () (.ingested (exampleArrival 1) (newRecord (exampleInputs 1) examplePosted)),
    .answer () (.served (exampleArrival 2)), .answer () (.served (exampleArrival 3))]

theorem serve_eq_of_ok {P : Platform} {a : Arrival} {request : ApiRequest} {w : World}
    {response : ApiResponse} (h : (serve P a request w).1 = .ok response) :
    serve P a request w = (.ok response, (serve P a request w).2) := by
  rw [← h]

theorem exampleSteps_run : ∃ l : Loop Unit LivePage UploadOp UploadReply Unit,
    Run (liveUpload Unit examplePlatform exampleWire "env").Step
        (Loop.init ⟨UploadState.initial "env" fun _ => none, World.empty⟩) exampleSteps l ∧
      l.memory.form.uploaded = some (newRecord (exampleInputs 1) examplePosted) ∧
      l.memory.form.steps.process = .done := by
  have hdigest : String.ofList (exampleDigest.flatMap fun b => JsonText.hex 2 b.toNat) =
      examplePlatform.sha256Hex exampleFile.bytes := by
    rfl
  have hreceived : (ingestPayload "env" { UploadState.initial "env" fun _ => none with
      file := some exampleFile } exampleFile (String.ofList (exampleDigest.flatMap fun b =>
        JsonText.hex 2 b.toNat))).received hexIds = some examplePosted := by
    rfl
  have hingest : (serve examplePlatform (exampleArrival 1) (.ingestDocument examplePosted)
      World.empty).1 = .ok (.record (newRecord (exampleInputs 1) examplePosted)) := rfl
  obtain ⟨content, hcontent, hfinite⟩ : ∃ response, (serve examplePlatform (exampleArrival 2)
      (.uploadDocumentContent 7 exampleBytes) exampleStored).1 = .ok response ∧
      (exampleJson response).isFinite := ⟨_, rfl, rfl⟩
  obtain ⟨result, hprocess, hfinite'⟩ : ∃ response, (serve examplePlatform (exampleArrival 3)
      (.processDocument 7) exampleFilled).1 = .ok response ∧
      (exampleJson response).isFinite := ⟨_, rfl, rfl⟩
  have hstart : Run (liveUpload Unit examplePlatform exampleWire "env").Step
    (Loop.init ⟨UploadState.initial "env" fun _ => none, World.empty⟩) [] _ := .nil
  have hpicked := hstart.snoc
    (System.Takes.step (.event (e := .page (.pick (some exampleFile))) rfl))
  have hclicked := hpicked.snoc (System.Takes.step (.call (i := ()) rfl))
  have hdigested := hclicked.snoc (System.Takes.step
    (.answer (i := ()) (c := Delivery.digested (some exampleDigest)) rfl (digest_served hdigest)))
  have hingested := hdigested.snoc (System.Takes.step (.answer (i := ())
    (c := Delivery.ingested (exampleArrival 1) (newRecord (exampleInputs 1) examplePosted)) rfl
    (ingest_served hreceived rfl (serve_eq_of_ok hingest))))
  have huploaded := hingested.snoc (System.Takes.step (.answer (i := ())
    (c := Delivery.served (exampleArrival 2)) rfl (request_served hfinite (serve_eq_of_ok hcontent))))
  have hprocessed := huploaded.snoc (System.Takes.step (.answer (i := ())
    (c := Delivery.served (exampleArrival 3)) rfl (request_served hfinite' (serve_eq_of_ok hprocess))))
  exact ⟨_, hprocessed, rfl, rfl⟩

theorem uploaded_record_is_kept_processed :
    ∃ (l : Loop Unit LivePage UploadOp UploadReply Unit) (file : File),
      l.memory.form.recordFile = some file ∧
      Registered examplePlatform exampleWire "env" l.memory.world.ledger
        (newRecord (exampleInputs 1) examplePosted) file ∧
      Uploaded examplePlatform l.memory.world.ledger (newRecord (exampleInputs 1) examplePosted)
        file ∧
      l.memory.world.ledger.Logs (newRecord (exampleInputs 1) examplePosted)
        "document.pipeline_completed" := by
  obtain ⟨l, hrun, hshown, hdone⟩ := exampleSteps_run
  obtain ⟨file, hfile, hregistered, huploaded, hprocessed⟩ := uploaded_record_is_kept
    examplePlatform exampleWire "env" Unit (fun _ => none) ⟨[], .nil⟩ hrun hshown
  exact ⟨l, file, hfile, hregistered, huploaded, hprocessed hdone⟩

end GoAnalyze
