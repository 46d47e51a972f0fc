import GoAnalyze.Proofs.JsonBodies
import GoAnalyze.Proofs.Ledger
import GoAnalyze.Proofs.PipelineRuns
import GoAnalyze.Spec.LiveUpload

/-! The API as the page sees it: a failure has an error status, and a request that succeeds was
answered and has done what it asks for. -/

namespace GoAnalyze

open EventLoop Runs Frames JsonExchange

/-! ## Failures -/

def Rejects (e : HTTPException) : Prop := Auth.isOk e.statusCode = false

section Rejects

variable {P : Platform} {inp : Inputs} {headers : Headers} {context : TenantContext}

theorem raises_raiseIf (c : Bool) {e : HTTPException} (he : Rejects e) :
    Raises Rejects (raiseIf c e) := by
  cases c
  · exact Raises.pure ()
  · exact Raises.throw he

theorem raises_append (event : AuditEvent) : Raises Rejects (AuditLog.append P event) := by
  intro w e v h
  rw [run_append] at h
  split at h
  · cases h
  · cases h
    rfl

theorem raises_fetchAllowed (action : String) (documentId : UUID) :
    Raises Rejects (fetchAllowed headers context action documentId) := by
  refine Raises.bind (Raises.get.bind fun _ => Raises.pure _) fun record => ?_
  cases record with
  | none => exact Raises.throw rfl
  | some record => exact (raises_raiseIf _ (by rfl)).bind fun _ => Raises.pure _

theorem raises_ingestDocument (payload : DocumentIngestRequest) :
    Raises Rejects (ingestDocument P inp headers context payload) := by
  refine (raises_raiseIf _ (by rfl)).bind fun _ => Raises.bind ?_ fun _ => Raises.bind ?_ fun _ =>
    (raises_append _).bind fun _ => Raises.pure _
  · intro w e v h
    rw [run_create] at h
    split at h
    · cases h
    · cases h
      rfl
  · intro w e v h
    rw [run_indexDocument] at h
    cases h

theorem raises_processDocument (documentId : UUID) :
    Raises Rejects (processDocument P inp headers context documentId) := by
  refine (raises_fetchAllowed _ _).bind fun record => ?_
  simp only [IngestionPipeline.run, IngestionPipeline.runText]
  split
  · next e hcompliance =>
    rcases compliance_cases P record _ _ with ⟨-, review, hok, -⟩ | ⟨-, herror⟩
    · cases hok.symm.trans hcompliance
    · cases herror.symm.trans hcompliance
      exact Raises.throw rfl
  · exact (raises_append _).bind fun _ => Raises.pure _

theorem raises_ragAnswer (question : String) (citations : List EvidenceCitation) :
    Raises Rejects (ragAnswer P inp headers context question citations) := by
  refine (Raises.get.bind fun _ => Raises.pure _).bind fun documents =>
    (Raises.forM _ fun citation => ?_).bind fun _ => (raises_append _).bind fun _ => Raises.pure _
  unfold checkCitation
  split
  · exact Raises.throw rfl
  · exact (raises_raiseIf _ (by rfl)).bind fun _ => raises_raiseIf _ (by rfl)

theorem raises_environmentalReview (payload : EnvironmentalReviewRequest) :
    Raises Rejects (environmentalReview P inp headers context payload) :=
  (raises_raiseIf _ (by rfl)).bind fun _ => (Raises.get.bind fun _ => Raises.pure _).bind fun _ =>
    (raises_append _).bind fun _ => Raises.pure _

theorem raises_assignCase (caseId : UUID) (skill : String) :
    Raises Rejects (assignCase P inp context caseId skill) := by
  refine (raises_raiseIf _ (by rfl)).bind fun _ =>
    ((raises_raiseIf _ (by rfl)).bind fun _ => ?_).bind fun _ => Raises.pure _
  intro w e v h
  cases h

theorem raises_checkPage (page pageSize : ℤ) : Raises Rejects (checkPage page pageSize) :=
  (raises_raiseIf _ (by rfl)).bind fun _ => raises_raiseIf _ (by rfl)

theorem raises_searchDocuments (q : String) (page pageSize : ℤ)
    (classification contentType : Option String) : Raises Rejects
      (searchDocuments P inp context q page pageSize classification contentType) := by
  refine (raises_checkPage _ _).bind fun _ => Raises.get.bind fun w => ?_
  dsimp only
  split
  · exact Raises.pure _
  · exact ((raises_raiseIf _ (by rfl)).bind fun _ => Raises.get.bind fun _ => Raises.pure _).bind
      fun _ => Raises.pure _

theorem raises_listAudit (page pageSize : ℤ) :
    Raises Rejects (listAudit P context page pageSize) := by
  refine (raises_checkPage _ _).bind fun _ =>
    Raises.bind (Raises.get.bind fun w => ?_) fun _ => Raises.pure _
  split
  · exact Raises.pure _
  · exact Raises.throw rfl

theorem raises_uploadDocumentContent (documentId : UUID) (body : Bytes) :
    Raises Rejects (uploadDocumentContent P inp headers context documentId body) := by
  refine (raises_fetchAllowed _ _).bind fun record => (raises_raiseIf _ (by rfl)).bind fun _ =>
    (raises_raiseIf _ (by rfl)).bind fun _ => (raises_raiseIf _ (by rfl)).bind fun _ =>
      Raises.bind ?_ fun _ => (raises_append _).bind fun _ => Raises.pure _
  intro w e v h
  rw [run_objectPut] at h
  cases h

theorem raises_downloadDocument (documentId : UUID) :
    Raises Rejects (downloadDocument P inp headers context documentId) := by
  refine (raises_fetchAllowed _ _).bind fun record =>
    (Raises.get.bind fun _ => Raises.pure _).bind fun content => ?_
  cases content with
  | none => exact Raises.throw rfl
  | some data =>
    exact (raises_append _).bind fun _ => (raises_raiseIf _ (by rfl)).bind fun _ => Raises.pure _

theorem raises_handle (request : ApiRequest) :
    Raises Rejects (handle P inp headers context request) := by
  cases request with
  | ingestDocument payload => exact (raises_ingestDocument payload).bind fun _ => Raises.pure _
  | submitSetupConfiguration payload => exact (Raises.pure _).bind fun _ => Raises.pure _
  | processDocument d => exact (raises_processDocument d).bind fun _ => Raises.pure _
  | ragAnswer question citations =>
    exact (raises_ragAnswer question citations).bind fun _ => Raises.pure _
  | environmentalReview payload =>
    exact (raises_environmentalReview payload).bind fun _ => Raises.pure _
  | assignCase caseId skill => exact (raises_assignCase caseId skill).bind fun _ => Raises.pure _
  | listAudit page pageSize => exact (raises_listAudit page pageSize).bind fun _ => Raises.pure _
  | searchDocuments q page pageSize classification contentType =>
    exact (raises_searchDocuments q page pageSize classification contentType).bind
      fun _ => Raises.pure _
  | uploadDocumentContent d body =>
    exact (raises_uploadDocumentContent d body).bind fun _ => Raises.pure _
  | downloadDocument d => exact (raises_downloadDocument d).bind fun _ => Raises.pure _

end Rejects

theorem request_refused (config : ApiConfig) (path : String) {response : FetchResponse}
    (h : Auth.isOk response.status = false) :
    ∃ e, request config path (.response response) = .error e := by
  simp only [request, h, Bool.not_false, if_true]
  split
  · split <;> exact ⟨_, rfl⟩
  · exact ⟨_, rfl⟩

theorem request_json {config : ApiConfig} (path : String) {response : FetchResponse}
    (hstatus : response.status = 200) (htype : response.contentType = some "application/json")
    {value : JsonText.Json} (hread : config.readJson response.body = some value) :
    request config path (.response response) = .ok (.json value) := by
  have hisOk : Auth.isOk 200 = true := rfl
  have hisJson : occursIn "application/json".toList "application/json".toList = true := by
    decide
  simp only [request, hstatus, htype, hread, hisOk, hisJson, Option.getD_some, Bool.not_true,
    Bool.false_eq_true, if_false]
  rfl

section Replies

variable {P : Platform} {B : JsonWire} {a : Arrival} {request : ApiRequest} {w : World}

theorem response_ok {response : ApiResponse} {body : Bytes}
    (h : responseBody B.numbers (B.body response) = some body) :
    B.response (.ok response) = ⟨200, some "application/json", body⟩ := by
  have hcontent : responseBody B.numbers (B.content (.ok response)) = some body := h
  simp only [JsonWire.response, hcontent]

theorem response_refused {answer : Except HTTPException ApiResponse}
    (h : ∀ response, answer = .ok response → ¬ (B.body response).isFinite)
    (hrejects : ∀ e, answer = .error e → Rejects e) :
    Auth.isOk (B.response answer).status = false := by
  cases answer with
  | ok response =>
    have hnone : responseBody B.numbers (B.content (.ok response)) = none :=
      if_neg (h response rfl)
    rw [JsonWire.response, hnone]
    rfl
  | error e =>
    have hdetail : responseBody B.numbers (B.content (.error e)) =
        some (encodeUtf8 (render B.numbers (B.content (.error e)))) := if_pos rfl
    rw [JsonWire.response, hdetail]
    exact hrejects e rfl

theorem reply_ok (path : String) {response : ApiResponse} (h : (B.body response).isFinite) :
    B.reply path (.ok response) = .ok (.json (fromJs (toJs (B.body response)))) := by
  rw [JsonWire.reply, response_ok (responseBody_of_finite B.numbers h)]
  exact request_json path rfl rfl (congrArg (Option.map fromJs) (browserJson_render B.numbers h))

theorem answered_of_reply {path : String} {payload : Payload}
    (h : B.reply path (serve P a request w).1 = .ok payload) :
    ∃ response body, (serve P a request w).1 = .ok response ∧
      responseBody B.numbers (B.body response) = some body ∧
      payload = .json (fromJs (toJs (B.body response))) := by
  by_cases hfinite : ∃ response, (serve P a request w).1 = .ok response ∧
      (B.body response).isFinite
  · obtain ⟨response, hanswer, hbody⟩ := hfinite
    rw [hanswer, reply_ok path hbody] at h
    exact ⟨response, _, hanswer, responseBody_of_finite B.numbers hbody, (Except.ok.inj h).symm⟩
  · have hrejects : ∀ e, (serve P a request w).1 = .error e → Rejects e := by
      intro e hanswer
      unfold serve at hanswer
      cases hrun : (handle P a.inp a.headers a.context request).run w with
      | ok response v =>
        rw [hrun] at hanswer
        cases hanswer
      | error e' v =>
        rw [hrun] at hanswer
        cases hanswer
        exact raises_handle request w e v hrun
    have hstatus := response_refused (B := B)
      (fun response hanswer hbody => hfinite ⟨response, hanswer, hbody⟩) hrejects
    obtain ⟨e', herror⟩ := request_refused
      { B.config with readJson := fun body => (browserJson body).map fromJs } path hstatus
    rw [JsonWire.reply, herror] at h
    cases h

end Replies

/-! ## The ledger behind the page -/

def Reached (P : Platform) (w : World) : Prop := ∃ xs, Run (Serves P) World.empty xs w

def Arrival.exchange (a : Arrival) (request : ApiRequest)
    (answer : Except HTTPException ApiResponse) : Exchange :=
  ⟨a.inp, a.headers, a.context, request, answer⟩

section Serve

variable {P : Platform} {a : Arrival} {w w' : World} {x : Exchange}

theorem serves_serve (request : ApiRequest) :
    Serves P w (a.exchange request (serve P a request w).1) (serve P a request w).2 := by
  unfold Serves serve Arrival.exchange
  cases (handle P a.inp a.headers a.context request).run w <;> rfl

theorem Reached.step (h : Reached P w) (hserve : Serves P w x w') : Reached P w' := by
  obtain ⟨xs, hrun⟩ := h
  exact ⟨_, hrun.snoc hserve⟩

theorem Reached.ledger_step (h : Reached P w) (hserve : Serves P w x w') :
    Ledger.Step P w.ledger x w'.ledger := by
  obtain ⟨xs, hrun⟩ := h
  have hone : Run (Ledger.Step P) w.ledger ([] ++ [x]) w'.ledger :=
    ledger_of_continued hrun (.snoc .nil hserve)
  obtain ⟨L, hnil, hstep⟩ := hone.of_concat
  generalize has : ([] : List Exchange) = as at hnil
  cases hnil with
  | nil => exact hstep
  | snoc _ _ => simp at has

theorem Reached.grows (h : Reached P w) (hserve : Serves P w x w') :
    w.ledger.Grows w'.ledger := by
  obtain ⟨action, -, happly⟩ := h.ledger_step hserve
  exact Ledger.grows_apply happly

theorem Reached.sound (h : Reached P w) : w.ledger.Sound P.sha256Hex := by
  obtain ⟨xs, hrun⟩ := h
  have hledger : Run (Ledger.Step P) .empty xs w.ledger := ledger_of_continued .nil hrun
  exact Ledger.sound_of_run Ledger.sound_empty hledger

theorem Reached.applies (h : Reached P w) (request : ApiRequest) {response : ApiResponse}
    (hok : (serve P a request w).1 = .ok response) :
    (a.exchange request (.ok response)).Authorized w.ledger.records ∧
      w.ledger.apply P.sha256Hex ((a.exchange request (.ok response)).intent P w.ledger.records) =
        some (serve P a request w).2.ledger := by
  have hserve := serves_serve (P := P) (a := a) (w := w) request
  rw [hok] at hserve
  obtain ⟨action, hdoes, happly⟩ := h.ledger_step hserve
  obtain ⟨hauthorized, rfl⟩ : (a.exchange request (.ok response)).Authorized w.ledger.records ∧
    action = (a.exchange request (.ok response)).intent P w.ledger.records := hdoes
  exact ⟨hauthorized, happly⟩

theorem Reached.served (h : Reached P w) (a : Arrival) (request : ApiRequest) :
    Reached P (serve P a request w).2 ∧ w.ledger.Grows (serve P a request w).2.ledger :=
  ⟨h.step (serves_serve request), h.grows (serves_serve request)⟩

theorem mem_trail_of_served (h : Reached P w) {request : ApiRequest} {response : ApiResponse}
    (hok : (serve P a request w).1 = .ok response) {entry : AuditEntry}
    (hentry : (a.exchange request (.ok response)).logEntry P w.ledger.records = some entry) :
    entry ∈ (serve P a request w).2.ledger.trail := by
  rw [Ledger.trail_apply (h.applies request hok).2, entries_intent, hentry]
  exact List.mem_append_right _ (List.mem_singleton_self entry)

end Serve

end GoAnalyze
