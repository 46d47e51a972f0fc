import GoAnalyze.Lib.Unwinding
import GoAnalyze.Proofs.Outcomes
import GoAnalyze.Proofs.TenantIsolation

/-! Runs with requests taken out: refused requests leave no trace, and what the other
tenants do is not seen in the answers of a tenant. -/

namespace GoAnalyze

open Sql AuditRepository TwoRuns Frames Runs

/-! ## Refused requests -/

/-- The request is answered with an error other than 500. -/
def Exchange.refused (x : Exchange) : Bool :=
  match x.answer with
  | .ok _ => false
  | .error e => e ≠ internalServerError

theorem state_of_refused {P : Platform} {w w' : World} {x : Exchange} (h : Outcome P w x w')
    (hx : x.refused) : w' = w := by
  have hok : ¬ ∃ response, x.answer = .ok response := by
    rintro ⟨response, hanswer⟩
    simp [Exchange.refused, hanswer] at hx
  have herror : x.answer ≠ .error internalServerError := by
    intro hanswer
    simp [Exchange.refused, hanswer] at hx
  cases h with
  | nothing state => exact state
  | logged _ _ _ _ _ _ _ _ _ answer => exact (answer.elim hok fun h => herror h.2).elim
  | assigned _ _ _ _ _ answer => exact (hok answer).elim
  | registered _ _ _ _ _ logged =>
    exact (logged.elim (fun h => herror h.2) fun h => hok h.2).elim
  | stored _ _ _ _ _ _ _ logged =>
    exact (logged.elim (fun h => herror h.2) fun h => hok h.2).elim

/-- Refused requests leave no trace: without them a run is a run still, with the same
answers and the same last state. -/
theorem refused_requests_drop_out (P : Platform) {xs : List Exchange} {w₀ w : World}
    (hrun : Run (Serves P) w₀ xs w) :
    Run (Serves P) w₀ (xs.filter fun x => !x.refused) w := by
  have hunwind : Unwinding (Serves P) (fun _ _ => True) (fun x => x.refused = false) Eq Eq :=
    { respect := fun s u x s' hsu _ hvisible hserve =>
        (state_of_refused (outcome_of_serves hserve) (by simpa using hvisible)).trans hsu
      consistent := fun s u x s' hsu _ _ hserve => ⟨x, s', hsu ▸ hserve, rfl, rfl⟩ }
  have hevery : Run.Every (Serves P) (fun _ _ => True) w₀ xs w :=
    hrun.history (I := fun xs w => Run.Every (Serves P) (fun _ _ => True) w₀ xs w) .nil
      fun _ _ _ _ h hs => h.snoc trivial hs
  obtain ⟨ys, u, hys, hsame, rfl⟩ := hunwind.purge rfl hevery
  rw [List.forall₂_eq_eq_eq] at hsame
  subst hsame
  simpa using hys

/-- A request that the policy refuses. -/
def exampleDenied : Exchange :=
  ⟨exampleInputs 2, exampleHeaders, { exampleContext with tenantId := "roads" },
    .downloadDocument 7, .error ⟨403, "tenant_mismatch"⟩⟩

theorem refused_requests_drop_out_run :
    Run (Serves examplePlatform) World.empty [exampleIngested]
      (exampleIngested.after World.empty) := by
  have hdenied : Serves examplePlatform (exampleIngested.after World.empty) exampleDenied
      (exampleIngested.after World.empty) := rfl
  exact refused_requests_drop_out examplePlatform (exampleIngested_run.snoc hdenied)

/-! ## What a request touches -/

/-- The rows, the head and the objects of tenant `τ` alone may differ, and the rows are
added. -/
structure Touches (τ : String) (w w' : World) : Prop where
  documents : ∃ rows, w'.documents.rows = w.documents.rows ++ rows ∧ ∀ orm ∈ rows, orm.tenantId = τ
  events : ∃ rows, w'.audit.events.rows = w.audit.events.rows ++ rows ∧
    ∀ orm ∈ rows, orm.tenantId = τ
  chainState : ∀ t, t ≠ τ → w'.audit.chainState t = w.audit.chainState t
  objects : ∀ t, t ≠ τ → ∀ backend d,
    w'.store backend (storageKey t d) = w.store backend (storageKey t d)

section Touches

variable {P : Platform} {τ t : String} {w w' w'' : World}

theorem AgreeOn.refl (t : String) (w : World) : AgreeOn t w w :=
  ⟨⟨.refl _, .refl _, rfl⟩, fun _ _ => rfl⟩

theorem Touches.refl (τ : String) (w : World) : Touches τ w w :=
  ⟨⟨[], by simp⟩, ⟨[], by simp⟩, fun _ _ => rfl, fun _ _ _ _ => rfl⟩

theorem Touches.trans (h : Touches τ w w') (h' : Touches τ w' w'') : Touches τ w w'' := by
  obtain ⟨docs, hdocs, hτ⟩ := h.documents
  obtain ⟨docs', hdocs', hτ'⟩ := h'.documents
  obtain ⟨rows, hrows, hev⟩ := h.events
  obtain ⟨rows', hrows', hev'⟩ := h'.events
  refine ⟨⟨docs ++ docs', by rw [hdocs', hdocs, List.append_assoc], fun orm horm => ?_⟩,
    ⟨rows ++ rows', by rw [hrows', hrows, List.append_assoc], fun orm horm => ?_⟩,
    fun t ht => (h'.chainState t ht).trans (h.chainState t ht),
    fun t ht backend d => (h'.objects t ht backend d).trans (h.objects t ht backend d)⟩
  · exact (List.mem_append.mp horm).elim (hτ orm) (hτ' orm)
  · exact (List.mem_append.mp horm).elim (hev orm) (hev' orm)

theorem Appended.touches {event : AuditEvent} (h : Appended P event w w') :
    Touches event.tenantId w w' := by
  refine ⟨⟨[], by rw [h.documents, List.append_nil], by simp⟩, ⟨_, h.rows, fun orm horm => ?_⟩, ?_,
    fun _ _ _ _ => by rw [h.store]⟩
  · obtain rfl := List.mem_singleton.mp horm
    rfl
  · obtain ⟨events, -, rfl⟩ := h
    intro t ht
    simp only [World.auditWith]
    cases P.dialect with
    | postgresql => exact Function.update_of_ne ht _ _
    | sqlite => rfl

theorem touches_withObject {backend : Backend} {d : UUID} {body : Bytes} {contentType : String} :
    Touches τ w (w.withObject backend (storageKey τ d) body contentType) := by
  refine ⟨⟨[], by simp⟩, ⟨[], by cases backend <;> simp [World.withObject]⟩, fun _ _ => ?_,
    fun t ht backend' d' => ?_⟩
  · cases backend <;> rfl
  · have hkey : storageKey t d' ≠ storageKey τ d := fun hkey => ht (storageKey_injective hkey).1
    rw [store_withObject]
    split_ifs with hbackend
    · rw [Function.update_of_ne hkey, hbackend]
    · rfl

theorem touches_withDocument {inp : Inputs} {record : DocumentRecord}
    {documents : Table DocumentORM.id}
    (hins : w.documents.insertChecked (DocumentORM.fits P.dialect)
      (DocumentRepository.toOrm P.dialect record) = some documents) :
    Touches record.tenantId w (w.withDocument inp record documents) := by
  refine ⟨⟨_, Table.rows_insertChecked hins, fun orm horm => ?_⟩, ⟨[], by simp [World.withDocument]⟩,
    fun _ _ => rfl, fun _ _ backend _ => ?_⟩
  · obtain rfl := List.mem_singleton.mp horm
    rfl
  · cases backend <;> rfl

theorem touches_of_outcome {x : Exchange} (h : Outcome P w x w') :
    Touches (x.target (DocumentRepository.find w)) w w' := by
  cases h with
  | nothing state => exact state ▸ Touches.refl _ _
  | logged tenantId _ _ _ _ _ tenant _ appended => exact tenant ▸ appended.touches
  | assigned _ _ _ _ state =>
    subst state
    exact ⟨⟨[], by simp⟩, ⟨[], by simp⟩, fun _ _ => rfl, fun _ _ backend _ => by cases backend <;> rfl⟩
  | registered payload request _ documents inserted logged =>
    have htarget : x.target (DocumentRepository.find w) = payload.tenantId := by
      simp only [Exchange.target, request]
    have hfirst : Touches payload.tenantId w
        (w.withDocument x.inp (newRecord x.inp payload) documents) := touches_withDocument inserted
    rw [htarget]
    rcases logged with ⟨rfl, -⟩ | ⟨appended, -⟩
    · exact hfirst
    · exact hfirst.trans appended.touches
  | stored d body record request _ found _ logged =>
    have htarget : x.target (DocumentRepository.find w) = record.tenantId := by
      simp only [Exchange.target, request, found, Option.map_some, Option.getD_some]
    rw [htarget]
    rcases logged with ⟨rfl, -⟩ | ⟨⟨details, appended⟩, -⟩
    · exact touches_withObject
    · exact touches_withObject.trans appended.touches

theorem Touches.agreeOn (h : Touches τ w w') (ht : t ≠ τ) : AgreeOn t w w' := by
  obtain ⟨docs, hdocs, hτ⟩ := h.documents
  obtain ⟨rows, hrows, hev⟩ := h.events
  have hdocs' : docs.filter (fun orm => orm.tenantId = t) = [] :=
    List.filter_eq_nil_iff.mpr fun orm horm => by simp [hτ orm horm, ht.symm]
  have hrows' : forTenant t rows = [] :=
    List.filter_eq_nil_iff.mpr fun orm horm => by simp [hev orm horm, ht.symm]
  have hevents : forTenant t w'.audit.events.rows = forTenant t w.audit.events.rows := by
    rw [hrows]
    unfold forTenant at hrows' ⊢
    rw [List.filter_append, hrows', List.append_nil]
  refine ⟨⟨?_, hevents ▸ .refl _, (h.chainState t ht).symm⟩,
    fun backend d => (h.objects t ht backend d).symm⟩
  rw [hdocs, List.filter_append, hdocs', List.append_nil]

structure OnlyTenant (t : String) (w : World) : Prop where
  documents : ∀ orm ∈ w.documents.rows, orm.tenantId = t
  events : ∀ orm ∈ w.audit.events.rows, orm.tenantId = t

theorem OnlyTenant.touched (h : OnlyTenant t w) (htouch : Touches t w w') : OnlyTenant t w' := by
  obtain ⟨docs, hdocs, hτ⟩ := htouch.documents
  obtain ⟨rows, hrows, hev⟩ := htouch.events
  constructor
  · intro orm horm
    rw [hdocs] at horm
    exact (List.mem_append.mp horm).elim (h.documents orm) (hτ orm)
  · intro orm horm
    rw [hrows] at horm
    exact (List.mem_append.mp horm).elim (h.events orm) (hev orm)

end Touches

/-! ## Requests of the tenant itself -/

section Own

variable {P : Platform} {inp : Inputs} {headers : Headers} {context : TenantContext}
  {w w' : World}

/-- A program that does the same for the caller in states that agree on its tenant: it
returns the same value or fails in both, and they still agree. -/
def Alike {α : Type} (inp : Inputs) (context : TenantContext) (m : App α) : Prop :=
  Both (AgreeFresh context.tenantId inp) m m (Same (AgreeOn context.tenantId))
    (AgreeOn context.tenantId)

theorem restores_append (event : AuditEvent) : Restores (AuditLog.append P event) := by
  intro w e v hrun
  rcases append_appends (P := P) (w := w) event with ⟨a, u, happend, -⟩ | happend
  · rw [happend] at hrun
    cases hrun
  · rw [happend] at hrun
    cases hrun
    rfl

theorem both_append {event : AuditEvent} (ht : event.tenantId = context.tenantId)
    (hid : event.id = inp.eventId) : Alike inp context (AuditLog.append P event) :=
  Both.of_rel (rel_append ht hid) (restores_append event) (restores_append event)
    fun _ _ h => h.1

theorem both_raiseIf {R E : World → World → Prop} (hE : ∀ w w', R w w' → E w w') (c : Bool)
    (e : HTTPException) : Both R (raiseIf c e) (raiseIf c e) (fun _ _ => R) E :=
  Both.of_rel (rel_raiseIf c e) (.of_frame (frame_raiseIf c e)) (.of_frame (frame_raiseIf c e)) hE

theorem both_pure {α : Type} {R E : World → World → Prop} (a : α) :
    Both R (pure a : App α) (pure a) (Same R) E := fun _ _ h => ⟨rfl, h⟩

theorem Alike.map {α β : Type} {m : App α} (h : Alike inp context m) (f : α → β) :
    Alike inp context (m >>= fun a => pure (f a)) :=
  h.bind_same fun a => both_pure (f a)

theorem restores_handle {request : ApiRequest} (hingest : ∀ payload, request ≠ .ingestDocument payload)
    (hupload : ∀ d body, request ≠ .uploadDocumentContent d body)
    (hdownload : ∀ d, request ≠ .downloadDocument d) :
    Restores (handle P inp headers context request) := by
  intro w e v hrun
  have hserve : Serves P w ⟨inp, headers, context, request, .error e⟩ v := hrun
  cases outcome_of_serves hserve with
  | nothing state => exact state
  | logged _ _ _ _ _ _ _ _ _ answer =>
    rcases answer with ⟨_, hok⟩ | ⟨⟨d, hd⟩, -⟩
    · cases hok
    · exact absurd hd (hdownload d)
  | assigned _ _ _ _ _ answer =>
    obtain ⟨_, hok⟩ := answer
    cases hok
  | registered payload hrequest => exact absurd hrequest (hingest payload)
  | stored d body _ hrequest => exact absurd hrequest (hupload d body)

theorem alike_of_isolated {request : ApiRequest}
    (hingest : ∀ payload, request ≠ .ingestDocument payload)
    (hupload : ∀ d body, request ≠ .uploadDocumentContent d body)
    (hdownload : ∀ d, request ≠ .downloadDocument d)
    (h : Isolated inp context (handle P inp headers context request)) :
    Alike inp context (handle P inp headers context request) :=
  Both.of_rel h (restores_handle hingest hupload hdownload)
    (restores_handle hingest hupload hdownload) fun _ _ h => h.1

theorem alike_assignCase (caseId : UUID) (skill : String) :
    Alike inp context (assignCase P inp context caseId skill) := by
  have hcreate : ∀ row, Alike inp context (CaseRepository.createAssignment P row) := by
    intro row
    refine (both_raiseIf (fun _ _ h => h.1) _ _).bind fun _ _ => ?_
    rintro w w' ⟨⟨⟨hdocuments, hevents, hchain⟩, hobjects⟩, -⟩
    refine ⟨rfl, ⟨hdocuments, hevents, hchain⟩, fun backend d => ?_⟩
    have hobject := hobjects backend d
    cases backend <;> exact hobject
  exact (both_raiseIf (fun _ _ h => h.1) _ _).bind fun _ _ => (hcreate _).map _

theorem run_ingestDocument_eq {payload : DocumentIngestRequest}
    (hallowed : (evaluateAbac context "document:ingest" payload.tenantId payload.classification
      headers.purpose).allowed) {documents : Table DocumentORM.id}
    (hins : w.documents.insertChecked (DocumentORM.fits P.dialect)
      (DocumentRepository.toOrm P.dialect (newRecord inp payload)) = some documents) :
    (ingestDocument P inp headers context payload).run w =
      (AuditLog.append P (ingestedEvent inp headers context (newRecord inp payload)) >>=
        fun _ => pure (newRecord inp payload)).run
          (w.withDocument inp (newRecord inp payload) documents) := by
  rw [run_ingestDocument hallowed hins, EStateM.run_bind, World.withDocument]
  cases (AuditLog.append P _).run _ <;> rfl

section Admin

variable (hadmin : "platform-admin" ∉ context.roles)

include hadmin

theorem both_fetchAllowed (action : String) (documentId : UUID) :
    Both (AgreeFresh context.tenantId inp) (fetchAllowed headers context action documentId)
      (fetchAllowed headers context action documentId)
      (fun r r' w w' => (r = r' ∧ r.tenantId = context.tenantId) ∧
        AgreeFresh context.tenantId inp w w') (AgreeOn context.tenantId) :=
  Both.of_rel (rel_fetchAllowed hadmin action documentId)
    (.of_frame (frame_fetchAllowed action documentId))
    (.of_frame (frame_fetchAllowed action documentId)) fun _ _ h => h.1

theorem alike_uploadDocumentContent (documentId : UUID) (body : Bytes) :
    Alike inp context (uploadDocumentContent P inp headers context documentId body) := by
  have hfirst := fun (w w' : World) (h : AgreeFresh context.tenantId inp w w') => h.1
  refine (both_fetchAllowed hadmin _ documentId).bind fun record _ => Both.of_and ?_
  rintro ⟨rfl, ht⟩
  refine (both_raiseIf hfirst _ _).bind fun _ _ => (both_raiseIf hfirst _ _).bind fun _ _ =>
    (both_raiseIf hfirst _ _).bind fun _ _ => Both.bind (Both.of_rel (rel_objectPut _ _ _ _)
      ?_ ?_ hfirst) fun _ _ => ?_
  · exact fun w e v hrun => by simp at hrun
  · exact fun w e v hrun => by simp at hrun
  · exact (both_append ht rfl).map _

theorem alike_downloadDocument (documentId : UUID) :
    Alike inp context (downloadDocument P inp headers context documentId) := by
  have hfirst := fun (w w' : World) (h : AgreeFresh context.tenantId inp w w') => h.1
  refine (both_fetchAllowed hadmin _ documentId).bind fun record _ => Both.of_and ?_
  rintro ⟨rfl, ht⟩
  refine Both.bind_same (Both.of_rel (rel_objectGet ht _ _) ?_ ?_ hfirst) fun data => ?_
  · exact .of_frame (Frame.bind Frame.get fun _ => Frame.pure _)
  · exact .of_frame (Frame.bind Frame.get fun _ => Frame.pure _)
  cases data with
  | none => exact fun _ _ h => h.1
  | some data =>
    refine Both.bind_same (both_append ht rfl) fun _ => ?_
    exact (both_raiseIf (fun _ _ h => h) _ _).bind fun _ _ => both_pure _

theorem both_ingestDocument (payload : DocumentIngestRequest) :
    Both (fun w w' => AgreeFresh context.tenantId inp w w' ∧
        inp.documentId ∉ w.documents.rows.map DocumentORM.id ∧
        inp.documentId ∉ w'.documents.rows.map DocumentORM.id)
      (ingestDocument P inp headers context payload)
      (ingestDocument P inp headers context payload) (Same (AgreeOn context.tenantId))
      (AgreeOn context.tenantId) := by
  rintro w w' ⟨h, hid, hid'⟩
  have hrefused : ∀ v : World, (¬ (evaluateAbac context "document:ingest" payload.tenantId
        payload.classification headers.purpose).allowed ∨ ¬ DocumentORM.fits P.dialect
          (DocumentRepository.toOrm P.dialect (newRecord inp payload))) →
      ∃ e, (ingestDocument P inp headers context payload).run v = .error e v := by
    rintro v (hdenied | hfits)
    · exact run_ingestDocument_refused (Or.inl hdenied)
    · exact run_ingestDocument_refused
        (Or.inr (Table.insertChecked_eq_none_iff.mpr fun h => absurd h hfits))
  by_cases hpass : (evaluateAbac context "document:ingest" payload.tenantId
      payload.classification headers.purpose).allowed ∧ DocumentORM.fits P.dialect
        (DocumentRepository.toOrm P.dialect (newRecord inp payload))
  swap
  · obtain ⟨e, he⟩ := hrefused w (not_and_or.mp hpass)
    obtain ⟨e', he'⟩ := hrefused w' (not_and_or.mp hpass)
    rw [he, he']
    exact h.1
  obtain ⟨hallowed, hfits⟩ := hpass
  have ht : context.tenantId = payload.tenantId := tenantId_of_allowed hadmin hallowed
  obtain ⟨documents, hins⟩ := Table.exists_insertChecked_iff.mpr ⟨hfits, hid⟩
  obtain ⟨documents', hins'⟩ := Table.exists_insertChecked_iff.mpr ⟨hfits, hid'⟩
  have hagree : AgreeFresh context.tenantId inp
      (w.withDocument inp (newRecord inp payload) documents)
      (w'.withDocument inp (newRecord inp payload) documents') := by
    refine ⟨⟨⟨?_, h.1.events, h.1.chainState⟩, fun backend d => ?_⟩, h.2⟩
    · simp only [World.withDocument, Table.rows_insertChecked hins, Table.rows_insertChecked hins',
        List.filter_append]
      exact h.1.documents.append_right _
    · have hobject := h.1.objects backend d
      cases backend <;> exact hobject
  rw [run_ingestDocument_eq hallowed hins, run_ingestDocument_eq hallowed hins']
  exact ((both_append (P := P) ht.symm rfl).map
    fun _ => newRecord inp payload) _ _ hagree

omit hadmin in
theorem both_environmentalReview (payload : EnvironmentalReviewRequest)
    (hpayload : context.tenantId = payload.tenantId ∨ "platform-admin" ∉ context.roles) :
    Both (fun w w' => AgreeFresh context.tenantId inp w w' ∧ ∀ d ∈ payload.documents,
        DocumentRepository.find w d = DocumentRepository.find w' d)
      (environmentalReview P inp headers context payload)
      (environmentalReview P inp headers context payload) (Same (AgreeOn context.tenantId))
      (AgreeOn context.tenantId) := by
  rintro w w' ⟨h, hfind⟩
  by_cases hpass : context.tenantId ≠ payload.tenantId ∧ "platform-admin" ∉ context.roles
  · simp only [environmentalReview, EStateM.run_bind, run_raiseIf, hpass, not_false_eq_true,
      and_self, ne_eq, decide_true, if_true]
    exact h.1
  have ht : payload.tenantId = context.tenantId := by
    by_contra hne
    exact hpass ⟨fun h => hne h.symm, hpayload.resolve_left fun h => hne h.symm⟩
  have hmany : DocumentRepository.findMany w payload.documents =
      DocumentRepository.findMany w' payload.documents := by
    funext d
    by_cases hd : d ∈ payload.documents
    · simp only [DocumentRepository.findMany, hd, if_true, hfind d hd]
    · simp only [DocumentRepository.findMany, hd, if_false]
  have hrun : ∀ v : World, (environmentalReview P inp headers context payload).run v =
      (AuditLog.append P (reviewedEvent P inp headers context v payload) >>= fun _ =>
        pure (listedReview P v payload).modelDump).run v := by
    intro v
    simp only [environmentalReview, EStateM.run_bind, run_raiseIf, hpass, decide_false,
      Bool.false_eq_true, if_false, run_getMany]
    rfl
  have hevent : reviewedEvent P inp headers context w payload =
      reviewedEvent P inp headers context w' payload := by
    simp only [reviewedEvent, listedReview, hmany]
  rw [hrun, hrun, hevent, show listedReview P w payload = listedReview P w' payload by
    simp only [listedReview, hmany]]
  exact ((both_append (P := P) ht rfl).map fun _ => (listedReview P w' payload).modelDump) _ _ h

end Admin

end Own

/-! ## Runs of several tenants -/

/-- What the requests of a run must be for the other tenants to be out of sight of `t`: no
platform admins, fresh ids, and, for the requests of `t`, searches that the database serves
and reviews of documents that are not of another tenant. -/
structure Separated (t : String) (w : World) (x : Exchange) : Prop where
  role : "platform-admin" ∉ x.context.roles
  event : Fresh x.inp w
  document : x.inp.documentId ∉ w.documents.rows.map DocumentORM.id
  search : x.context.tenantId = t → ∀ q page pageSize classification contentType,
    x.request = .searchDocuments q page pageSize classification contentType →
      ∀ index body, x.inp.openSearch index body = none
  review : x.context.tenantId = t → ∀ payload, x.request = .environmentalReview payload →
    ∀ d ∈ payload.documents, ∀ record, DocumentRepository.find w d = some record →
      record.tenantId = t

/-- The same request, answered alike but for the error of a failure. -/
def SameButErrors (x y : Exchange) : Prop :=
  y = { x with answer := y.answer } ∧ x.answer.toOption = y.answer.toOption

section Purge

variable {P : Platform} {t : String} {w u w' : World} {x : Exchange}

theorem target_of_authorized (hadmin : "platform-admin" ∉ x.context.roles)
    (h : x.Authorized (DocumentRepository.find w)) :
    x.target (DocumentRepository.find w) = x.context.tenantId := by
  obtain ⟨inp, headers, context, request, answer⟩ := x
  have hdocument : ∀ {d : UUID} {action : String}, (∃ record,
      DocumentRepository.find w d = some record ∧ (evaluateAbac context action record.tenantId
        record.classification headers.purpose).allowed) →
      ((DocumentRepository.find w d).map (·.tenantId)).getD "" = context.tenantId := by
    rintro d action ⟨record, hfind, hallowed⟩
    rw [hfind, Option.map_some, Option.getD_some, tenantId_of_allowed hadmin hallowed]
  cases request with
  | ingestDocument payload => exact (tenantId_of_allowed hadmin h).symm
  | environmentalReview payload => exact (by_contra fun hne => h ⟨fun h => hne h.symm, hadmin⟩)
  | processDocument d => exact hdocument h
  | uploadDocumentContent d body => exact hdocument h
  | downloadDocument d => exact hdocument h
  | _ => rfl

theorem touches_own (hadmin : "platform-admin" ∉ x.context.roles) (h : Outcome P w x w') :
    Touches x.context.tenantId w w' := by
  have htouch := touches_of_outcome h
  cases h with
  | nothing state => exact state ▸ Touches.refl _ _
  | logged _ _ _ _ _ authorized => rwa [target_of_authorized hadmin authorized] at htouch
  | assigned _ _ _ authorized => rwa [target_of_authorized hadmin authorized] at htouch
  | registered _ _ authorized => rwa [target_of_authorized hadmin authorized] at htouch
  | stored _ _ _ _ authorized => rwa [target_of_authorized hadmin authorized] at htouch

theorem fresh_of_agree (h : AgreeOn t w u) (honly : OnlyTenant t u) {inp : Inputs}
    (hevent : Fresh inp w) (hid : inp.documentId ∉ w.documents.rows.map DocumentORM.id) :
    AgreeFresh t inp w u ∧ inp.documentId ∉ u.documents.rows.map DocumentORM.id := by
  refine ⟨⟨h, hevent, fun hmem => ?_⟩, fun hmem => ?_⟩
  · obtain ⟨orm, horm, hid'⟩ := List.mem_map.mp hmem
    have hmem' : orm ∈ forTenant t w.audit.events.rows :=
      h.events.mem_iff.mpr (List.mem_filter.mpr ⟨horm, decide_eq_true (honly.events orm horm)⟩)
    exact hevent (List.mem_map.mpr ⟨orm, (List.mem_filter.mp hmem').1, hid'⟩)
  · obtain ⟨orm, horm, hid'⟩ := List.mem_map.mp hmem
    exact hid (List.mem_map.mpr
      ⟨orm, (mem_documents_iff h.toAgreeRows (honly.documents orm horm)).mpr horm, hid'⟩)

theorem find_of_own (h : AgreeOn t w u) (honly : OnlyTenant t u) {d : UUID}
    (hown : ∀ record, DocumentRepository.find w d = some record → record.tenantId = t) :
    DocumentRepository.find w d = DocumentRepository.find u d := by
  rcases find_agree h.toAgreeRows d with heq | ⟨hforeign, hforeign'⟩
  · exact heq
  · cases hfind : DocumentRepository.find w d with
    | some record => exact absurd (hown record hfind) (hforeign record hfind)
    | none =>
      cases hfind' : DocumentRepository.find u d with
      | none => rfl
      | some record =>
        obtain ⟨orm, hget, rfl⟩ := Option.map_eq_some_iff.mp hfind'
        exact absurd (honly.documents orm (Table.get_eq_some_iff.mp hget).1)
          (hforeign' _ hfind')

theorem both_handle (h : AgreeOn x.context.tenantId w u) (honly : OnlyTenant x.context.tenantId u)
    (hseparated : Separated x.context.tenantId w x) :
    Both (fun v v' => v = w ∧ v' = u) (handle P x.inp x.headers x.context x.request)
      (handle P x.inp x.headers x.context x.request) (Same (AgreeOn x.context.tenantId))
      (AgreeOn x.context.tenantId) := by
  obtain ⟨inp, headers, context, request, answer⟩ := x
  obtain ⟨hadmin, hevent, hid, hsearch, hreview⟩ := hseparated
  obtain ⟨hfresh, hid'⟩ := fresh_of_agree h honly hevent hid
  have hmap : ∀ {α : Type} {m : App α} {R : World → World → Prop} (f : α → ApiResponse),
      Both R m m (Same (AgreeOn context.tenantId)) (AgreeOn context.tenantId) → R w u →
      Both (fun v v' => v = w ∧ v' = u) (m >>= fun a => pure (f a)) (m >>= fun a => pure (f a))
        (Same (AgreeOn context.tenantId)) (AgreeOn context.tenantId) := by
    rintro α m R f hm hR _ _ ⟨rfl, rfl⟩
    exact (hm.bind_same fun a => both_pure (f a)) _ _ hR
  have hisolated : ∀ {α : Type} {m : App α} (f : α → ApiResponse), Isolated inp context m →
      Isolated inp context (m >>= fun a => pure (f a)) := fun f hm =>
    Rel.bind_same hm fun _ => Rel.pure fun _ _ h => ⟨rfl, h⟩
  have hread : ∀ {request : ApiRequest}, Alike inp context
      (handle P inp headers context request) →
      Both (fun v v' => v = w ∧ v' = u) (handle P inp headers context request)
        (handle P inp headers context request) (Same (AgreeOn context.tenantId))
        (AgreeOn context.tenantId) := by
    rintro request hm _ _ ⟨rfl, rfl⟩
    exact hm _ _ hfresh
  cases request with
  | submitSetupConfiguration payload =>
    exact hmap _ (R := AgreeOn context.tenantId) (both_pure _) h
  | ingestDocument payload => exact hmap _ (both_ingestDocument hadmin payload) ⟨hfresh, hid, hid'⟩
  | uploadDocumentContent d body =>
    exact hmap _ (alike_uploadDocumentContent hadmin d body) hfresh
  | downloadDocument d => exact hmap _ (alike_downloadDocument hadmin d) hfresh
  | assignCase caseId skill => exact hmap _ (alike_assignCase caseId skill) hfresh
  | environmentalReview payload =>
    exact hmap _ (both_environmentalReview payload (Or.inr hadmin))
      ⟨hfresh, fun d hd => find_of_own h honly (hreview rfl payload rfl d hd)⟩
  | processDocument d => exact hread (alike_of_isolated nofun nofun nofun
      (hisolated _ (isolated_processDocument hadmin d)))
  | ragAnswer question citations => exact hread (alike_of_isolated nofun nofun nofun
      (hisolated _ (isolated_ragAnswer hadmin question citations)))
  | listAudit page pageSize => exact hread (alike_of_isolated nofun nofun nofun
      (hisolated _ (isolated_listAudit page pageSize)))
  | searchDocuments q page pageSize classification contentType =>
    exact hread (alike_of_isolated nofun nofun nofun (hisolated _
      (isolated_searchDocuments (hsearch rfl q page pageSize classification contentType rfl) q
        page pageSize classification contentType)))

/-- Programs that must agree, one of which gave this answer. -/
theorem run_of_both {m : App ApiResponse} {E : World → World → Prop} {answer : Except HTTPException
    ApiResponse} (h : Both (fun v v' => v = w ∧ v' = u) m m (Same E) E)
    (hrun : m.run w = resultOf answer w') :
    ∃ answer' u', m.run u = resultOf answer' u' ∧ answer.toOption = answer'.toOption ∧ E w' u' := by
  have hboth := h w u ⟨rfl, rfl⟩
  rw [hrun] at hboth
  cases answer with
  | ok response =>
    cases hrun' : m.run u with
    | ok response' u' =>
      rw [hrun'] at hboth
      obtain ⟨rfl, hE⟩ := hboth
      exact ⟨.ok response, u', rfl, rfl, hE⟩
    | error e u' =>
      rw [hrun'] at hboth
      exact hboth.elim
  | error e =>
    cases hrun' : m.run u with
    | ok response' u' =>
      rw [hrun'] at hboth
      exact hboth.elim
    | error e' u' =>
      rw [hrun'] at hboth
      exact ⟨.error e', u', rfl, rfl, hboth⟩

theorem unwinding_serves (P : Platform) (t : String) :
    Unwinding (Serves P) (Separated t) (fun x => x.context.tenantId = t)
      (fun w u => AgreeOn t w u ∧ OnlyTenant t u) SameButErrors where
  respect := by
    rintro w u x w' ⟨hagree, honly⟩ hseparated ht hserve
    have htouch := touches_own hseparated.role (outcome_of_serves hserve)
    have hforeign := htouch.agreeOn (t := t) fun h => ht h.symm
    refine ⟨⟨⟨hforeign.documents.symm.trans hagree.documents,
      hforeign.events.symm.trans hagree.events, hforeign.chainState.symm.trans hagree.chainState⟩,
      fun backend d => (hforeign.objects backend d).symm.trans (hagree.objects backend d)⟩, honly⟩
  consistent := by
    rintro w u x w' ⟨hagree, honly⟩ hseparated rfl hserve
    obtain ⟨answer', u', hrun, hanswer, hagree'⟩ :=
      run_of_both (both_handle (P := P) hagree honly hseparated) hserve
    have hserve' : Serves P u { x with answer := answer' } u' := hrun
    refine ⟨_, u', hserve', ⟨rfl, hanswer⟩, hagree', honly.touched ?_⟩
    exact touches_own (x := { x with answer := answer' }) hseparated.role
      (outcome_of_serves hserve')

end Purge

/-- Noninterference of tenants over whole runs: take the requests of all other tenants out of
a run, and what is left is a run in which tenant `t` is answered as before, up to the error
of a failure, and which ends with the same rows and objects of `t`. -/
theorem other_tenants_unobservable (P : Platform) (t : String) {xs : List Exchange} {w : World}
    (hrun : Run.Every (Serves P) (Separated t) World.empty xs w) :
    ∃ ys w', Run (Serves P) World.empty ys w' ∧
      List.Forall₂ SameButErrors (xs.filter fun x => x.context.tenantId = t) ys ∧
      AgreeOn t w w' := by
  have h₀ : AgreeOn t World.empty World.empty ∧ OnlyTenant t World.empty :=
    ⟨.refl t _, fun _ h => absurd h List.not_mem_nil, fun _ h => absurd h List.not_mem_nil⟩
  obtain ⟨ys, w', hys, hsame, hagree, -⟩ := (unwinding_serves P t).purge h₀ hrun
  exact ⟨ys, w', hys, hsame, hagree⟩

def exampleForeignIngested : Exchange :=
  ⟨{ exampleInputs 5 with documentId := 9 }, exampleHeaders,
    { exampleContext with tenantId := "roads" },
    .ingestDocument (exampleIngest "roads" "a.pdf" .internal []),
    .ok (.record (newRecord { exampleInputs 5 with documentId := 9 }
      (exampleIngest "roads" "a.pdf" .internal [])))⟩

theorem other_tenants_unobservable_run :
    ∃ ys w', Run (Serves examplePlatform) World.empty ys w' ∧
      List.Forall₂ SameButErrors [exampleIngested] ys := by
  have hforeign : Serves examplePlatform World.empty exampleForeignIngested
      (exampleForeignIngested.after World.empty) := rfl
  have hown : Serves examplePlatform (exampleForeignIngested.after World.empty) exampleIngested
      (exampleIngested.after (exampleForeignIngested.after World.empty)) := rfl
  have hevents : (exampleForeignIngested.after World.empty).audit.events.rows.map
    AuditEventORM.id = [5] := rfl
  have hdocuments : (exampleForeignIngested.after World.empty).documents.rows.map
    DocumentORM.id = [9] := rfl
  have hseparated : Separated "env" (exampleForeignIngested.after World.empty) exampleIngested := by
    refine ⟨by decide, ?_, ?_, ?_, ?_⟩
    · rw [Fresh, hevents]
      decide
    · rw [hdocuments]
      decide
    · intro _ _ _ _ _ _ hrequest
      cases hrequest
    · intro _ _ hrequest
      cases hrequest
  have hseparated' : Separated "env" World.empty exampleForeignIngested := by
    refine ⟨by decide, List.not_mem_nil, List.not_mem_nil, ?_, ?_⟩
    · intro _ _ _ _ _ _ hrequest
      cases hrequest
    · intro _ _ hrequest
      cases hrequest
  obtain ⟨ys, w', hys, hsame, -⟩ := other_tenants_unobservable examplePlatform "env"
    ((Run.Every.nil.snoc hseparated' hforeign).snoc hseparated hown)
  exact ⟨ys, w', hys, hsame⟩

end GoAnalyze
