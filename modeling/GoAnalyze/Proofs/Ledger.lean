import GoAnalyze.Proofs.Outcomes

/-! The API refines its ledger: every request does there at most what it asks for, is
allowed to its caller, and is answered, and a run is a run of the ledger. -/

namespace GoAnalyze

open Sql AuditRepository Runs

/-! ## The ledger of a state -/

def World.ledger (w : World) : Ledger where
  records := DocumentRepository.find w
  contents := fun backend d => (DocumentRepository.find w d).bind fun record =>
    (w.store backend (storageKey record.tenantId d)).map (·.1)
  assignments := w.caseAssignments
  trail := w.audit.events.rows.map AuditEventORM.entry

/-- What a request may do to a ledger with these records. A request that is answered does
what it asks for. One that fails with 500 may have done it without its entry, or, where it
was a download, with it; any other failure does nothing. -/
def Exchange.Does (P : Platform) (x : Exchange) (records : UUID → Option DocumentRecord)
    (action : Ledger.Action) : Prop :=
  match x.answer with
  | .ok _ => x.Authorized records ∧ action = x.intent P records
  | .error e => action = .nothing ∨ e = internalServerError ∧ x.Authorized records ∧
      (action = (x.intent P records).unlogged ∨
        (∃ d, x.request = .downloadDocument d) ∧ action = x.intent P records)

def Ledger.Step (P : Platform) (L : Ledger) (x : Exchange) (L' : Ledger) : Prop :=
  ∃ action, x.Does P L.records action ∧ L.apply P.sha256Hex action = some L'

section Writes

variable {P : Platform} {w w' : World}

theorem ledger_appended {event : AuditEvent} (h : Appended P event w w') :
    w'.ledger = { w.ledger with
      trail := w.ledger.trail ++ [(toOrm P.dialect (w.chained P event)).entry] } := by
  have hfind : DocumentRepository.find w' = DocumentRepository.find w := by
    funext d
    rw [DocumentRepository.find, h.documents, DocumentRepository.find]
  simp only [World.ledger, hfind, h.store, h.caseAssignments, h.rows, List.map_append,
    List.map_singleton]

theorem ledger_withDocument (inp : Inputs) {record : DocumentRecord}
    {documents : Table DocumentORM.id}
    (hins : w.documents.insertChecked (DocumentORM.fits P.dialect)
      (DocumentRepository.toOrm P.dialect record) = some documents)
    (hkeys : ∀ d, DocumentRepository.find w d = none → ∀ backend tenantId,
      w.store backend (storageKey tenantId d) = none) :
    DocumentRepository.find w record.id = none ∧
    (w.withDocument inp record documents).ledger = { w.ledger with
      records := Function.update w.ledger.records record.id
        (some (DocumentRepository.toDomain (DocumentRepository.toOrm P.dialect record))) } := by
  have hins' := (Table.insertChecked_eq_some_iff.mp hins).2
  have hnone : DocumentRepository.find w record.id = none := by
    rw [DocumentRepository.find, Table.get_eq_none_iff.mpr]
    · rfl
    · intro orm hmem hid
      exact (Table.insert_eq_some_iff.mp hins').1 (List.mem_map.mpr ⟨orm, hmem, hid⟩)
  have hfind : DocumentRepository.find (w.withDocument inp record documents) =
      Function.update (DocumentRepository.find w) record.id
        (some (DocumentRepository.toDomain (DocumentRepository.toOrm P.dialect record))) := by
    funext d
    rw [DocumentRepository.find, World.withDocument, Table.get_insert hins', Function.update_apply]
    by_cases hd : d = record.id
    · subst hd
      rw [if_pos rfl]
      exact congrArg _ (if_pos rfl)
    · rw [if_neg hd, if_neg (fun h => hd h.symm)]
      rfl
  have hstore : (w.withDocument inp record documents).store = w.store := by
    funext backend
    cases backend <;> rfl
  refine ⟨hnone, ?_⟩
  simp only [World.ledger, hfind, hstore]
  congr 1
  funext backend d
  by_cases hd : d = record.id
  · subst hd
    rw [Function.update_self, Option.bind_some, hkeys _ hnone, hnone]
    rfl
  · rw [Function.update_of_ne hd]

theorem ledger_withObject {backend : Backend} {d : UUID} {record : DocumentRecord} {body : Bytes}
    {contentType : String} (hfind : DocumentRepository.find w d = some record) :
    (w.withObject backend (storageKey record.tenantId d) body contentType).ledger = { w.ledger with
      contents := fun backend' d' =>
        if backend' = backend ∧ d' = d then some body else w.ledger.contents backend' d' } := by
  have hfind' : DocumentRepository.find (w.withObject backend (storageKey record.tenantId d) body
      contentType) = DocumentRepository.find w := by
    funext d'
    rw [DocumentRepository.find, documents_withObject, DocumentRepository.find]
  have hrest : (w.withObject backend (storageKey record.tenantId d) body contentType).audit =
      w.audit ∧ (w.withObject backend (storageKey record.tenantId d) body
        contentType).caseAssignments = w.caseAssignments := by
    cases backend <;> exact ⟨rfl, rfl⟩
  simp only [World.ledger, hfind', hrest, store_withObject]
  congr 1
  funext backend' d'
  by_cases hbackend : backend' = backend
  · subst hbackend
    by_cases hd : d' = d
    · subst hd
      simp only [hfind, Option.bind_some, if_true, Function.update_self, Option.map_some,
        and_self]
    · simp only [hd, and_false, if_false, if_true]
      refine congrArg _ (funext fun record' => ?_)
      have hkey : storageKey record'.tenantId d' ≠ storageKey record.tenantId d := fun hkey =>
        hd (storageKey_injective hkey).2
      rw [Function.update_of_ne hkey]
  · simp only [hbackend, false_and, if_false]

end Writes

/-! ## One request -/

section Refines

variable {P : Platform} {w w' : World} {x : Exchange}

theorem Exchange.does_of_ok {records : UUID → Option DocumentRecord}
    (hok : ∃ response, x.answer = .ok response) (hauthorized : x.Authorized records) :
    x.Does P records (x.intent P records) := by
  obtain ⟨response, hok⟩ := hok
  rw [Exchange.Does, hok]
  exact ⟨hauthorized, rfl⟩

theorem Exchange.does_unlogged {records : UUID → Option DocumentRecord}
    (herror : x.answer = .error internalServerError) (hauthorized : x.Authorized records) :
    x.Does P records (x.intent P records).unlogged := by
  rw [Exchange.Does, herror]
  exact Or.inr ⟨rfl, hauthorized, Or.inl rfl⟩

theorem step_of_nothing (h : (∃ e, x.answer = .error e) ∨
    x.Authorized (DocumentRepository.find w) ∧
      x.intent P (DocumentRepository.find w) = .nothing) :
    Ledger.Step P w.ledger x w.ledger := by
  refine ⟨.nothing, ?_, by simp [Ledger.apply, Ledger.Action.entries]⟩
  unfold Exchange.Does
  cases hanswer : x.answer with
  | error e => exact Or.inl rfl
  | ok response =>
    rcases h with ⟨e, he⟩ | ⟨hauthorized, hintent⟩
    · rw [hanswer] at he
      cases he
    · exact ⟨hauthorized, hintent.symm⟩

theorem step_of_outcome (h : Outcome P w x w')
    (hkeys : ∀ d, DocumentRepository.find w d = none → ∀ backend tenantId,
      w.store backend (storageKey tenantId d) = none) :
    Ledger.Step P w.ledger x w'.ledger := by
  cases h with
  | nothing state answer =>
    subst state
    exact step_of_nothing answer
  | logged tenantId action resourceType resourceId details authorized tenant intent appended
      answer =>
    refine ⟨x.intent P (DocumentRepository.find w), ?_, ?_⟩
    · rcases answer with hok | ⟨hdownload, herror⟩
      · exact Exchange.does_of_ok hok authorized
      · rw [Exchange.Does, herror]
        exact Or.inr ⟨rfl, authorized, Or.inr ⟨hdownload, rfl⟩⟩
    · rw [intent, ledger_appended appended]
      rfl
  | assigned caseId skill request authorized state answer =>
    refine ⟨_, Exchange.does_of_ok answer authorized, ?_⟩
    subst state
    simp only [Exchange.intent, request, Ledger.apply, Ledger.Action.entries, List.append_nil]
    rfl
  | registered payload request authorized documents inserted logged =>
    obtain ⟨hnone, hledger⟩ := ledger_withDocument x.inp inserted hkeys
    have hintent : x.intent P (DocumentRepository.find w) = .register (x.registered P payload)
        (some (x.audited P payload.tenantId "document.ingested" "document"
          (strUuid x.inp.documentId))) := by
      simp only [Exchange.intent, Exchange.logEntry, request]
    rcases logged with ⟨rfl, herror⟩ | ⟨appended, hok⟩
    · refine ⟨_, Exchange.does_unlogged herror authorized, ?_⟩
      rw [show w.ledger.records = DocumentRepository.find w from rfl, hintent, hledger]
      refine Ledger.apply_register_eq_some.mpr ⟨hnone, ?_⟩
      simp only [Option.toList_none, List.append_nil]
      rfl
    · refine ⟨_, Exchange.does_of_ok hok authorized, ?_⟩
      rw [show w.ledger.records = DocumentRepository.find w from rfl, hintent,
        ledger_appended appended, hledger]
      exact Ledger.apply_register_eq_some.mpr ⟨hnone, rfl⟩
  | stored d body record request authorized found digest logged =>
    have hintent : x.intent P (DocumentRepository.find w) = .store (getObjectStorage P x.inp) d body
        (some (x.audited P record.tenantId "document.content_uploaded" "document"
          (strUuid d))) := by
      simp only [Exchange.intent, Exchange.logEntry, request, found, Option.map_some]
    rcases logged with ⟨rfl, herror⟩ | ⟨⟨details, appended⟩, hok⟩
    · refine ⟨_, Exchange.does_unlogged herror authorized, ?_⟩
      rw [show w.ledger.records = DocumentRepository.find w from rfl, hintent,
        ledger_withObject found]
      refine Ledger.apply_store_eq_some.mpr ⟨⟨record, found, digest⟩, ?_⟩
      simp only [Option.toList_none, List.append_nil]
    · refine ⟨_, Exchange.does_of_ok hok authorized, ?_⟩
      rw [show w.ledger.records = DocumentRepository.find w from rfl, hintent,
        ledger_appended appended, ledger_withObject found]
      exact Ledger.apply_store_eq_some.mpr ⟨⟨record, found, digest⟩, rfl⟩

end Refines

/-! ## Runs -/

section Runs

variable {P : Platform} {xs ys : List Exchange} {w w' : World} {L L' : Ledger}

theorem Ledger.grows_of_run (h : Run (Ledger.Step P) L xs L') : L.Grows L' :=
  h.invariant (.refl L) fun _ _ _ hgrows hstep => by
    obtain ⟨action, -, happly⟩ := hstep
    exact hgrows.trans (Ledger.grows_apply happly)

theorem Ledger.sound_of_run (hL : L.Sound P.sha256Hex) (h : Run (Ledger.Step P) L xs L') :
    L'.Sound P.sha256Hex :=
  h.invariant hL fun _ _ _ hsound hstep => by
    obtain ⟨action, -, happly⟩ := hstep
    exact hsound.apply happly

theorem ledger_of_continued (hrun : Run (Serves P) World.empty xs w)
    (hmore : Run (Serves P) w ys w') : Run (Ledger.Step P) w.ledger ys w'.ledger := by
  have hboth := hmore.history (I := fun ys v => Stored P (xs ++ ys) v ∧
    Run (Ledger.Step P) w.ledger ys v.ledger) ⟨by simpa using stored_of_run hrun, .nil⟩ ?_
  · exact hboth.2
  · rintro ys v x v' ⟨hstored, hledger⟩ hserve
    refine ⟨by simpa using hstored.step hserve, hledger.snoc ?_⟩
    exact step_of_outcome (outcome_of_serves hserve) fun d hnone backend tenantId =>
      (hstored.unrecorded hnone backend tenantId).1

end Runs

/-! ## The trail -/

/-- The entries that a request leaves in the trail, by the records it finds. -/
def Exchange.Leaves (P : Platform) (records : UUID → Option DocumentRecord) (x : Exchange)
    (entries : List AuditEntry) : Prop :=
  match x.answer with
  | .ok _ => entries = (x.logEntry P records).toList
  | .error e => entries = [] ∨ e = internalServerError ∧ (∃ d, x.request = .downloadDocument d) ∧
      entries = (x.logEntry P records).toList

section Trail

variable {P : Platform} {xs : List Exchange} {x : Exchange} {L L' : Ledger}
  {records records' : UUID → Option DocumentRecord}

theorem entries_intent : (x.intent P records).entries = (x.logEntry P records).toList := by
  unfold Exchange.intent
  split
  · rfl
  · next hrequest => simp only [Exchange.logEntry, hrequest]; rfl
  · rfl
  · cases x.logEntry P records <;> rfl

theorem entries_unlogged (action : Ledger.Action) : action.unlogged.entries = [] := by
  cases action <;> rfl

/-- Where the caller may do what the request asks for, the entry is the same with more
records. -/
theorem entry_of_authorized (hrecords : ∀ d r, records d = some r → records' d = some r)
    (h : x.Authorized records) : x.logEntry P records' = x.logEntry P records := by
  obtain ⟨inp, headers, context, request, answer⟩ := x
  have hdocument : ∀ {d : UUID} {action : String}, (∃ record, records d = some record ∧
      (evaluateAbac context action record.tenantId record.classification
        headers.purpose).allowed) → records' d = records d := by
    rintro d action ⟨record, hfind, -⟩
    rw [hrecords d record hfind, hfind]
  cases request with
  | processDocument d => simp only [Exchange.logEntry, hdocument h]
  | uploadDocumentContent d body => simp only [Exchange.logEntry, hdocument h]
  | downloadDocument d => simp only [Exchange.logEntry, hdocument h]
  | _ => rfl

theorem leaves_of_does (hrecords : ∀ d r, records d = some r → records' d = some r)
    {action : Ledger.Action} (h : x.Does P records action) :
    x.Leaves P records' action.entries := by
  unfold Exchange.Does at h
  unfold Exchange.Leaves
  cases hanswer : x.answer with
  | ok response =>
    rw [hanswer] at h
    obtain ⟨hauthorized, rfl⟩ := h
    rw [entries_intent, entry_of_authorized hrecords hauthorized]
  | error e =>
    rw [hanswer] at h
    rcases h with rfl | ⟨he, hauthorized, rfl | ⟨hdownload, rfl⟩⟩
    · exact Or.inl rfl
    · exact Or.inl (entries_unlogged _)
    · refine Or.inr ⟨he, hdownload, ?_⟩
      rw [entries_intent, entry_of_authorized hrecords hauthorized]

theorem trail_of_run (h : Run (Ledger.Step P) L xs L')
    (hrecords : ∀ d r, L'.records d = some r → records d = some r) :
    ∃ entries, List.Forall₂ (Exchange.Leaves P records) xs entries ∧
      L'.trail = L.trail ++ entries.flatten := by
  induction h with
  | nil => exact ⟨[], .nil, by simp⟩
  | @snoc xs L₁ L₂ x _ hstep ih =>
    obtain ⟨action, hdoes, happly⟩ := hstep
    have hgrows := Ledger.grows_apply happly
    have hrecords₁ : ∀ d r, L₁.records d = some r → records d = some r :=
      fun d r hr => hrecords d r (hgrows.records d r hr)
    obtain ⟨entries, hall, htrail⟩ := ih hrecords₁
    refine ⟨entries ++ [action.entries],
      List.rel_append hall (.cons (leaves_of_does hrecords₁ hdoes) .nil), ?_⟩
    rw [Ledger.trail_apply happly, htrail, List.flatten_append, List.flatten_singleton,
      List.append_assoc]

end Trail

/-! ## The API -/

/-- Every run of the API, and every continuation of it, is one of the ledger, in which each
request does only what its answer admits and its caller may do. Contents have the digests of
their records, and nothing recorded is taken back. -/
theorem api_refines_ledger (P : Platform) {xs ys : List Exchange} {w w' : World}
    (hrun : Run (Serves P) World.empty xs w) (hmore : Run (Serves P) w ys w') :
    Run (Ledger.Step P) .empty xs w.ledger ∧ Run (Ledger.Step P) w.ledger ys w'.ledger ∧
      w.ledger.Sound P.sha256Hex ∧ w.ledger.Grows w'.ledger := by
  have hfirst : Run (Ledger.Step P) .empty xs w.ledger := ledger_of_continued .nil hrun
  have hsecond := ledger_of_continued hrun hmore
  exact ⟨hfirst, hsecond, Ledger.sound_of_run Ledger.sound_empty hfirst,
    Ledger.grows_of_run hsecond⟩

theorem api_refines_ledger_run :
    ((exampleIngested.after World.empty).ledger).Grows (exampleState true).ledger := by
  have hserve : Serves examplePlatform (exampleIngested.after World.empty) (exampleUploaded true)
      (exampleState true) := rfl
  exact (api_refines_ledger examplePlatform exampleIngested_run
    (Run.snoc .nil hserve)).2.2.2

/-- The trail of a run: the entries of its requests, in order. A request that succeeds leaves
exactly the entry of its endpoint, if it has one, with the caller, the purpose, the trace and
the time of the request, under the tenant of the resource. A failure leaves none, but for a
download that fails with 500. -/
theorem audit_trail_of_run (P : Platform) {xs : List Exchange} {w : World}
    (hrun : Run (Serves P) World.empty xs w) :
    ∃ entries, List.Forall₂ (Exchange.Leaves P (DocumentRepository.find w)) xs entries ∧
      w.audit.events.rows.map AuditEventORM.entry = entries.flatten := by
  obtain ⟨entries, hall, htrail⟩ := trail_of_run (ledger_of_continued .nil hrun)
    fun _ _ h => h
  exact ⟨entries, hall, htrail.trans (List.nil_append _)⟩

theorem audit_trail_of_run_upload :
    ∃ entries, List.Forall₂ (Exchange.Leaves examplePlatform
        (DocumentRepository.find (exampleState true))) [exampleIngested, exampleUploaded true]
          entries ∧
      entries.flatten.map AuditEntry.action =
        ["document.ingested", "document.content_uploaded"] := by
  obtain ⟨entries, hall, htrail⟩ := audit_trail_of_run examplePlatform (exampleState_run true)
  refine ⟨entries, hall, ?_⟩
  rw [← htrail]
  rfl

end GoAnalyze
