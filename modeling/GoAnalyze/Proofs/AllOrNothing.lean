import GoAnalyze.Proofs.Downloads
import GoAnalyze.Spec.Midway

/-! Ingests and uploads that may end at any statement: when a document or an object
that they leave behind has its audit event. -/

namespace GoAnalyze

open JsonText Sql Frames AuditRepository

/-! ## Where one statement ends a request -/

namespace Fate

/-- What the statement did is there. -/
def takesEffect : Fate → Bool
  | .done | .lost | .killedAfter => true
  | .failed | .killedBefore => false

def kills : Fate → Bool
  | .killedBefore | .killedAfter => true
  | .done | .failed | .lost => false

end Fate

/-- The state that stays when the process may have ended. -/
def World.afterwards (killed : Bool) (w : World) : World := if killed then w.restarted else w

section Statements

variable {α β : Type} {w v : World} {e : HTTPException}

@[simp] theorem lift_run_ok {m : App α} {a : α} (h : m.run w = .ok a v) :
    (lift m).run w = .ok a v := by
  change m w = _ at h
  simp only [lift, EStateM.run, EStateM.adaptExcept, h]

@[simp] theorem lift_run_error {m : App α} (h : m.run w = .error e v) :
    (lift m).run w = .error (.raised e) v := by
  change m w = _ at h
  simp only [lift, EStateM.run, EStateM.adaptExcept, h]

variable (w) in
theorem run_insertInto {κ : Type} [DecidableEq κ] {pk : α → κ} (table : World → Table pk)
    (check : α → Bool) (row : α) : (insertInto table check row).run w =
      match (table w).insertChecked check row with
      | some rows => .ok rows w
      | none => .error internalServerError w := by
  simp only [insertInto, EStateM.run_bind, EStateM.run_get]
  cases (table w).insertChecked check row <;> rfl

variable {faults : Faults} {s : Statement} {effect : App α} {f : α → FaultyApp β}

theorem run_bind_done (hdone : faults s = .done) {a : α} (h : effect.run w = .ok a v) :
    (faults.run s effect >>= f).run w = (f a).run v := by
  have hrun : (faults.run s effect).run w = .ok a v := by
    change faults.run s effect w = _
    simp only [Faults.run, hdone, lift_run_ok h]
  rw [EStateM.run_bind, hrun]

theorem final_bind_not_done (hdone : faults s ≠ .done) :
    final ((faults.run s effect >>= f).run w) =
      (if (faults s).takesEffect then final (effect.run w) else w).afterwards (faults s).kills := by
  have hrun : (faults.run s effect).run w = faults.run s effect w := rfl
  rw [EStateM.run_bind, hrun, Faults.run]
  cases hfate : faults s with
  | done => exact absurd hfate hdone
  | failed => rfl
  | lost => rfl
  | killedBefore => rfl
  | killedAfter => rfl

/-- A statement that only reads ends the request without a trace, whatever stops it. -/
theorem final_bind_stop (hread : final (effect.run w) = w)
    (hstop : faults s ≠ .done ∨ ∃ e, effect.run w = .error e w) :
    final ((faults.run s effect >>= f).run w) = w.afterwards (faults s).kills := by
  by_cases hdone : faults s = .done
  · obtain ⟨e, herror⟩ := hstop.resolve_left (not_not.mpr hdone)
    have hrun : (faults.run s effect).run w = .error (.raised e) w := by
      change faults.run s effect w = _
      simp only [Faults.run, hdone, lift_run_error herror]
    rw [EStateM.run_bind, hrun, hdone]
    rfl
  · rw [final_bind_not_done hdone, hread, ite_self]

theorem final_bind_commit (g : World → World) (b : β) :
    final ((faults.run s (modify g) >>= fun _ => (pure b : FaultyApp β)).run w) =
      (if (faults s).takesEffect then g w else w).afterwards (faults s).kills := by
  by_cases hdone : faults s = .done
  · have hmodify : (modify g : App PUnit).run w = .ok ⟨⟩ (g w) := rfl
    rw [run_bind_done hdone hmodify, hdone]
    rfl
  · exact final_bind_not_done hdone

end Statements

/-! ## The append -/

/-- A statement of the locked append only. -/
def lockedOnly (P : Platform) (statement : Statement × Bool) : List (Statement × Bool) :=
  match P.dialect with
  | .postgresql => [statement]
  | .sqlite => []

/-- The database takes the row of an event. -/
def Insertable (P : Platform) (w : World) (event : AuditEvent) : Prop :=
  (toOrm P.dialect event).fits P.dialect ∧ event.id ∉ w.audit.events.rows.map AuditEventORM.id

instance (P : Platform) (w : World) (event : AuditEvent) : Decidable (Insertable P w event) :=
  inferInstanceAs (Decidable (_ ∧ _))

/-- The statements of an append before its commit, and which of them the database
refuses. -/
def appendStatements (P : Platform) (w : World) (event : AuditEvent) : List (Statement × Bool) :=
  lockedOnly P (.upsertChainState, !varchar 255 event.tenantId) ++
    (.selectHead, false) :: (.insertEvent, ¬ Insertable P w event) ::
      lockedOnly P (.updateChainState, false)

theorem insertable_iff {P : Platform} {w : World} {event : AuditEvent} :
    Insertable P w event ↔ ∃ events, w.audit.events.insertChecked (AuditEventORM.fits P.dialect)
      (toOrm P.dialect (w.chained P event)) = some events := by
  rw [Table.exists_insertChecked_iff]
  rfl

theorem run_append_ok_iff {P : Platform} {w : World} {event : AuditEvent} :
    (∃ appended v, (AuditLog.append P event).run w = .ok appended v) ↔ Insertable P w event := by
  rw [insertable_iff, run_append]
  cases w.audit.events.insertChecked (AuditEventORM.fits P.dialect)
      (toOrm P.dialect (w.chained P event)) with
  | none =>
    constructor
    · rintro ⟨_, _, h⟩
      cases h
    · rintro ⟨_, h⟩
      cases h
  | some events => exact iff_of_true ⟨_, _, rfl⟩ ⟨events, rfl⟩

namespace Faults

variable (faults : Faults) (P : Platform) (w : World) (event : AuditEvent)

/-- The first statement that does not succeed. -/
def stop : List (Statement × Bool) → Option Statement
  | [] => none
  | (s, refused) :: rest => if faults s ≠ .done ∨ refused then some s else stop rest

/-- The append commits its event. -/
def Logs : Prop :=
  faults.stop (appendStatements P w event) = none ∧ (faults .commitEvent).takesEffect

/-- The process ends in the append. -/
def dies : Bool :=
  (faults ((faults.stop (appendStatements P w event)).getD .commitEvent)).kills

instance : Decidable (faults.Logs P w event) := inferInstanceAs (Decidable (_ ∧ _))

variable {faults P w event}

/-- The state after statements that only read, with `reached` where all succeed. -/
def ends (faults : Faults) (w reached : World) (statements : List (Statement × Bool)) : World :=
  match faults.stop statements with
  | some s => w.afterwards (faults s).kills
  | none => reached

theorem final_bind_cons {α β : Type} {s : Statement} {refused : Bool} {effect : App α}
    {f : α → FaultyApp β} {reached : World} {rest : List (Statement × Bool)}
    (hrefused : refused = true → ∃ e, effect.run w = .error e w)
    (hrest : refused = false →
      ∃ a, effect.run w = .ok a w ∧ final ((f a).run w) = faults.ends w reached rest) :
    final ((faults.run s effect >>= f).run w) = faults.ends w reached ((s, refused) :: rest) := by
  have hcons : faults.stop ((s, refused) :: rest) =
      if faults s ≠ .done ∨ refused then some s else faults.stop rest := rfl
  unfold ends
  rw [hcons]
  cases hr : refused with
  | true =>
    obtain ⟨e, herror⟩ := hrefused hr
    rw [if_pos (Or.inr rfl)]
    exact final_bind_stop (by rw [herror]; rfl) (Or.inr ⟨e, herror⟩)
  | false =>
    obtain ⟨a, hok, hf⟩ := hrest hr
    by_cases hdone : faults s = .done
    · rw [if_neg (by simp [hdone]), run_bind_done hdone hok, hf]
      rfl
    · rw [if_pos (Or.inl hdone)]
      exact final_bind_stop (by rw [hok]; rfl) (Or.inl hdone)

theorem final_bind_locked {β : Type} {s : Statement} {refused : Bool} {effect : App Unit}
    {f : Unit → FaultyApp β} {reached : World} {rest : List (Statement × Bool)}
    (heffect : effect.run w = if refused then .error internalServerError w else .ok () w)
    (hrest : final ((f ()).run w) = faults.ends w reached rest) :
    final ((faults.runLocked P s effect >>= f).run w) =
      faults.ends w reached (lockedOnly P (s, refused) ++ rest) := by
  unfold runLocked lockedOnly
  cases P.dialect with
  | sqlite => exact hrest
  | postgresql =>
    apply final_bind_cons
    · intro hr
      exact ⟨_, by rw [heffect, hr]; rfl⟩
    · intro hr
      exact ⟨(), by rw [heffect, hr]; rfl, hrest⟩

variable (faults P w event) in
theorem final_append :
    final ((faults.append P event).run w) =
      (if faults.Logs P w event then final ((AuditLog.append P event).run w) else w).afterwards
        (faults.dies P w event) := by
  have hends : final ((faults.append P event).run w) =
      faults.ends w ((if (faults .commitEvent).takesEffect then
        final ((AuditLog.append P event).run w) else w).afterwards (faults .commitEvent).kills)
        (appendStatements P w event) := by
    apply final_bind_locked
    · rw [run_raiseIf]
    refine final_bind_cons (fun h => absurd h (by simp)) fun _ => ⟨_, rfl, ?_⟩
    rw [run_append]
    have hinsert := run_insertInto w (·.audit.events) (AuditEventORM.fits P.dialect)
      (toOrm P.dialect (w.chained P event))
    apply final_bind_cons
    · intro hrefused
      have hnone := Option.eq_none_iff_forall_ne_some.mpr
        (not_exists.mp (mt insertable_iff.mpr (of_decide_eq_true hrefused)))
      rw [hnone] at hinsert
      exact ⟨internalServerError, hinsert⟩
    · intro haccepted
      obtain ⟨events, hevents⟩ := insertable_iff.mp (not_not.mp (of_decide_eq_false haccepted))
      rw [hevents] at hinsert
      refine ⟨events, hinsert, ?_⟩
      rw [hevents, ← List.append_nil (lockedOnly P _)]
      apply final_bind_locked
      · rfl
      · exact final_bind_commit _ _
  rw [hends, ends]
  cases hstop : faults.stop (appendStatements P w event) with
  | none =>
    have hlogs : faults.Logs P w event ↔ (faults .commitEvent).takesEffect := by simp [Logs, hstop]
    simp only [hlogs, dies, hstop, Option.getD_none]
  | some s =>
    have hlogs : ¬ faults.Logs P w event := by simp [Logs, hstop]
    simp only [hlogs, if_false, dies, hstop, Option.getD_some]

theorem appendStatements_congr {v : World} (h : v.audit = w.audit) :
    appendStatements P v event = appendStatements P w event := by
  have hinsertable : Insertable P v event ↔ Insertable P w event := by
    rw [Insertable, Insertable, h]
  unfold appendStatements
  rw [decide_eq_decide.mpr (not_congr hinsertable)]

theorem logs_congr {v : World} (h : v.audit = w.audit) :
    faults.Logs P v event ↔ faults.Logs P w event := by
  rw [Logs, Logs, appendStatements_congr h]

theorem dies_congr {v : World} (h : v.audit = w.audit) :
    faults.dies P v event = faults.dies P w event := by
  rw [dies, dies, appendStatements_congr h]

theorem stop_eq_none {statements : List (Statement × Bool)} (h : faults.stop statements = none)
    {s : Statement} {refused : Bool} (hmem : (s, refused) ∈ statements) : refused = false := by
  induction statements with
  | nil => cases hmem
  | cons x rest ih =>
    unfold stop at h
    split_ifs at h with hx
    rcases List.mem_cons.mp hmem with rfl | hrest
    · exact Bool.eq_false_iff.mpr fun hr => hx (Or.inr hr)
    · exact ih h hrest

theorem insertable_of_logs (h : faults.Logs P w event) : Insertable P w event := by
  have hmem : (.insertEvent, decide (¬ Insertable P w event)) ∈ appendStatements P w event := by
    unfold appendStatements
    exact List.mem_append_right _ (List.mem_cons_of_mem _ List.mem_cons_self)
  exact not_not.mp (of_decide_eq_false (stop_eq_none h.1 hmem))

end Faults

/-! ## Requests without a fault -/

section Done

variable {α β : Type} {w v : World} (P : Platform) (inp : Inputs) (headers : Headers)
  (context : TenantContext)

def allDone : Faults := fun _ => .done

theorem lift_bind (m : App α) (f : α → App β) : lift (m >>= f) = lift m >>= fun a => lift (f a) := by
  funext w
  simp only [lift, EStateM.adaptExcept, bind, EStateM.bind]
  cases m w <;> rfl

theorem run_bind_error {s : Statement} {effect : App α} {f : α → FaultyApp β} {e : HTTPException}
    (h : effect.run w = .error e v) :
    (allDone.run s effect >>= f).run w = .error (.raised e) v := by
  have hrun : (allDone.run s effect).run w = .error (.raised e) v := lift_run_error h
  rw [EStateM.run_bind, hrun]

theorem create_done (record : DocumentRecord) :
    allDone.create P record = lift (DocumentRepository.create P record) := by
  funext w
  change (allDone.create P record).run w = (lift _).run w
  have hinsert := run_insertInto w World.documents (DocumentORM.fits P.dialect)
    (DocumentRepository.toOrm P.dialect record)
  unfold Faults.create
  cases hdocuments : w.documents.insertChecked (DocumentORM.fits P.dialect)
      (DocumentRepository.toOrm P.dialect record) with
  | none =>
    rw [hdocuments] at hinsert
    rw [run_bind_error hinsert, lift_run_error]
    rw [run_create, hdocuments]
  | some documents =>
    rw [hdocuments] at hinsert
    rw [run_bind_done rfl hinsert, lift_run_ok (m := DocumentRepository.create P record)
      (by rw [run_create, hdocuments])]
    rfl

theorem indexDocument_done (record : DocumentRecord) :
    allDone.indexDocument inp record = lift (SearchService.indexDocument inp record) := rfl

theorem append_done (event : AuditEvent) :
    allDone.append P event = lift (AuditLog.append P event) := by
  funext w
  change (allDone.append P event).run w = (lift _).run w
  have hinsert := run_insertInto w (·.audit.events) (AuditEventORM.fits P.dialect)
    (toOrm P.dialect (w.chained P event))
  have hlocked : ∀ s, allDone.runLocked P s (pure ()) = pure () := by
    intro s
    unfold Faults.runLocked
    cases P.dialect <;> rfl
  -- a tenant that the chain-state row refuses is refused by the event row too
  have hupsert : (allDone.runLocked P .upsertChainState
      (raiseIf (!varchar 255 event.tenantId) internalServerError)).run w = .ok () w ∨
      (allDone.runLocked P .upsertChainState
        (raiseIf (!varchar 255 event.tenantId) internalServerError)).run w =
          .error (.raised internalServerError) w ∧ ¬ (toOrm P.dialect event).fits P.dialect := by
    unfold Faults.runLocked
    cases hdialect : P.dialect with
    | sqlite => exact Or.inl rfl
    | postgresql =>
      by_cases htenant : varchar 255 event.tenantId
      · exact Or.inl (lift_run_ok (by rw [run_raiseIf, htenant]; rfl))
      · refine Or.inr ⟨lift_run_error ?_, fun h => htenant (tenantId_of_fits h)⟩
        rw [run_raiseIf, Bool.eq_false_of_not_eq_true htenant]
        rfl
  unfold Faults.append
  rw [EStateM.run_bind]
  rcases hupsert with hok | ⟨herror, hfits⟩
  · rw [hok]
    simp only [hlocked, pure_bind]
    have hhead : (do return chainHead P.dialect P.scanEvents (← get).audit event.tenantId :
        App (Option String)).run w =
          .ok (chainHead P.dialect P.scanEvents w.audit event.tenantId) w := rfl
    refine (run_bind_done rfl hhead).trans ?_
    cases hevents : w.audit.events.insertChecked (AuditEventORM.fits P.dialect)
        (toOrm P.dialect (w.chained P event)) with
    | none =>
      rw [hevents] at hinsert
      refine (run_bind_error hinsert).trans (lift_run_error ?_).symm
      rw [run_append, hevents]
    | some events =>
      rw [hevents] at hinsert
      refine (run_bind_done rfl hinsert).trans (lift_run_ok ?_).symm
      rw [run_append, hevents]
      rfl
  · rw [herror, lift_run_error (run_append_refused P hfits)]

theorem ingestDocument_done (payload : DocumentIngestRequest) :
    allDone.ingestDocument P inp headers context payload =
      lift (ingestDocument P inp headers context payload) := by
  simp only [ingestDocument, lift_bind]
  rw [← append_done, ← indexDocument_done, ← create_done]
  rfl

theorem uploadDocumentContent_done (documentId : UUID) (body : Bytes) :
    allDone.uploadDocumentContent P inp headers context documentId body =
      lift (uploadDocumentContent P inp headers context documentId body) := by
  simp only [uploadDocumentContent, lift_bind]
  simp only [← append_done]
  rfl

end Done

/-! ## All or nothing -/

/-- No document row was written, and no object is there that was not. -/
structure NothingStored (w w' : World) : Prop where
  documents : w'.documents = w.documents
  objects : ∀ backend key object,
    w'.store backend key = some object → w.store backend key = some object

/-- The audit log has one event more, linked to the head of the chain of its tenant. -/
def EventCommitted (P : Platform) (w w' : World) (tenantId action : String) (documentId : UUID) :
    Prop :=
  ∃ event : AuditEvent, event.tenantId = tenantId ∧ event.action = action ∧
    event.resourceType = "document" ∧ event.resourceId = strUuid documentId ∧
    w'.audit.events.rows = w.audit.events.rows ++ [toOrm P.dialect (w.chained P event)]

section Outcomes

variable {P : Platform} {faults : Faults} {w v : World} {event : AuditEvent} {tenantId action : String}
  {documentId : UUID}

@[simp] theorem documents_afterwards (killed : Bool) :
    (w.afterwards killed).documents = w.documents := by
  cases killed <;> rfl

@[simp] theorem audit_afterwards (killed : Bool) : (w.afterwards killed).audit = w.audit := by
  cases killed <;> rfl

theorem store_afterwards (killed : Bool) (backend : Backend) : (w.afterwards killed).store backend =
    if killed ∧ backend = .fallback then fun _ => none else w.store backend := by
  cases killed <;> cases backend <;> rfl

theorem nothingStored_afterwards (killed : Bool) : NothingStored w (w.afterwards killed) where
  documents := documents_afterwards killed
  objects := by
    intro backend key object h
    rw [store_afterwards] at h
    split_ifs at h with hkilled
    exact h

theorem not_eventCommitted (h : v.audit = w.audit) :
    ¬ EventCommitted P w v tenantId action documentId := by
  rintro ⟨event, -, -, -, -, hrows⟩
  rw [h] at hrows
  simp at hrows

variable (P faults event) in
theorem final_append_cases (haudit : v.audit = w.audit) :
    (faults.Logs P v event ∧ (final ((faults.append P event).run v)).audit.events.rows =
      w.audit.events.rows ++ [toOrm P.dialect (w.chained P event)]) ∨
    (¬ faults.Logs P v event ∧
      final ((faults.append P event).run v) = v.afterwards (faults.dies P v event)) := by
  have hfinal := Faults.final_append faults P v event
  by_cases hlogs : faults.Logs P v event
  · left
    obtain ⟨events, hevents⟩ := insertable_iff.mp (Faults.insertable_of_logs hlogs)
    refine ⟨hlogs, ?_⟩
    rw [hfinal, if_pos hlogs, audit_afterwards, run_append, hevents]
    have hchained : v.chained P event = w.chained P event := by
      rw [World.chained, World.chained, haudit]
    change events.rows = _
    rw [Table.rows_insertChecked hevents, haudit, hchained]
  · right
    exact ⟨hlogs, by rw [hfinal, if_neg hlogs]⟩

end Outcomes

section Requests

variable (P : Platform) (faults : Faults) (inp : Inputs) (headers : Headers)
  (context : TenantContext) (w : World)

theorem final_lift_raiseIf {α : Type} (c : Bool) (e : HTTPException) (m : FaultyApp α) :
    final ((lift (raiseIf c e) >>= fun _ => m).run w) = if c then w else final (m.run w) := by
  cases c <;> rfl

/-- An ingest that is denied, whose row is refused, which ends before its row is
committed, or which goes on to commit its event. -/
def Faults.IngestWhole (payload : DocumentIngestRequest) : Prop :=
  ¬ (evaluateAbac context "document:ingest" payload.tenantId payload.classification
    headers.purpose).allowed ∨
  ¬ ((DocumentRepository.toOrm P.dialect (newRecord inp payload)).fits P.dialect ∧
    inp.documentId ∉ w.documents.rows.map DocumentORM.id) ∨
  faults .insertDocument ≠ .done ∨ ¬ (faults .commitDocument).takesEffect ∨
  (faults .commitDocument = .done ∧ ¬ (faults .indexDocument).kills ∧
    faults.Logs P w (ingestedEvent inp headers context (newRecord inp payload)))

theorem run_faultyIndexDocument (record : DocumentRecord) :
    ∃ index, (faults.indexDocument inp record).run w =
      if (faults .indexDocument).kills then .error .killed { w with searchIndex := index }.restarted
      else .ok () { w with searchIndex := index } := by
  have hindex := run_indexDocument w inp record
  have hrun : (faults.indexDocument inp record).run w =
      match faults.run .indexDocument (SearchService.indexDocument inp record) w with
      | .ok a v => .ok a v
      | .error (.raised _) v => .ok () v
      | .error .killed v => .error .killed v := by
    simp only [Faults.indexDocument, tryCatch, tryCatchThe, MonadExceptOf.tryCatch,
      EStateM.tryCatch, EStateM.run]
    cases faults.run .indexDocument (SearchService.indexDocument inp record) w with
    | ok a v => rfl
    | error i v => cases i <;> rfl
  rw [hrun, Faults.run]
  cases faults .indexDocument with
  | done => exact ⟨_, by simp only [lift_run_ok hindex]; rfl⟩
  | failed => exact ⟨w.searchIndex, rfl⟩
  | lost => exact ⟨_, by simp only [hindex]; rfl⟩
  | killedBefore => exact ⟨w.searchIndex, rfl⟩
  | killedAfter => exact ⟨_, by simp only [hindex]; rfl⟩

variable {P faults inp headers context w} in
theorem not_whole_of_row {v : World} {orm : DocumentORM} {tenantId action : String}
    {documentId : UUID} (hrows : v.documents.rows = w.documents.rows ++ [orm])
    (haudit : v.audit = w.audit) :
    ¬ (NothingStored w v ∨ EventCommitted P w v tenantId action documentId) := by
  rintro (hnothing | hevent)
  · rw [hnothing.documents] at hrows
    simp at hrows
  · exact not_eventCommitted haudit hevent

/-- What the transaction of a new row comes to, whatever follows it: it leaves nothing; its
commit takes effect and ends the request; or the request goes on with the row. -/
theorem create_cases {α : Type} (record : DocumentRecord) (m : FaultyApp α) :
    let v := final ((faults.create P record >>= fun _ => m).run w)
    let inserted := (DocumentRepository.toOrm P.dialect record).fits P.dialect ∧
      record.id ∉ w.documents.rows.map DocumentORM.id
    ((¬inserted ∨ faults .insertDocument ≠ .done ∨ ¬(faults .commitDocument).takesEffect) ∧
      NothingStored w v) ∨
    (inserted ∧ faults .insertDocument = .done) ∧ (faults .commitDocument).takesEffect ∧
      ∃ documents, documents.rows =
        w.documents.rows ++ [DocumentRepository.toOrm P.dialect record] ∧
      ((faults .commitDocument ≠ .done ∧ v.documents = documents ∧ v.audit = w.audit) ∨
      (faults .commitDocument = .done ∧ v = final (m.run { w with documents := documents }))) := by
  intro v inserted
  have hv : v = final ((faults.create P record >>= fun _ => m).run w) := rfl
  simp only [Faults.create, bind_assoc] at hv
  have hinsert := run_insertInto w World.documents (DocumentORM.fits P.dialect)
    (DocumentRepository.toOrm P.dialect record)
  by_cases hinserted : inserted
  swap
  · have hnone := Option.eq_none_iff_forall_ne_some.mpr
      (not_exists.mp (mt Table.exists_insertChecked_iff.mp hinserted))
    rw [hnone] at hinsert
    rw [final_bind_stop (by rw [hinsert]; rfl) (Or.inr ⟨_, hinsert⟩)] at hv
    exact Or.inl ⟨Or.inl hinserted, hv ▸ nothingStored_afterwards _⟩
  obtain ⟨documents, hdocuments⟩ := Table.exists_insertChecked_iff.mpr hinserted
  rw [hdocuments] at hinsert
  by_cases hdone : faults .insertDocument = .done
  swap
  · rw [final_bind_stop (by rw [hinsert]; rfl) (Or.inl hdone)] at hv
    exact Or.inl ⟨Or.inr (Or.inl hdone), hv ▸ nothingStored_afterwards _⟩
  rw [run_bind_done hdone hinsert] at hv
  have hrows := Table.rows_insertChecked hdocuments
  by_cases hcommit : faults .commitDocument = .done
  · have hmodify : (modify fun w => { w with documents := documents } : App PUnit).run w =
      .ok ⟨⟩ { w with documents := documents } := rfl
    rw [run_bind_done hcommit hmodify] at hv
    exact Or.inr ⟨⟨hinserted, hdone⟩, by rw [hcommit]; rfl, documents, hrows,
      Or.inr ⟨hcommit, hv⟩⟩
  · rw [final_bind_not_done hcommit] at hv
    cases heffect : (faults .commitDocument).takesEffect with
    | false =>
      rw [heffect] at hv
      exact Or.inl ⟨Or.inr (Or.inr (by simp)), hv ▸ nothingStored_afterwards _⟩
    | true =>
      rw [heffect, if_pos rfl] at hv
      refine Or.inr ⟨⟨hinserted, hdone⟩, rfl, documents, hrows, Or.inl ⟨hcommit, ?_, ?_⟩⟩
      · rw [hv, documents_afterwards]; rfl
      · rw [hv, audit_afterwards]; rfl

/-- With its row stored, an ingest has its event exactly if the process outlives the
indexing and the append goes through. -/
theorem indexed_and_logged_iff (payload : DocumentIngestRequest)
    {documents : Table DocumentORM.id} {orm : DocumentORM}
    (hrows : documents.rows = w.documents.rows ++ [orm]) :
    let v := final ((do
      faults.indexDocument inp (newRecord inp payload)
      let _ ← faults.append P (ingestedEvent inp headers context (newRecord inp payload))
      return newRecord inp payload : FaultyApp DocumentRecord).run
        { w with documents := documents })
    NothingStored w v ∨
        EventCommitted P w v payload.tenantId "document.ingested" inp.documentId ↔
      ¬(faults .indexDocument).kills ∧
        faults.Logs P w (ingestedEvent inp headers context (newRecord inp payload)) := by
  intro v
  have hv : v = final _ := rfl
  obtain ⟨index, hindex⟩ := run_faultyIndexDocument faults inp { w with documents := documents }
    (newRecord inp payload)
  rw [EStateM.run_bind, hindex] at hv
  cases hkills : (faults .indexDocument).kills with
  | true =>
    rw [if_pos hkills] at hv
    exact iff_of_false (not_whole_of_row (by rw [hv]; exact hrows) (by rw [hv]; rfl)) (by simp)
  | false =>
    rw [if_neg (by simp [hkills])] at hv
    simp only [final_bind_pure] at hv
    have haudit : World.audit { w with documents := documents, searchIndex := index } =
      w.audit := rfl
    have happend := final_append_cases P faults (ingestedEvent inp headers context
      (newRecord inp payload)) haudit
    rcases happend with ⟨hlogs, hevent⟩ | ⟨hlogs, hfinal⟩
    · refine iff_of_true (Or.inr ⟨ingestedEvent inp headers context (newRecord inp payload),
        rfl, rfl, rfl, rfl, ?_⟩) ⟨by simp, hlogs⟩
      rw [hv]
      exact hevent
    · have hfinal' := hv.trans hfinal
      refine iff_of_false (not_whole_of_row (by rw [hfinal', documents_afterwards]; exact hrows)
        (by rw [hfinal', audit_afterwards])) ?_
      exact fun h => hlogs h.2

theorem ingest_whole_iff (payload : DocumentIngestRequest) :
    let v := final ((faults.ingestDocument P inp headers context payload).run w)
    NothingStored w v ∨
        EventCommitted P w v payload.tenantId "document.ingested" inp.documentId ↔
      faults.IngestWhole P inp headers context w payload := by
  intro v
  have hv : v = final ((faults.ingestDocument P inp headers context payload).run w) := rfl
  simp only [Faults.ingestDocument, requireAllowed, final_lift_raiseIf] at hv
  unfold Faults.IngestWhole
  by_cases hallowed : (evaluateAbac context "document:ingest" payload.tenantId
      payload.classification headers.purpose).allowed
  swap
  · rw [if_pos (by simpa using hallowed)] at hv
    rw [hv]
    exact iff_of_true (Or.inl (nothingStored_afterwards false)) (Or.inl hallowed)
  rw [if_neg (by simpa using hallowed)] at hv
  have hcreate := create_cases P faults w (newRecord inp payload) (do
    faults.indexDocument inp (newRecord inp payload)
    let _ ← faults.append P (ingestedEvent inp headers context (newRecord inp payload))
    return newRecord inp payload)
  rcases hcreate with ⟨hstopped, hnothing⟩ |
      ⟨⟨hinserted, hdone⟩, heffect, documents, hrows, ⟨hcommit, hdocuments, haudit⟩ | ⟨hcommit, hgoes⟩⟩
  · refine iff_of_true (Or.inl (hv ▸ hnothing)) (Or.inr ?_)
    rcases hstopped with hrefused | hinsert | hcommit
    · exact Or.inl hrefused
    · exact Or.inr (Or.inl hinsert)
    · exact Or.inr (Or.inr (Or.inl hcommit))
  · -- the commit's answer is lost, and the row is there
    have hadded := (congrArg Table.rows hdocuments).trans hrows
    refine iff_of_false (not_whole_of_row (by rw [hv]; exact hadded) (by rw [hv]; exact haudit)) ?_
    rintro (hdenied | hrefused | hinsert | hlost | hcommitted)
    · exact hdenied hallowed
    · exact hrefused hinserted
    · exact hinsert hdone
    · exact hlost heffect
    · exact hcommit hcommitted.1
  · have hgoes' := hv.trans hgoes
    rw [hgoes']
    refine Iff.trans (indexed_and_logged_iff P faults inp headers context w payload hrows) ?_
    constructor
    · intro h
      exact Or.inr (Or.inr (Or.inr (Or.inr ⟨hcommit, h⟩)))
    · rintro (hdenied | hrefused | hinsert | hlost | hcommitted)
      · exact absurd hallowed hdenied
      · exact absurd hinserted hrefused
      · exact absurd hdone hinsert
      · exact absurd heffect hlost
      · exact hcommitted.2

def uploadedEvent (tenantId : String) (documentId : UUID) (body : Bytes) : AuditEvent :=
  newAuditEvent inp headers context tenantId "document.content_uploaded" "document"
    (strUuid documentId) [("bytes", intJson body.length)]

/-- An upload that passes the checks for the record of its id. -/
structure UploadAdmitted (documentId : UUID) (body : Bytes) (record : DocumentRecord) : Prop where
  found : DocumentRepository.find w documentId = some record
  allowed : (evaluateAbac context "document:upload" record.tenantId record.classification
    headers.purpose).allowed
  nonempty : ¬ body.isEmpty
  size : ¬ body.length > maxUploadBytes
  digest : P.sha256Hex body = record.sha256

/-- An upload that is refused, which ends before its object is stored, whose object
was there, which goes on to commit its event, or whose object is lost with the
process. -/
def Faults.UploadWhole (documentId : UUID) (body : Bytes) : Prop :=
  ∀ record, UploadAdmitted P headers context w documentId body record →
    faults .selectDocument ≠ .done ∨ ¬ (faults .putObject).takesEffect ∨
    w.store (getObjectStorage P inp) (storageKey record.tenantId documentId) =
      some (body, record.contentType) ∨
    (faults .putObject = .done ∧
      faults.Logs P w (uploadedEvent inp headers context record.tenantId documentId body)) ∨
    (getObjectStorage P inp = .fallback ∧ ((faults .putObject).kills ∨ faults .putObject = .done ∧
      faults.dies P w (uploadedEvent inp headers context record.tenantId documentId body)))

variable {w} in
theorem nothingStored_put (killed : Bool) (backend : Backend) (key : String) (data : Bytes)
    (contentType : String) :
    NothingStored w ((w.withObject backend key data contentType).afterwards killed) ↔
      w.store backend key = some (data, contentType) ∨ (killed ∧ backend = .fallback) := by
  constructor
  · intro h
    by_cases hlost : killed ∧ backend = .fallback
    · exact Or.inr hlost
    · left
      apply h.objects
      rw [store_afterwards, if_neg hlost, store_withObject, if_pos rfl, Function.update_self]
  · intro h
    refine ⟨by rw [documents_afterwards, documents_withObject], fun backend' key' object hobject => ?_⟩
    rw [store_afterwards] at hobject
    split_ifs at hobject with hkilled
    rw [store_withObject] at hobject
    split_ifs at hobject with hbackend
    · subst hbackend
      have hsame := h.resolve_right hkilled
      by_cases hkey : key' = key
      · rw [hkey, Function.update_self] at hobject
        rw [hkey, hsame, hobject]
      · rwa [Function.update_of_ne hkey] at hobject
    · exact hobject

theorem audit_withObject (backend : Backend) (key : String) (data : Bytes) (contentType : String) :
    (w.withObject backend key data contentType).audit = w.audit := by
  cases backend <;> rfl

/-- From the put on, an upload leaves nothing or has its event exactly if the put takes no
effect, the object was there, the append goes through, or the object is lost with the
process. -/
theorem put_and_logged_iff (record : DocumentRecord) (body : Bytes) (result : Dict) :
    let v := final ((do
      faults.run .putObject (ObjectStorage.put (getObjectStorage P inp)
        (storageKey record.tenantId record.id) body record.contentType)
      let _ ← faults.append P (uploadedEvent inp headers context record.tenantId record.id body)
      return result : FaultyApp Dict).run w)
    NothingStored w v ∨
        EventCommitted P w v record.tenantId "document.content_uploaded" record.id ↔
      ¬(faults .putObject).takesEffect ∨
      w.store (getObjectStorage P inp) (storageKey record.tenantId record.id) =
        some (body, record.contentType) ∨
      (faults .putObject = .done ∧
        faults.Logs P w (uploadedEvent inp headers context record.tenantId record.id body)) ∨
      (getObjectStorage P inp = .fallback ∧ ((faults .putObject).kills ∨ faults .putObject = .done ∧
        faults.dies P w (uploadedEvent inp headers context record.tenantId record.id body))) := by
  intro v
  have hv : v = final _ := rfl
  by_cases hput : faults .putObject = .done
  · rw [run_bind_done hput (run_objectPut w (getObjectStorage P inp) _ body record.contentType),
      final_bind_pure] at hv
    have haudit := audit_withObject w (getObjectStorage P inp)
      (storageKey record.tenantId record.id) body record.contentType
    have happend := final_append_cases P faults
      (uploadedEvent inp headers context record.tenantId record.id body) haudit
    rw [Faults.logs_congr haudit, Faults.dies_congr haudit] at happend
    rcases happend with ⟨hlogs, hrows⟩ | ⟨hlogs, hfinal⟩
    · refine iff_of_true (Or.inr ⟨uploadedEvent inp headers context record.tenantId record.id body,
        rfl, rfl, rfl, rfl, ?_⟩) (Or.inr (Or.inr (Or.inl ⟨hput, hlogs⟩)))
      rw [hv]
      exact hrows
    · have hfinal' := hv.trans hfinal
      have hnoevent : ¬EventCommitted P w v record.tenantId "document.content_uploaded" record.id :=
        not_eventCommitted (by rw [hfinal', audit_afterwards, haudit])
      rw [or_iff_left hnoevent, hfinal', nothingStored_put]
      simp [hput, hlogs, Fate.takesEffect, Fate.kills, and_comm]
  · rw [final_bind_not_done hput, run_objectPut] at hv
    have hnoevent : ¬EventCommitted P w v record.tenantId "document.content_uploaded" record.id := by
      refine not_eventCommitted ?_
      rw [hv, audit_afterwards]
      split
      · exact audit_withObject w _ _ _ _
      · rfl
    rw [or_iff_left hnoevent, hv]
    cases heffect : (faults .putObject).takesEffect with
    | false => exact iff_of_true (nothingStored_afterwards _) (by simp)
    | true =>
      rw [if_pos rfl]
      change NothingStored w ((w.withObject _ _ _ _).afterwards _) ↔ _
      rw [nothingStored_put]
      simp [hput, and_comm]

theorem upload_whole_of_refused {documentId : UUID} {body : Bytes} {v : World}
    (hnone : ∀ record, ¬UploadAdmitted P headers context w documentId body record)
    (hnothing : NothingStored w v) :
    NothingStored w v ∨ (∃ record, DocumentRepository.find w documentId = some record ∧
        EventCommitted P w v record.tenantId "document.content_uploaded" documentId) ↔
      faults.UploadWhole P inp headers context w documentId body :=
  iff_of_true (Or.inl hnothing) fun record h => absurd h (hnone record)

theorem upload_whole_iff (documentId : UUID) (body : Bytes) :
    let v := final ((faults.uploadDocumentContent P inp headers context documentId body).run w)
    NothingStored w v ∨ (∃ record, DocumentRepository.find w documentId = some record ∧
        EventCommitted P w v record.tenantId "document.content_uploaded" documentId) ↔
      faults.UploadWhole P inp headers context w documentId body := by
  intro v
  have hv : v = final ((faults.uploadDocumentContent P inp headers context documentId body).run w) :=
    rfl
  simp only [Faults.uploadDocumentContent] at hv
  rcases @fetchAllowed_cases headers context w "document:upload" documentId with
    ⟨e, -, hrun⟩ | ⟨record, hfind, hallowed, hrun⟩
  · rw [final_bind_stop (by rw [hrun]; rfl) (Or.inr ⟨e, hrun⟩)] at hv
    refine upload_whole_of_refused P faults inp headers context w (fun record h => ?_)
      (hv ▸ nothingStored_afterwards _)
    rw [run_fetchAllowed h.found h.allowed] at hrun
    cases hrun
  by_cases hselect : faults .selectDocument = .done
  swap
  · rw [final_bind_stop (by rw [hrun]; rfl) (Or.inl hselect)] at hv
    exact iff_of_true (Or.inl (hv ▸ nothingStored_afterwards _)) fun _ _ => Or.inl hselect
  rw [run_bind_done hselect hrun, final_lift_raiseIf, final_lift_raiseIf, final_lift_raiseIf] at hv
  by_cases hchecks : UploadAdmitted P headers context w documentId body record
  swap
  · refine upload_whole_of_refused P faults inp headers context w (fun record' h => hchecks ?_) ?_
    · cases hfind.symm.trans h.found
      exact h
    · split_ifs at hv with hempty hsize hdigest
      · exact hv ▸ nothingStored_afterwards false
      · exact hv ▸ nothingStored_afterwards false
      · exact hv ▸ nothingStored_afterwards false
      · exact absurd ⟨hfind, hallowed, hempty, by simpa using hsize, by simpa using hdigest⟩ hchecks
  rw [if_neg hchecks.nonempty, if_neg (by simpa using hchecks.size),
    if_neg (by simpa using hchecks.digest)] at hv
  obtain rfl : record.id = documentId := find_id hfind
  -- there is one record with the id, so both sides are about it
  have hone : faults.UploadWhole P inp headers context w record.id body ↔ _ :=
    ⟨fun h => h record hchecks, fun h record' h' => by
      cases hfind.symm.trans h'.found
      exact h⟩
  have hevent : (∃ record', DocumentRepository.find w record.id = some record' ∧
      EventCommitted P w v record'.tenantId "document.content_uploaded" record.id) ↔
      EventCommitted P w v record.tenantId "document.content_uploaded" record.id := by
    refine ⟨?_, fun h => ⟨record, hfind, h⟩⟩
    rintro ⟨record', hfind', h⟩
    cases hfind.symm.trans hfind'
    exact h
  have hput := put_and_logged_iff P faults inp headers context w record body
    [("document_id", .str (strUuid record.id)), ("bytes_stored", intJson body.length),
      ("sha256", .str (P.sha256Hex body))]
  rw [hone, hevent, or_iff_right (not_not.mpr hselect), hv]
  exact hput

/-- An ingest, or an upload, leaves nothing behind or commits its event exactly where no
failure comes between the two. -/
theorem document_change_has_event_iff :
    (∀ payload, let v := final ((faults.ingestDocument P inp headers context payload).run w)
      (NothingStored w v ∨
        EventCommitted P w v payload.tenantId "document.ingested" inp.documentId) ↔
      faults.IngestWhole P inp headers context w payload) ∧
    (∀ documentId body,
      let v := final ((faults.uploadDocumentContent P inp headers context documentId body).run w)
      (NothingStored w v ∨ ∃ record, DocumentRepository.find w documentId = some record ∧
        EventCommitted P w v record.tenantId "document.content_uploaded" documentId) ↔
      faults.UploadWhole P inp headers context w documentId body) :=
  ⟨ingest_whole_iff P faults inp headers context w,
    upload_whole_iff P faults inp headers context w⟩

end Requests

/-- The trace id of this ingest is too long for its event, and the row is there without. -/
theorem row_without_event :
    let v := final ((allDone.ingestDocument examplePlatform (exampleInputs 1)
      ⟨none, some longTraceId⟩ exampleContext examplePayload).run World.empty)
    ¬ (NothingStored World.empty v ∨
      EventCommitted examplePlatform World.empty v "env" "document.ingested" 7) := by
  intro v h
  have hwhole := (ingest_whole_iff examplePlatform allDone (exampleInputs 1)
    ⟨none, some longTraceId⟩ exampleContext World.empty examplePayload).mp h
  rcases hwhole with hdenied | hrefused | hinsert | hcommit | ⟨-, -, hlogs⟩
  · refine hdenied ?_
    change (evaluateAbac exampleContext "document:ingest" "env" .internal "case-review").allowed
    decide
  · exact hrefused ⟨rfl, List.not_mem_nil⟩
  · exact hinsert rfl
  · exact hcommit rfl
  · have hfits := (Faults.insertable_of_logs hlogs).1
    exact not_varchar_longTraceId ((fits_newAuditEvent rfl rfl (varchar_strUuid 7)).mp hfits rfl).2.2.2

end GoAnalyze
