import GoAnalyze.Proofs.AllOrNothing
import GoAnalyze.Proofs.ReviewFlow

/-! Whether the rows that requests write fit their columns. The columns of SQLite take
any string, so that a run there shows every row a request writes. -/

namespace GoAnalyze

open JsonText Sql Frames AuditRepository

def Platform.on (P : Platform) (dialect : Dialect) : Platform := { P with dialect := dialect }

/-- These rows were added, and no others. -/
structure Adds (w w' : World) (documents : List DocumentORM) (events : List AuditEventORM)
    (assignments : List CaseAssignmentORM) : Prop where
  documents : w'.documents.rows = w.documents.rows ++ documents
  events : w'.audit.events.rows = w.audit.events.rows ++ events
  assignments : w'.caseAssignments = w.caseAssignments ++ assignments

/-- Every row that was added is within the bounds of its columns. -/
def WithinBounds (w w' : World) : Prop :=
  ∃ documents events assignments, Adds w w' documents events assignments ∧
    (∀ orm ∈ documents, orm.fits .postgresql) ∧ (∀ orm ∈ events, orm.fits .postgresql) ∧
    ∀ orm ∈ assignments, orm.fits .postgresql

def World.rowCount (w : World) : ℕ :=
  w.documents.rows.length + w.audit.events.rows.length + w.caseAssignments.length

section Adds

variable {w w' : World} {documents documents' : List DocumentORM}
  {events events' : List AuditEventORM} {assignments assignments' : List CaseAssignmentORM}

theorem Adds.refl (w : World) : Adds w w [] [] [] :=
  ⟨by rw [List.append_nil], by rw [List.append_nil], by rw [List.append_nil]⟩

theorem Adds.withinBounds_iff (h : Adds w w' documents events assignments) :
    WithinBounds w w' ↔ (∀ orm ∈ documents, orm.fits .postgresql) ∧
      (∀ orm ∈ events, orm.fits .postgresql) ∧ ∀ orm ∈ assignments, orm.fits .postgresql := by
  constructor
  · rintro ⟨documents', events', assignments', h', hfits⟩
    obtain rfl := List.append_cancel_left (h.documents.symm.trans h'.documents)
    obtain rfl := List.append_cancel_left (h.events.symm.trans h'.events)
    obtain rfl := List.append_cancel_left (h.assignments.symm.trans h'.assignments)
    exact hfits
  · exact fun hfits => ⟨documents, events, assignments, h, hfits⟩

theorem Adds.rowCount_eq (h : Adds w w' documents events assignments) :
    w'.rowCount = w.rowCount + (documents.length + events.length + assignments.length) := by
  rw [World.rowCount, World.rowCount, h.documents, h.events, h.assignments]
  simp only [List.length_append]
  omega

end Adds

/-! ## Requests that append one event -/

def eventRows (P : Platform) (w : World) (event : AuditEvent) : List AuditEventORM :=
  if Insertable P w event then [toOrm P.dialect (w.chained P event)] else []

theorem adds_append (P : Platform) (w : World) (event : AuditEvent) :
    Adds w (final ((AuditLog.append P event).run w)) [] (eventRows P w event) [] := by
  rw [run_append, eventRows]
  by_cases hinsertable : Insertable P w event
  · obtain ⟨events, hevents⟩ := insertable_iff.mp hinsertable
    rw [hevents, if_pos hinsertable]
    exact ⟨by rw [List.append_nil]; rfl, Table.rows_insertChecked hevents, by rw [List.append_nil]; rfl⟩
  · have hnone := Option.eq_none_iff_forall_ne_some.mpr
      (not_exists.mp (mt insertable_iff.mpr hinsertable))
    rw [hnone, if_neg hinsertable]
    exact Adds.refl w

/-- The program appends this event where it is admitted, and adds nothing else. -/
structure Audits {α : Type} (P : Platform) (w : World) (m : Platform → App α) (admitted : Prop)
    (event : AuditEvent) : Prop where
  appended : admitted → ∀ dialect,
    Adds w (final ((m (P.on dialect)).run w)) [] (eventRows (P.on dialect) w event) []
  refused : ¬ admitted → ∀ dialect, Adds w (final ((m (P.on dialect)).run w)) [] [] []

/-- The event has an id that no stored one has. -/
def NewId (w : World) (event : AuditEvent) : Prop :=
  event.id ∉ w.audit.events.rows.map AuditEventORM.id

/-- The rows of a run where columns take anything are within bounds, and a run on
PostgreSQL adds as many. -/
def Storable {α : Type} (P : Platform) (w : World) (m : Platform → App α) : Prop :=
  WithinBounds w (final ((m (P.on .sqlite)).run w)) ∧
    (final ((m (P.on .postgresql)).run w)).rowCount = (final ((m (P.on .sqlite)).run w)).rowCount

theorem eventRows_storable_iff (P : Platform) (w : World) (event : AuditEvent) :
    ((∀ orm ∈ eventRows (P.on .sqlite) w event, orm.fits .postgresql) ∧
      (eventRows (P.on .postgresql) w event).length = (eventRows (P.on .sqlite) w event).length) ↔
      (NewId w event → (toOrm .postgresql event).fits .postgresql) := by
  have hanything : Insertable (P.on .sqlite) w event ↔ NewId w event := and_iff_right rfl
  have hbounded : Insertable (P.on .postgresql) w event ↔
      (toOrm .postgresql event).fits .postgresql ∧ NewId w event := Iff.rfl
  unfold eventRows
  by_cases hnew : NewId w event
  · rw [if_pos (hanything.mpr hnew)]
    by_cases hfits : (toOrm .postgresql event).fits .postgresql
    · rw [if_pos (hbounded.mpr ⟨hfits, hnew⟩)]
      refine iff_of_true ⟨fun orm horm => ?_, rfl⟩ fun _ => hfits
      rw [List.mem_singleton.mp horm]
      exact hfits
    · rw [if_neg fun h => hfits (hbounded.mp h).1]
      exact iff_of_false (fun h => absurd h.2 (by simp)) fun h => hfits (h hnew)
  · rw [if_neg fun h => hnew (hanything.mp h), if_neg fun h => hnew (hbounded.mp h).2]
    exact iff_of_true ⟨List.forall_mem_nil _, rfl⟩ fun h => absurd h hnew

theorem storable_of_adds {α : Type} {P : Platform} {w : World} {m : Platform → App α}
    (h : ∀ dialect, Adds w (final ((m (P.on dialect)).run w)) [] [] []) : Storable P w m := by
  have hsqlite := h .sqlite
  refine ⟨hsqlite.withinBounds_iff.mpr ?_, by rw [hsqlite.rowCount_eq, (h .postgresql).rowCount_eq]⟩
  exact ⟨List.forall_mem_nil _, List.forall_mem_nil _, List.forall_mem_nil _⟩

theorem Audits.storable_iff {α : Type} {P : Platform} {w : World} {m : Platform → App α}
    {admitted : Prop} {event : AuditEvent} (h : Audits P w m admitted event) :
    Storable P w m ↔ (admitted → NewId w event → (toOrm .postgresql event).fits .postgresql) := by
  by_cases hadmitted : admitted
  · have hsqlite := h.appended hadmitted .sqlite
    have hpostgresql := h.appended hadmitted .postgresql
    rw [Storable, hsqlite.withinBounds_iff, hsqlite.rowCount_eq, hpostgresql.rowCount_eq,
      ← eventRows_storable_iff P]
    simp [hadmitted]
  · exact iff_of_true (storable_of_adds (h.refused hadmitted)) fun h => absurd h hadmitted

theorem storable_map {α β : Type} {P : Platform} {w : World} {m : Platform → App α} {f : α → β} :
    Storable P w (fun P => m P >>= fun a => pure (f a)) ↔ Storable P w m := by
  simp only [Storable, final_bind_pure]

/-! ## The endpoints -/

/-- PostgreSQL takes the strings that an event has from its request. -/
def EventStrings (headers : Headers) (context : TenantContext) (tenantId : String) : Prop :=
  varchar 255 tenantId ∧ varchar 255 context.actor ∧ varchar 128 headers.purpose ∧
    varchar 255 headers.traceId

section Endpoints

variable (P : Platform) (inp : Inputs) (headers : Headers) (context : TenantContext) (w : World)

theorem fits_event_iff {tenantId action resourceType resourceId : String} {details : Dict}
    (haction : varchar 255 action) (htype : varchar 128 resourceType) :
    (toOrm .postgresql (newAuditEvent inp headers context tenantId action resourceType resourceId
      details)).fits .postgresql ↔ EventStrings headers context tenantId ∧ varchar 255 resourceId := by
  simp only [AuditEventORM.fits, toOrm, newAuditEvent, haction, htype, Bool.and_eq_true, EventStrings,
    and_true]
  tauto

theorem final_raiseIf_bind {α : Type} (c : Bool) (e : HTTPException) (m : App α) :
    final ((raiseIf c e >>= fun _ => m).run w) = if c then w else final (m.run w) := by
  cases c <;> rfl

theorem length_joinedIds (d : UUID) (ds : List UUID) :
    (",".intercalate ((d :: ds).map strUuid)).length + 1 = 37 * (ds.length + 1) := by
  have hid : ∀ u, (strUuid u).length = 36 := fun u => by
    rw [strUuid, String.length_ofList, length_uuidChars]
  induction ds generalizing d with
  | nil => simp [String.intercalate_singleton, hid]
  | cons u ds ih =>
    rw [List.map_cons, List.map_cons, String.intercalate_cons_cons, String.length_append,
      String.length_append, hid, ← List.map_cons]
    have hrest := ih u
    rw [show ",".length = 1 from rfl]
    simp only [List.length_cons]
    omega

theorem ne_nul_of_joinedIds (ds : List UUID) :
    ∀ c ∈ (",".intercalate (ds.map strUuid)).toList, c ≠ '\x00' := by
  have hid : ∀ u, ∀ c ∈ (strUuid u).toList, c ≠ '\x00' := fun u => by
    have h := varchar_strUuid u
    simp only [varchar, Bool.and_eq_true, List.all_eq_true, decide_eq_true_eq] at h
    exact h.2
  induction ds with
  | nil => simp [String.intercalate_nil]
  | cons u ds ih =>
    cases ds with
    | nil => simpa [String.intercalate_singleton] using hid u
    | cons v ds =>
      intro c hc
      rw [List.map_cons, List.map_cons, String.intercalate_cons_cons, ← List.map_cons] at hc
      simp only [String.toList_append, List.mem_append] at hc
      rcases hc with (hu | hcomma) | hrest
      · exact hid u c hu
      · rw [List.mem_singleton.mp hcomma]
        decide
      · exact ih c hrest

def ragResourceId (citations : List EvidenceCitation) : String :=
  let resourceId := ",".intercalate ((citations.map (·.documentId)).map strUuid)
  if resourceId.isEmpty then "none" else resourceId

theorem varchar_ragResourceId (citations : List EvidenceCitation) :
    varchar 255 (ragResourceId citations) ↔ citations.length ≤ 6 := by
  cases citations with
  | nil => exact iff_of_true rfl (Nat.zero_le 6)
  | cons citation rest =>
    have hlength : (",".intercalate (((citation :: rest).map (·.documentId)).map strUuid)).length + 1 =
        37 * (rest.length + 1) := by
      have h := length_joinedIds citation.documentId (rest.map (·.documentId))
      rw [List.length_map] at h
      exact h
    have hchars := ne_nul_of_joinedIds ((citation :: rest).map (·.documentId))
    have hnonempty : ¬ (",".intercalate (((citation :: rest).map (·.documentId)).map
        strUuid)).isEmpty := by
      rw [String.isEmpty_iff]
      intro h
      rw [h, String.length_empty] at hlength
      omega
    rw [ragResourceId, if_neg hnonempty]
    simp only [varchar, Bool.and_eq_true, decide_eq_true_eq, List.all_eq_true, List.length_cons]
    constructor
    · rintro ⟨hle, -⟩
      omega
    · exact fun hle => ⟨by omega, hchars⟩

/-- A citation that its checks let through. -/
def CitationAllowed (citation : EvidenceCitation) : Prop :=
  ∃ record, DocumentRepository.find w citation.documentId = some record ∧
    ¬ (record.tenantId ≠ context.tenantId ∧ "platform-admin" ∉ context.roles) ∧
    ¬ (record.classification = .protectedB ∧ "protected-b-reader" ∉ context.roles)

theorem run_checkCitation {documents : UUID → Option DocumentRecord} {citation : EvidenceCitation}
    (hdocuments :
      documents citation.documentId = DocumentRepository.find w citation.documentId) :
    (CitationAllowed context w citation →
      (checkCitation context documents citation).run w = .ok () w) ∧
    (¬ CitationAllowed context w citation →
      ∃ e, (checkCitation context documents citation).run w = .error e w) := by
  unfold checkCitation CitationAllowed
  rw [hdocuments]
  cases hfind : DocumentRepository.find w citation.documentId with
  | none =>
    refine ⟨?_, fun _ => ⟨_, rfl⟩⟩
    rintro ⟨record, hrecord, -⟩
    cases hrecord
  | some record =>
    simp only [EStateM.run_bind, run_raiseIf, Option.some.injEq, exists_eq_left', ne_eq,
      Bool.decide_and, Bool.and_eq_true, decide_eq_true_eq]
    constructor
    · rintro ⟨htenant, hclass⟩
      rw [if_neg htenant]
      exact if_neg hclass
    · intro hdenied
      by_cases htenant : ¬ record.tenantId = context.tenantId ∧ "platform-admin" ∉ context.roles
      · exact ⟨_, by rw [if_pos htenant]⟩
      · have hclass := Classical.not_not.mp fun hclass => hdenied ⟨htenant, hclass⟩
        exact ⟨_, by rw [if_neg htenant]; exact if_pos hclass⟩

theorem run_checkCitations (documents : UUID → Option DocumentRecord)
    (citations : List EvidenceCitation)
    (hdocuments : ∀ citation ∈ citations,
      documents citation.documentId = DocumentRepository.find w citation.documentId) :
    ((∀ citation ∈ citations, CitationAllowed context w citation) →
      (citations.forM (checkCitation context documents)).run w = .ok () w) ∧
    (¬ (∀ citation ∈ citations, CitationAllowed context w citation) →
      ∃ e, (citations.forM (checkCitation context documents)).run w = .error e w) := by
  induction citations with
  | nil => exact ⟨fun _ => rfl, fun h => absurd (List.forall_mem_nil _) h⟩
  | cons citation citations ih =>
    obtain ⟨hfirst, hrest⟩ := List.forall_mem_cons.mp hdocuments
    obtain ⟨hnext, hstop⟩ := run_checkCitation context w hfirst
    obtain ⟨hall, hsome⟩ := ih hrest
    rw [List.forM_eq_forM, List.forM_cons, EStateM.run_bind]
    constructor
    · intro hallowed
      obtain ⟨hc, hcs⟩ := List.forall_mem_cons.mp hallowed
      rw [hnext hc]
      exact hall hcs
    · intro hdenied
      by_cases hc : CitationAllowed context w citation
      · rw [hnext hc]
        exact hsome fun hcs => hdenied (List.forall_mem_cons.mpr ⟨hc, hcs⟩)
      · obtain ⟨e, he⟩ := hstop hc
        exact ⟨e, by rw [he]⟩

def answeredEvent (question : String) (citations : List EvidenceCitation) : AuditEvent :=
  newAuditEvent inp headers context context.tenantId "rag.answer_generated" "rag_query"
    (ragResourceId citations)
    [("grounded", .bool (GroundedRagService.answer question citations).grounded),
      ("citation_count", intJson citations.length)]

theorem findMany_cited {citations : List EvidenceCitation} {citation : EvidenceCitation}
    (h : citation ∈ citations) :
    DocumentRepository.findMany w (citations.map (·.documentId)) citation.documentId =
      DocumentRepository.find w citation.documentId :=
  if_pos (List.mem_map_of_mem h)

theorem run_ragAnswer (question : String) (citations : List EvidenceCitation) :
    ((∀ citation ∈ citations, CitationAllowed context w citation) →
      (ragAnswer P inp headers context question citations).run w =
        (AuditLog.append P (answeredEvent inp headers context question citations) >>= fun _ =>
          pure (GroundedRagService.answer question citations).modelDump).run w) ∧
    (¬ (∀ citation ∈ citations, CitationAllowed context w citation) →
      ∃ e, (ragAnswer P inp headers context question citations).run w = .error e w) := by
  obtain ⟨hall, hsome⟩ := run_checkCitations context w
    (DocumentRepository.findMany w (citations.map (·.documentId))) citations
    fun _ => findMany_cited w
  have hmany : (DocumentRepository.getMany (citations.map (·.documentId))).run w =
      .ok (DocumentRepository.findMany w (citations.map (·.documentId))) w := rfl
  constructor
  · intro hallowed
    simp only [ragAnswer, EStateM.run_bind, hmany, hall hallowed]
    rfl
  · intro hdenied
    obtain ⟨e, he⟩ := hsome hdenied
    exact ⟨e, by simp only [ragAnswer, EStateM.run_bind, hmany, he]⟩

theorem storable_ragAnswer (question : String) (citations : List EvidenceCitation) :
    Storable P w (ragAnswer · inp headers context question citations) ↔
      ((∀ citation ∈ citations, CitationAllowed context w citation) → Fresh inp w →
        EventStrings headers context context.tenantId ∧ citations.length ≤ 6) := by
  have haudits : Audits P w (ragAnswer · inp headers context question citations)
      (∀ citation ∈ citations, CitationAllowed context w citation)
      (answeredEvent inp headers context question citations) := by
    refine ⟨fun hallowed dialect => ?_, fun hdenied dialect => ?_⟩
    · rw [(run_ragAnswer (P.on dialect) inp headers context w question citations).1 hallowed,
        final_bind_pure]
      exact adds_append (P.on dialect) w _
    · obtain ⟨e, he⟩ :=
        (run_ragAnswer (P.on dialect) inp headers context w question citations).2 hdenied
      rw [he]
      exact Adds.refl w
  rw [haudits.storable_iff, answeredEvent, fits_event_iff inp headers context rfl rfl,
    varchar_ragResourceId]
  rfl

def listedReview (payload : EnvironmentalReviewRequest) : EnvironmentalReviewResult :=
  reviewOf P payload (DocumentRepository.findMany w payload.documents)

def reviewedEvent (payload : EnvironmentalReviewRequest) : AuditEvent :=
  newAuditEvent inp headers context payload.tenantId "environmental_review.completed" "case"
    (strUuid payload.caseId) [("risk_score", scoreJson (listedReview P w payload).riskScore),
      ("recommendation", .str (listedReview P w payload).recommendation)]

theorem storable_environmentalReview (payload : EnvironmentalReviewRequest) :
    Storable P w (environmentalReview · inp headers context payload) ↔
      (¬ (context.tenantId ≠ payload.tenantId ∧ "platform-admin" ∉ context.roles) → Fresh inp w →
        EventStrings headers context payload.tenantId) := by
  have haudits : Audits P w (environmentalReview · inp headers context payload)
      (¬ (context.tenantId ≠ payload.tenantId ∧ "platform-admin" ∉ context.roles))
      (reviewedEvent P inp headers context w payload) := by
    refine ⟨fun hpass dialect => ?_, fun hpass dialect => ?_⟩
    · rw [environmentalReview, final_raiseIf_bind, if_neg (by simpa using hpass)]
      have hfinal := final_bind_pure (AuditLog.append (P.on dialect)
        (reviewedEvent P inp headers context w payload)) (fun _ => (listedReview P w payload).modelDump) w
      rw [EStateM.run_bind, run_getMany]
      exact hfinal ▸ adds_append (P.on dialect) w _
    · rw [environmentalReview, final_raiseIf_bind, if_pos (by simpa using hpass)]
      exact Adds.refl w
  rw [haudits.storable_iff, reviewedEvent, fits_event_iff inp headers context rfl rfl]
  simp only [varchar_strUuid, and_true]
  rfl

theorem storable_fetchAllowed {α : Type} (action : String) (documentId : UUID)
    (f : Platform → DocumentRecord → App α) :
    Storable P w (fun P => fetchAllowed headers context action documentId >>= f P) ↔
      ∀ record, DocumentRepository.find w documentId = some record →
        (evaluateAbac context action record.tenantId record.classification
          headers.purpose).allowed → Storable P w (f · record) := by
  rcases @fetchAllowed_cases headers context w action documentId with
    ⟨e, -, hrun⟩ | ⟨record, hfind, hallowed, hrun⟩
  · refine iff_of_true (storable_of_adds fun dialect => ?_) fun record hfind hallowed => ?_
    · rw [EStateM.run_bind, hrun]
      exact Adds.refl w
    · rw [run_fetchAllowed hfind hallowed] at hrun
      cases hrun
  · have hone : Storable P w (fun P => fetchAllowed headers context action documentId >>= f P) ↔
        Storable P w (f · record) := by
      simp only [Storable, EStateM.run_bind, hrun]
    rw [hone]
    refine ⟨fun h record' hfind' _ => ?_, fun h => h record hfind hallowed⟩
    cases hfind.symm.trans hfind'
    exact h

theorem storable_of_documentEvent {α : Type} {m : Platform → App α} {admitted : Prop}
    {record : DocumentRecord} {action : String} {details : Dict} (haction : varchar 255 action)
    (haudits : Audits P w m admitted (newAuditEvent inp headers context record.tenantId action
      "document" (strUuid record.id) details)) :
    Storable P w m ↔ (admitted → Fresh inp w → EventStrings headers context record.tenantId) := by
  rw [haudits.storable_iff, fits_event_iff inp headers context haction rfl]
  simp only [varchar_strUuid, and_true]
  rfl

/-- The review of a document that is processed, which OCR gives no text. -/
def processedReview (record : DocumentRecord) : Except HTTPException EnvironmentalReviewResult :=
  IngestionPipeline.compliance P record (IngestionPipeline.classify P []).1
    (IngestionPipeline.stageMetadata record [])

theorem storable_processDocument (documentId : UUID) :
    Storable P w (processDocument · inp headers context documentId) ↔
      ∀ record, DocumentRepository.find w documentId = some record →
        (evaluateAbac context "document:process" record.tenantId record.classification
          headers.purpose).allowed →
        (∃ review, processedReview P record = .ok review) → Fresh inp w →
        EventStrings headers context record.tenantId := by
  unfold processDocument
  rw [storable_fetchAllowed]
  refine forall_congr' fun record => imp_congr_right fun _ => imp_congr_right fun _ => ?_
  have hrun : ∀ dialect, IngestionPipeline.run (P.on dialect) record nullOcrEngine none inp
      context.actor headers.traceId headers.purpose = IngestionPipeline.runText (P.on dialect) record
        [] inp context.actor headers.traceId headers.purpose := fun _ => rfl
  cases hreview : processedReview P record with
  | error e =>
    refine iff_of_true (storable_of_adds fun dialect => ?_) ?_
    · have hreview' : IngestionPipeline.compliance (P.on dialect) record
          (IngestionPipeline.classify (P.on dialect) []).1
          (IngestionPipeline.stageMetadata record []) = .error e := hreview
      simp only [hrun, IngestionPipeline.runText, hreview']
      exact Adds.refl w
    · rintro ⟨review, h⟩
      cases h
  | ok review =>
    have haudits : Audits P w (fun P => IngestionPipeline.run P record nullOcrEngine none inp
        context.actor headers.traceId headers.purpose) True
        (IngestionPipeline.auditEvent P record [] inp context.actor headers.traceId headers.purpose
          (IngestionPipeline.classify P []).1 review.riskScore) := by
      refine ⟨fun _ dialect => ?_, fun h => absurd trivial h⟩
      have hreview' : IngestionPipeline.compliance (P.on dialect) record
          (IngestionPipeline.classify (P.on dialect) []).1
          (IngestionPipeline.stageMetadata record []) = .ok review := hreview
      simp only [hrun, IngestionPipeline.runText, hreview', final_bind_pure]
      exact adds_append (P.on dialect) w _
    exact (storable_of_documentEvent P inp headers context w rfl haudits).trans (by simp)

theorem storable_downloadDocument (documentId : UUID) :
    Storable P w (downloadDocument · inp headers context documentId) ↔
      ∀ record, DocumentRepository.find w documentId = some record →
        (evaluateAbac context "document:download" record.tenantId record.classification
          headers.purpose).allowed →
        (w.store (getObjectStorage P inp) (storageKey record.tenantId record.id)).isSome →
        Fresh inp w → EventStrings headers context record.tenantId := by
  unfold downloadDocument
  rw [storable_fetchAllowed]
  refine forall_congr' fun record => imp_congr_right fun _ => imp_congr_right fun _ => ?_
  cases hstore : w.store (getObjectStorage P inp) (storageKey record.tenantId record.id) with
  | none =>
    refine iff_of_true (storable_of_adds fun dialect => ?_) nofun
    have hstore' : w.store (getObjectStorage (P.on dialect) inp)
        (storageKey record.tenantId record.id) = none := hstore
    rw [EStateM.run_bind, run_objectGet, hstore']
    exact Adds.refl w
  | some object =>
    refine (@storable_of_documentEvent P inp headers context w _ _ True record "document.downloaded"
      [("bytes", intJson object.1.length)] rfl ⟨fun _ dialect => ?_, fun h => absurd trivial h⟩).trans
      (by simp)
    have hstore' : w.store (getObjectStorage (P.on dialect) inp)
        (storageKey record.tenantId record.id) = some object := hstore
    rw [EStateM.run_bind, run_objectGet, hstore']
    refine (congrArg (Adds w · [] _ []) (final_bind (fun _ s => ?_) w)).mpr
      (adds_append (P.on dialect) w _)
    rw [final_raiseIf_bind]
    exact ite_self s

theorem adds_append_withObject (backend : Backend) (key : String) (data : Bytes)
    (contentType : String) (event : AuditEvent) :
    Adds w (final ((AuditLog.append P event).run (w.withObject backend key data contentType))) []
      (eventRows P w event) [] := by
  have hadds := adds_append P (w.withObject backend key data contentType) event
  cases backend <;> exact ⟨hadds.documents, hadds.events, hadds.assignments⟩

theorem storable_uploadDocumentContent (documentId : UUID) (body : Bytes) :
    Storable P w (uploadDocumentContent · inp headers context documentId body) ↔
      ∀ record, UploadAdmitted P headers context w documentId body record → Fresh inp w →
        EventStrings headers context record.tenantId := by
  unfold uploadDocumentContent
  rw [storable_fetchAllowed]
  refine forall_congr' fun record => ?_
  have haudits : Audits P w (fun P => do
      raiseIf body.isEmpty ⟨422, "empty_upload_body"⟩
      raiseIf (body.length > maxUploadBytes) ⟨413, "upload_too_large"⟩
      raiseIf (P.sha256Hex body ≠ record.sha256) ⟨422, "sha256_mismatch"⟩
      ObjectStorage.put (getObjectStorage P inp) (storageKey record.tenantId record.id) body
        record.contentType
      let _ ← AuditLog.append P (newAuditEvent inp headers context record.tenantId
        "document.content_uploaded" "document" (strUuid record.id) [("bytes", intJson body.length)])
      return [("document_id", .str (strUuid record.id)), ("bytes_stored", intJson body.length),
        ("sha256", .str (P.sha256Hex body))])
      (¬ body.isEmpty ∧ ¬ body.length > maxUploadBytes ∧ P.sha256Hex body = record.sha256)
      (newAuditEvent inp headers context record.tenantId "document.content_uploaded" "document"
        (strUuid record.id) [("bytes", intJson body.length)]) := by
    have hdigest : ∀ dialect, (P.on dialect).sha256Hex body = P.sha256Hex body := fun _ => rfl
    constructor
    · rintro ⟨hempty, hsize, hsha⟩ dialect
      rw [final_raiseIf_bind, if_neg hempty, final_raiseIf_bind, if_neg (by simpa using hsize),
        final_raiseIf_bind, if_neg (by simp [hdigest, hsha]), EStateM.run_bind, run_objectPut]
      refine (congrArg (Adds w · [] _ []) (final_bind_pure _ _ _)).mpr ?_
      exact adds_append_withObject (P.on dialect) w _ _ _ _ _
    · intro hrefused dialect
      rw [final_raiseIf_bind, final_raiseIf_bind, final_raiseIf_bind, hdigest]
      split_ifs with hempty hsize hsha
      · exact Adds.refl w
      · exact Adds.refl w
      · exact Adds.refl w
      · exact absurd ⟨hempty, by simpa using hsize, by simpa using hsha⟩ hrefused
  have hstorable := storable_of_documentEvent P inp headers context w rfl haudits
  constructor
  · intro h hadmitted
    exact hstorable.mp (h hadmitted.found hadmitted.allowed)
      ⟨hadmitted.nonempty, hadmitted.size, hadmitted.digest⟩
  · intro h hfind hallowed
    exact hstorable.mpr fun ⟨hempty, hsize, hsha⟩ => h ⟨hfind, hallowed, hempty, hsize, hsha⟩

theorem varchar_queue (skill : String) :
    varchar 255 (skill ++ "-review") ↔ varchar 248 skill := by
  simp only [varchar, String.length_append, String.toList_append, List.all_append, Bool.and_eq_true,
    decide_eq_true_eq]
  have hsuffix : "-review".toList.all (fun c => c ≠ '\x00') = true := by decide
  have hlength : "-review".length = 7 := rfl
  rw [hsuffix, hlength]
  constructor
  · rintro ⟨hle, hchars, -⟩
    exact ⟨by omega, hchars⟩
  · rintro ⟨hle, hchars⟩
    exact ⟨by omega, hchars, rfl⟩

def assignmentRow (caseId : UUID) (skill : String) : CaseAssignmentORM where
  caseId := caseId
  tenantId := context.tenantId
  assignee := "analyst-2"
  queue := skill ++ "-review"
  status := ReviewStatus.technicalReview.value
  dueAt := inp.assignTime.addDays 5
  escalationAt := inp.assignTime.addDays 4

theorem fits_assignmentRow (caseId : UUID) (skill : String) :
    (assignmentRow inp context caseId skill).fits .postgresql ↔
      varchar 255 context.tenantId ∧ varchar 248 skill := by
  rw [← varchar_queue]
  have hassignee : varchar 255 "analyst-2" := rfl
  have hstatus : varchar 64 ReviewStatus.technicalReview.value := rfl
  simp only [CaseAssignmentORM.fits, assignmentRow, hassignee, hstatus, Bool.and_eq_true, and_true]

theorem adds_assignCase
    (hrole : ¬ ("case-manager" ∉ context.roles ∧ "tenant-admin" ∉ context.roles)) (caseId : UUID)
    (skill : String) : Adds w (final ((assignCase P inp context caseId skill).run w)) [] []
      (if (assignmentRow inp context caseId skill).fits P.dialect then
        [assignmentRow inp context caseId skill] else []) := by
  have hassign : AssignmentEngine.assign inp.assignTime caseId skill
      [("analyst-1", 3), ("analyst-2", 1)] =
        { caseId := caseId, assignee := "analyst-2", queue := skill ++ "-review"
          dueAt := inp.assignTime.addDays 5, escalationAt := inp.assignTime.addDays 4
          status := .technicalReview } := rfl
  rw [assignCase, final_raiseIf_bind, if_neg (by simpa using hrole)]
  simp only [hassign, CaseRepository.createAssignment, bind_assoc, final_raiseIf_bind]
  change Adds w (if !(assignmentRow inp context caseId skill).fits P.dialect then w else
    { w with caseAssignments := w.caseAssignments ++ [assignmentRow inp context caseId skill] }) _ _ _
  cases (assignmentRow inp context caseId skill).fits P.dialect with
  | false => exact Adds.refl w
  | true => exact ⟨by rw [List.append_nil]; rfl, by rw [List.append_nil]; rfl, rfl⟩

theorem storable_assignCase (caseId : UUID) (skill : String) :
    Storable P w (assignCase · inp context caseId skill) ↔
      (¬ ("case-manager" ∉ context.roles ∧ "tenant-admin" ∉ context.roles) →
        varchar 255 context.tenantId ∧ varchar 248 skill) := by
  rw [← fits_assignmentRow inp context caseId skill]
  by_cases hrole : "case-manager" ∉ context.roles ∧ "tenant-admin" ∉ context.roles
  · refine iff_of_true (storable_of_adds fun dialect => ?_) fun h => absurd hrole h
    rw [assignCase, final_raiseIf_bind, if_pos (by simpa using hrole)]
    exact Adds.refl w
  · have hsqlite := adds_assignCase (P.on .sqlite) inp context w hrole caseId skill
    have hpostgresql := adds_assignCase (P.on .postgresql) inp context w hrole caseId skill
    rw [Storable, hsqlite.withinBounds_iff, hsqlite.rowCount_eq, hpostgresql.rowCount_eq]
    have hanything : (assignmentRow inp context caseId skill).fits (P.on .sqlite).dialect := rfl
    have hbounded : (assignmentRow inp context caseId skill).fits (P.on .postgresql).dialect =
        (assignmentRow inp context caseId skill).fits .postgresql := rfl
    rw [hanything, hbounded]
    by_cases hfits : (assignmentRow inp context caseId skill).fits .postgresql
    · simp [hfits]
    · simp [hrole, hfits]

/-- PostgreSQL takes the strings and the metadata of a document. -/
def DocumentColumns (payload : DocumentIngestRequest) : Prop :=
  varchar 255 payload.tenantId ∧ varchar 1024 payload.filename ∧ varchar 255 payload.contentType ∧
    varchar 64 payload.sha256 ∧ varchar 2048 payload.objectUri ∧
    (Json.obj payload.metadata).isFinite

def ingestedRow (dialect : Dialect) (payload : DocumentIngestRequest) : DocumentORM :=
  DocumentRepository.toOrm dialect (newRecord inp payload)

theorem fits_ingestedRow (dialect : Dialect) (payload : DocumentIngestRequest) :
    (ingestedRow inp dialect payload).fits .postgresql ↔ DocumentColumns payload := by
  have hclass : varchar 64 (ingestedRow inp dialect payload).classification.value := by
    change varchar 64 payload.classification.value
    cases payload.classification <;> rfl
  have hmetadata : (ingestedRow inp dialect payload).docMetadata.read = payload.metadata :=
    DictColumn.read_ofDict _
  simp only [DocumentORM.fits_postgresql, hclass, hmetadata, true_and]
  rfl

theorem adds_ingestDocument {payload : DocumentIngestRequest}
    (hallowed : (evaluateAbac context "document:ingest" payload.tenantId payload.classification
      headers.purpose).allowed) :
    (((ingestedRow inp P.dialect payload).fits P.dialect ∧
        inp.documentId ∉ w.documents.rows.map DocumentORM.id) →
      Adds w (final ((ingestDocument P inp headers context payload).run w))
        [ingestedRow inp P.dialect payload]
        (eventRows P w (ingestedEvent inp headers context (newRecord inp payload))) []) ∧
    (¬ ((ingestedRow inp P.dialect payload).fits P.dialect ∧
        inp.documentId ∉ w.documents.rows.map DocumentORM.id) →
      Adds w (final ((ingestDocument P inp headers context payload).run w)) [] [] []) := by
  constructor
  · intro htaken
    obtain ⟨documents, hdocuments⟩ := Table.exists_insertChecked_iff.mpr htaken
    have hrun := run_ingestDocument hallowed hdocuments
    set index := w.indexWith inp (newRecord inp payload)
    have hadds := adds_append P { w with documents := documents, searchIndex := index }
      (ingestedEvent inp headers context (newRecord inp payload))
    have hrows : documents.rows = w.documents.rows ++ [ingestedRow inp P.dialect payload] :=
      Table.rows_insertChecked hdocuments
    have hfinal : final ((ingestDocument P inp headers context payload).run w) =
        final ((AuditLog.append P (ingestedEvent inp headers context (newRecord inp payload))).run
          { w with documents := documents, searchIndex := index }) := by
      rw [hrun]
      cases (AuditLog.append P (ingestedEvent inp headers context (newRecord inp payload))).run _ <;> rfl
    rw [hfinal]
    refine ⟨?_, hadds.events, hadds.assignments⟩
    rw [hadds.documents, List.append_nil]
    exact hrows
  · intro hrefused
    have hnone := Option.eq_none_iff_forall_ne_some.mpr
      (not_exists.mp (mt Table.exists_insertChecked_iff.mp hrefused))
    obtain ⟨e, hrun⟩ : ∃ e, (ingestDocument P inp headers context payload).run w = .error e w :=
      run_ingestDocument_refused (Or.inr hnone)
    rw [hrun]
    exact Adds.refl w

theorem storable_ingestDocument (payload : DocumentIngestRequest) :
    Storable P w (ingestDocument · inp headers context payload) ↔
      ((evaluateAbac context "document:ingest" payload.tenantId payload.classification
        headers.purpose).allowed → inp.documentId ∉ w.documents.rows.map DocumentORM.id →
        DocumentColumns payload ∧
          (Fresh inp w → EventStrings headers context payload.tenantId)) := by
  by_cases hallowed : (evaluateAbac context "document:ingest" payload.tenantId
      payload.classification headers.purpose).allowed
  swap
  · refine iff_of_true (storable_of_adds fun dialect => ?_) fun h => absurd h hallowed
    obtain ⟨e, hrun⟩ : ∃ e, (ingestDocument (P.on dialect) inp headers context payload).run w =
        .error e w := run_ingestDocument_refused (Or.inl hallowed)
    rw [hrun]
    exact Adds.refl w
  have hadds := fun dialect => adds_ingestDocument (P.on dialect) inp headers context w hallowed
  by_cases hid : inp.documentId ∉ w.documents.rows.map DocumentORM.id
  swap
  · refine iff_of_true (storable_of_adds fun dialect => ?_) fun _ h => absurd h hid
    exact (hadds dialect).2 fun h => hid h.2
  have hsqlite := (hadds .sqlite).1 ⟨rfl, hid⟩
  have hevent := eventRows_storable_iff P w (ingestedEvent inp headers context (newRecord inp payload))
  rw [Storable, hsqlite.withinBounds_iff, hsqlite.rowCount_eq]
  by_cases hfits : DocumentColumns payload
  · have hpostgresql := (hadds .postgresql).1 ⟨(fits_ingestedRow inp .postgresql payload).mpr hfits, hid⟩
    rw [hpostgresql.rowCount_eq]
    have hfitsEvent : (toOrm .postgresql (ingestedEvent inp headers context
        (newRecord inp payload))).fits .postgresql ↔
        EventStrings headers context payload.tenantId ∧ varchar 255 (strUuid inp.documentId) :=
      fits_event_iff inp headers context rfl rfl
    constructor
    · rintro ⟨⟨-, hrows, -⟩, hcount⟩ - -
      refine ⟨hfits, fun hfresh => (hfitsEvent.mp (hevent.mp ⟨hrows, ?_⟩ hfresh)).1⟩
      simpa using hcount
    · intro h
      obtain ⟨hrows, hcount⟩ := hevent.mpr fun hfresh =>
        hfitsEvent.mpr ⟨(h hallowed hid).2 hfresh, varchar_strUuid inp.documentId⟩
      refine ⟨⟨fun orm horm => ?_, hrows, List.forall_mem_nil _⟩, by simpa using hcount⟩
      rw [List.mem_singleton.mp horm]
      exact (fits_ingestedRow inp _ payload).mpr hfits
  · refine iff_of_false ?_ fun h => hfits (h hallowed hid).1
    rintro ⟨⟨hrow, -⟩, -⟩
    exact hfits ((fits_ingestedRow inp _ payload).mp (hrow _ List.mem_cons_self))

/-- The columns that an admitted request writes take its values. -/
def WithinColumns : ApiRequest → Prop
  | .ingestDocument payload =>
    (evaluateAbac context "document:ingest" payload.tenantId payload.classification
      headers.purpose).allowed → inp.documentId ∉ w.documents.rows.map DocumentORM.id →
    DocumentColumns payload ∧ (Fresh inp w → EventStrings headers context payload.tenantId)
  | .processDocument documentId =>
    ∀ record, DocumentRepository.find w documentId = some record →
      (evaluateAbac context "document:process" record.tenantId record.classification
        headers.purpose).allowed →
      (∃ review, processedReview P record = .ok review) → Fresh inp w →
      EventStrings headers context record.tenantId
  | .ragAnswer _ citations =>
    (∀ citation ∈ citations, CitationAllowed context w citation) → Fresh inp w →
      EventStrings headers context context.tenantId ∧ citations.length ≤ 6
  | .environmentalReview payload =>
    ¬ (context.tenantId ≠ payload.tenantId ∧ "platform-admin" ∉ context.roles) → Fresh inp w →
      EventStrings headers context payload.tenantId
  | .assignCase _ skill =>
    ¬ ("case-manager" ∉ context.roles ∧ "tenant-admin" ∉ context.roles) →
      varchar 255 context.tenantId ∧ varchar 248 skill
  | .uploadDocumentContent documentId body =>
    ∀ record, UploadAdmitted P headers context w documentId body record → Fresh inp w →
      EventStrings headers context record.tenantId
  | .downloadDocument documentId =>
    ∀ record, DocumentRepository.find w documentId = some record →
      (evaluateAbac context "document:download" record.tenantId record.classification
        headers.purpose).allowed →
      (w.store (getObjectStorage P inp) (storageKey record.tenantId record.id)).isSome →
      Fresh inp w → EventStrings headers context record.tenantId
  | .submitSetupConfiguration _ | .listAudit _ _ | .searchDocuments _ _ _ _ _ => True

/-- What a request writes is within the bounds of its columns, and is taken by PostgreSQL,
exactly where these strings are. -/
theorem storable_iff_withinColumns (request : ApiRequest) :
    Storable P w (handle · inp headers context request) ↔
      WithinColumns P inp headers context w request := by
  cases request with
  | ingestDocument payload => exact storable_map.trans (storable_ingestDocument ..)
  | processDocument documentId => exact storable_map.trans (storable_processDocument ..)
  | ragAnswer question citations => exact storable_map.trans (storable_ragAnswer ..)
  | environmentalReview payload => exact storable_map.trans (storable_environmentalReview ..)
  | assignCase caseId skill => exact storable_map.trans (storable_assignCase ..)
  | uploadDocumentContent documentId body =>
    exact storable_map.trans (storable_uploadDocumentContent ..)
  | downloadDocument documentId => exact storable_map.trans (storable_downloadDocument ..)
  | submitSetupConfiguration payload =>
    exact iff_of_true (storable_of_adds fun _ => Adds.refl w) trivial
  | listAudit page pageSize =>
    refine iff_of_true (storable_map.mpr (storable_of_adds fun dialect => ?_)) trivial
    have hframe : Frame Eq (listAudit (P.on dialect) context page pageSize) :=
      frame_listAudit page pageSize
    rw [← hframe w]
    exact Adds.refl w
  | searchDocuments q page pageSize classification contentType =>
    refine iff_of_true (storable_map.mpr (storable_of_adds fun dialect => ?_)) trivial
    have hframe : Frame Eq (searchDocuments (P.on dialect) inp context q page pageSize
        classification contentType) :=
      frame_searchDocuments q page pageSize classification contentType
    rw [← hframe w]
    exact Adds.refl w

end Endpoints

/-- Seven citations of one document make an answer that PostgreSQL does not record. -/
theorem seven_citations_not_storable :
    ¬ Storable examplePlatform (World.ofRows [exampleRow 7 examplePayload] (List.nodup_singleton _))
      (handle · (exampleInputs 1) exampleHeaders exampleContext
        (.ragAnswer "Which limits apply?" (List.replicate 7
          ⟨7, 1, "0", none, none, none, exampleSha256, "plan.pdf"⟩))) := by
  intro h
  have hanswer := (storable_ragAnswer examplePlatform (exampleInputs 1) exampleHeaders exampleContext
    _ _ _).mp (storable_map.mp h)
  have hallowed : ∀ citation ∈ List.replicate 7
      (⟨7, 1, "0", none, none, none, exampleSha256, "plan.pdf"⟩ : EvidenceCitation),
      CitationAllowed exampleContext
        (World.ofRows [exampleRow 7 examplePayload] (List.nodup_singleton _)) citation := by
    intro citation hcitation
    rw [List.eq_of_mem_replicate hcitation]
    exact ⟨DocumentRepository.toDomain (exampleRow 7 examplePayload), rfl, fun hne => hne.1 rfl,
      fun hclass => nomatch hclass.1⟩
  have hlength := (hanswer hallowed fresh_ofRows).2
  rw [List.length_replicate] at hlength
  omega

end GoAnalyze
