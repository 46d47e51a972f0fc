import GoAnalyze.Lib.TwoRuns
import GoAnalyze.Proofs.TamperEvidence
import GoAnalyze.Spec.Handlers

/-! What the programs that the endpoints are made of do to a state: one equation
for each, and what the policy allows. -/

namespace GoAnalyze

open JsonText Sql AuditRepository TwoRuns

/-! ## Runs of the building blocks -/

section Runs

variable (P : Platform) (w : World)

@[simp] theorem run_raiseIf (c : Bool) (e : HTTPException) :
    (raiseIf c e).run w = if c then .error e w else .ok () w := by
  cases c <;> rfl

theorem run_checkPage {page pageSize : ℤ} (hpage : 1 ≤ page)
    (hsize : 1 ≤ pageSize ∧ pageSize ≤ 100) : (checkPage page pageSize).run w = .ok () w := by
  simp only [checkPage, EStateM.run_bind, run_raiseIf, not_lt.mpr hpage, hsize, and_self,
    not_true_eq_false, decide_false, Bool.false_eq_true, if_false]

@[simp] theorem run_requireAllowed (decision : PolicyDecision) :
    (requireAllowed decision).run w =
      if decision.allowed then .ok () w else .error ⟨403, decision.reason⟩ w := by
  rw [requireAllowed, run_raiseIf]
  cases decision.allowed <;> rfl

@[simp] theorem run_documentGet (documentId : UUID) :
    (DocumentRepository.get documentId).run w = .ok (DocumentRepository.find w documentId) w := rfl

@[simp] theorem run_getMany (documentIds : List UUID) :
    (DocumentRepository.getMany documentIds).run w =
      .ok (fun documentId =>
        if documentId ∈ documentIds then DocumentRepository.find w documentId else none) w := rfl

theorem run_search (tenantId query : String) (page pageSize : ℤ)
    (classification contentType : Option String) :
    (DocumentRepository.search P tenantId query page pageSize classification contentType).run w =
      if DocumentRepository.binds P.dialect tenantId query page pageSize classification contentType
      then .ok (DocumentRepository.searchRows P w.documents.rows tenantId query page pageSize
        classification contentType) w
      else .error internalServerError w := by
  simp only [DocumentRepository.search, EStateM.run_bind, run_raiseIf]
  cases DocumentRepository.binds P.dialect tenantId query page pageSize classification contentType
  · rfl
  · rfl

/-- What a search answers from the database. -/
def fallbackAnswer (P : Platform) (tenantId query : String) (page pageSize : ℤ)
    (classification contentType : Option String) (w : World) : SearchResponse :=
  let (records, total) := DocumentRepository.searchRows P w.documents.rows tenantId query page
    pageSize classification contentType
  { query := query, total := total, page := page, pageSize := pageSize
    backend := "database_fallback", results := records.map (SearchService.hitOfRecord P query) }

/-- What a search answers, unless the database refuses it. -/
def searchAnswer (P : Platform) (tenantId query : String) (page pageSize : ℤ)
    (classification contentType : Option String) (inp : Inputs) (w : World) :
    Option SearchResponse :=
  match inp.openSearch w.searchIndex
      (SearchService.searchBody tenantId query page pageSize classification contentType) with
  | some reply => some
    { query := query, total := reply.total, page := page, pageSize := pageSize
      backend := "opensearch", results := reply.hits.map SearchService.hitOfReply }
  | none =>
    if DocumentRepository.binds P.dialect tenantId query page pageSize classification contentType
    then some (fallbackAnswer P tenantId query page pageSize classification contentType w)
    else none

variable {P w} in
theorem searchAnswer_eq_some {tenantId query : String} {page pageSize : ℤ}
    {classification contentType : Option String} {inp : Inputs} {answer : SearchResponse} :
    searchAnswer P tenantId query page pageSize classification contentType inp w = some answer ↔
      (∃ reply, inp.openSearch w.searchIndex (SearchService.searchBody tenantId query page pageSize
          classification contentType) = some reply ∧
        answer = { query := query, total := reply.total, page := page, pageSize := pageSize
                   backend := "opensearch"
                   results := reply.hits.map SearchService.hitOfReply }) ∨
      (inp.openSearch w.searchIndex (SearchService.searchBody tenantId query page pageSize
          classification contentType) = none ∧
        DocumentRepository.binds P.dialect tenantId query page pageSize classification contentType ∧
        answer = fallbackAnswer P tenantId query page pageSize classification contentType w) := by
  unfold searchAnswer
  cases inp.openSearch w.searchIndex (SearchService.searchBody tenantId query page pageSize
      classification contentType) with
  | some reply =>
    constructor
    · intro h
      cases h
      exact Or.inl ⟨reply, rfl, rfl⟩
    · rintro (⟨_, hreply, rfl⟩ | ⟨hnone, -⟩)
      · cases hreply
        rfl
      · cases hnone
  | none =>
    simp only [Option.ite_none_right_eq_some, Option.some.injEq, reduceCtorEq, false_and,
      exists_false, false_or, true_and]
    exact and_congr_right fun _ => eq_comm

theorem run_searchService (inp : Inputs) (tenantId query : String) (page pageSize : ℤ)
    (classification contentType : Option String) :
    (SearchService.search P inp tenantId query page pageSize classification contentType).run w =
      match searchAnswer P tenantId query (max page 1) (min (max pageSize 1) 100) classification
        contentType inp w with
      | some answer => .ok answer w
      | none => .error internalServerError w := by
  simp only [SearchService.search, EStateM.run_bind, EStateM.run_get, searchAnswer]
  cases inp.openSearch w.searchIndex (SearchService.searchBody tenantId query (max page 1)
    (min (max pageSize 1) 100) classification contentType) with
  | some reply => rfl
  | none =>
    simp only [EStateM.run_bind, run_search]
    split_ifs <;> rfl

variable {P w} in
theorem run_searchService_eq_ok {inp : Inputs} {tenantId query : String} {page pageSize : ℤ}
    {classification contentType : Option String} {answer : SearchResponse} {w' : World} :
    (SearchService.search P inp tenantId query page pageSize classification contentType).run w =
        .ok answer w' ↔
      searchAnswer P tenantId query (max page 1) (min (max pageSize 1) 100) classification
        contentType inp w = some answer ∧ w = w' := by
  rw [run_searchService]
  cases searchAnswer P tenantId query (max page 1) (min (max pageSize 1) 100) classification
    contentType inp w <;> simp

theorem run_listEventsPaginated (tenantId : String) (page pageSize : ℤ) :
    (AuditLog.listEventsPaginated P tenantId page pageSize).run w =
      match listForTenantPaginated P.dialect P.scanEvents w.audit.events.rows tenantId page
        pageSize with
      | some answer => .ok answer w
      | none => .error internalServerError w := by
  simp only [AuditLog.listEventsPaginated, EStateM.run_bind, EStateM.run_get]
  cases listForTenantPaginated P.dialect P.scanEvents w.audit.events.rows tenantId page pageSize <;>
    rfl

@[simp] theorem run_objectGet (backend : Backend) (key : String) :
    (ObjectStorage.get backend key).run w = .ok ((w.store backend key).map (·.1)) w := rfl

theorem run_create (record : DocumentRecord) :
    (DocumentRepository.create P record).run w =
      match w.documents.insertChecked (DocumentORM.fits P.dialect)
        (DocumentRepository.toOrm P.dialect record) with
      | some documents => .ok () { w with documents := documents }
      | none => .error internalServerError w := by
  simp only [DocumentRepository.create, EStateM.run_bind, EStateM.run_get]
  cases w.documents.insertChecked _ _ <;> rfl

def World.indexWith (inp : Inputs) (record : DocumentRecord) : Table SearchDocument.id :=
  if inp.indexReachable then w.searchIndex.upsert (SearchService.searchDocument record)
  else w.searchIndex

theorem run_indexDocument (inp : Inputs) (record : DocumentRecord) :
    (SearchService.indexDocument inp record).run w =
      .ok () { w with searchIndex := w.indexWith inp record } := by
  simp only [SearchService.indexDocument, EStateM.run_modify, World.indexWith]
  cases inp.indexReachable <;> rfl

theorem run_map_eq_ok {α β : Type} {m : App α} {f : α → β} {w v : World} {b : β} :
    (m >>= fun a => pure (f a)).run w = .ok b v ↔ ∃ a, m.run w = .ok a v ∧ f a = b := by
  rw [EStateM.run_bind]
  cases m.run w with
  | ok a u =>
    constructor
    · intro h
      cases h
      exact ⟨a, rfl, rfl⟩
    · rintro ⟨a', ha, rfl⟩
      cases ha
      rfl
  | error e u => simp

def World.withObject (w : World) (backend : Backend) (key : String) (data : Bytes)
    (contentType : String) : World :=
  match backend with
  | .minio => { w with minio := Function.update w.minio key (some (data, contentType)) }
  | .fallback =>
    { w with fallbackStore := Function.update w.fallbackStore key (some (data, contentType)) }

@[simp] theorem run_objectPut (backend : Backend) (key : String) (data : Bytes)
    (contentType : String) : (ObjectStorage.put backend key data contentType).run w =
      .ok () (w.withObject backend key data contentType) := by
  cases backend <;> rfl

theorem store_withObject (w : World) (backend backend' : Backend) (key : String) (data : Bytes)
    (contentType : String) : (w.withObject backend key data contentType).store backend' =
      if backend' = backend then Function.update (w.store backend) key (some (data, contentType))
      else w.store backend' := by
  cases backend <;> cases backend' <;> rfl

/-- The event as an append in this state links and hashes it. -/
def World.chained (event : AuditEvent) : AuditEvent :=
  chainEvent P.hashEvent (chainHead P.dialect P.scanEvents w.audit event.tenantId) event

def World.auditWith (event : AuditEvent) (events : Table AuditEventORM.id) : AuditTables where
  events := events
  chainState := match P.dialect with
    | .postgresql =>
      Function.update w.audit.chainState event.tenantId (some (w.chained P event).eventHash)
    | .sqlite => w.audit.chainState

@[simp] theorem run_append (event : AuditEvent) :
    (AuditLog.append P event).run w =
      match w.audit.events.insertChecked (AuditEventORM.fits P.dialect)
        (toOrm P.dialect (w.chained P event)) with
      | some events => .ok (w.chained P event) { w with audit := w.auditWith P event events }
      | none => .error internalServerError w := by
  simp only [AuditLog.append, EStateM.run_bind, EStateM.run_get, appendWithChainLock_eq,
    World.chained, World.auditWith]
  cases w.audit.events.insertChecked _ _ <;> rfl

/-- No stored event has the id that the request brings. -/
def Fresh (inp : Inputs) (w : World) : Prop :=
  inp.eventId ∉ w.audit.events.rows.map AuditEventORM.id

theorem run_append_fresh {inp : Inputs} {w : World} (h : Fresh inp w) {event : AuditEvent}
    (hid : event.id = inp.eventId) (hfits : (toOrm P.dialect event).fits P.dialect) :
    ∃ events : Table AuditEventORM.id,
      events.rows = w.audit.events.rows ++ [toOrm P.dialect (w.chained P event)] ∧
      (AuditLog.append P event).run w =
        .ok (w.chained P event) { w with audit := w.auditWith P event events } := by
  rw [run_append]
  cases hins : w.audit.events.insertChecked (AuditEventORM.fits P.dialect)
      (toOrm P.dialect (w.chained P event)) with
  | none =>
    have hmem := Table.insertChecked_eq_none_iff.mp hins hfits
    have hid' : (toOrm P.dialect (w.chained P event)).id = inp.eventId := hid
    exact absurd (hid' ▸ hmem) h
  | some events => exact ⟨events, Table.rows_insertChecked hins, rfl⟩

theorem run_append_refused {w : World} {event : AuditEvent}
    (hfits : ¬ (toOrm P.dialect event).fits P.dialect) :
    (AuditLog.append P event).run w = .error internalServerError w := by
  have hnone : w.audit.events.insertChecked (AuditEventORM.fits P.dialect)
      (toOrm P.dialect (w.chained P event)) = none :=
    Table.insertChecked_eq_none_iff.mpr fun h => absurd h hfits
  rw [run_append, hnone]

end Runs

/-! ## Columns of the audit log -/

/-- PostgreSQL takes the strings of an audit event that come from the request. -/
def Recordable (P : Platform) (headers : Headers) (context : TenantContext) (tenantId : String) :
    Prop :=
  P.dialect = .postgresql → varchar 255 tenantId ∧ varchar 255 context.actor ∧
    varchar 128 headers.purpose ∧ varchar 255 headers.traceId

theorem fits_newAuditEvent {P : Platform} {inp : Inputs} {headers : Headers}
    {context : TenantContext} {tenantId action resourceType resourceId : String} {details : Dict}
    (haction : varchar 255 action) (htype : varchar 128 resourceType)
    (hid : varchar 255 resourceId) :
    (toOrm P.dialect (newAuditEvent inp headers context tenantId action resourceType resourceId
      details)).fits P.dialect ↔ Recordable P headers context tenantId := by
  unfold Recordable
  cases P.dialect with
  | sqlite => simp [AuditEventORM.fits]
  | postgresql =>
    simp only [AuditEventORM.fits, toOrm, newAuditEvent, haction, htype, hid, Bool.and_eq_true,
      and_true, and_assoc, forall_const]

/-! ## Storage keys -/

/-- The id takes the last 36 characters of a key, whatever the tenant is called. -/
theorem storageKey_injective {tenantId tenantId' : String} {documentId documentId' : UUID}
    (h : storageKey tenantId documentId = storageKey tenantId' documentId') :
    tenantId = tenantId' ∧ documentId = documentId' := by
  have hchars := congrArg String.toList h
  simp only [storageKey, strUuid, String.toList_append, String.toList_ofList] at hchars
  obtain ⟨htenant, hid⟩ := List.append_inj' hchars (by simp only [length_uuidChars])
  obtain ⟨heq, -⟩ := List.append_inj' htenant rfl
  exact ⟨String.toList_inj.mp heq, uuidChars_injective hid⟩

/-! ## Policy -/

section Policy

variable {context : TenantContext} {action tenantId purpose : String}
  {classification : ClassificationLevel}

theorem tenantId_of_allowed (hadmin : "platform-admin" ∉ context.roles)
    (h : (evaluateAbac context action tenantId classification purpose).allowed) :
    context.tenantId = tenantId := by
  by_contra hne
  rw [evaluateAbac, if_pos ⟨hne, hadmin⟩] at h
  exact absurd h (by simp)

theorem not_allowed_protectedB (hrole : "protected-b-reader" ∉ context.roles) :
    ¬ (evaluateAbac context action tenantId .protectedB purpose).allowed := by
  unfold evaluateAbac
  split_ifs with h₁ h₂ h₃
  · simp
  · simp
  · simp
  · exact absurd ⟨rfl, hrole⟩ h₃
  · exact absurd ⟨rfl, hrole⟩ h₃

end Policy

/-! ## Two runs -/

section TwoRuns

variable {R : World → World → Prop}

theorem rel_raiseIf (c : Bool) (e : HTTPException) :
    Rel R (raiseIf c e) (raiseIf c e) fun _ _ => R := by
  intro w w' h
  cases c
  · exact h
  · trivial

theorem rel_fail_left {α β : Type} {m : App α} {m' : App β} {Q : α → β → World → World → Prop}
    (h : ∀ w w', R w w' → (∃ e v, m.run w = .error e v) ∧ ∃ e v, m'.run w' = .error e v) :
    Rel R m m' Q := by
  intro w w' hw
  obtain ⟨⟨e, v, hm⟩, e', v', hm'⟩ := h w w' hw
  rw [hm, hm']
  trivial

end TwoRuns

/-! ## An example -/

/-- The bytes of `abc`, and their SHA-256 digest. -/
def exampleBytes : Bytes := [97, 98, 99]

def exampleSha256 : String := "ba7816bf8f01cfea414140de5dae2223b00361a396177a9cb410ff61f20015ad"

/-- A deployment on PostgreSQL with MinIO. -/
noncomputable def examplePlatform : Platform where
  dialect := .postgresql
  auditHashSecret := "k"
  minioConfigured := true
  hmacSha256 := transparentHmac
  sha256Hex := fun data => if data = exampleBytes then exampleSha256 else String.ofList (hex 64 0)
  lower := List.map Char.toLower
  foldCase := List.map Char.toLower
  isSpace := Char.isWhitespace
  isAlnum := Char.isAlphanum
  containerText := fun value => String.ofList (write spaced value)
  sortedMixed := fun values => if values.length ≤ 1 then some values else none
  scanDocuments := default
  scanEvents := default

/-- A request that reaches MinIO, while OpenSearch is down. -/
def exampleInputs (eventId : UUID) : Inputs where
  documentId := 7
  lineageId := 8
  eventId := eventId
  documentTime := exampleTime
  eventTime := exampleTime
  assignTime := exampleTime
  durationMs := fun _ => 1 / 2
  indexReachable := false
  openSearch := fun _ _ => none
  minioReachable := true

def exampleHeaders : Headers := ⟨none, none⟩

def exampleContext : TenantContext := ⟨"env", "environment", [], none⟩

def exampleIngest (tenantId filename : String) (classification : ClassificationLevel)
    (metadata : Dict) : DocumentIngestRequest where
  tenantId := tenantId
  caseId := none
  filename := filename
  contentType := "application/pdf"
  classification := classification
  sha256 := exampleSha256
  sha256_length := rfl
  objectUri := "s3://documents/plan"
  metadata := metadata

def exampleRow (id : UUID) (payload : DocumentIngestRequest) : DocumentORM :=
  DocumentRepository.toOrm .postgresql { newRecord (exampleInputs 1) payload with id := id }

@[simp] theorem exampleRow_metadata (id : UUID) (payload : DocumentIngestRequest) :
    (DocumentRepository.toDomain (exampleRow id payload)).metadata = payload.metadata :=
  DictColumn.read_ofDict _

/-- A database with these documents, of different ids, and no more. -/
def World.ofRows (rows : List DocumentORM) (h : (rows.map DocumentORM.id).Nodup) : World :=
  { World.empty with documents := ⟨rows, h⟩ }

theorem fresh_ofRows {inp : Inputs} {rows : List DocumentORM}
    {h : (rows.map DocumentORM.id).Nodup} : Fresh inp (World.ofRows rows h) := List.not_mem_nil

end GoAnalyze
