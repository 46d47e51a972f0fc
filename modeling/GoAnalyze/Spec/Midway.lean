import GoAnalyze.Lib.Frame
import GoAnalyze.Spec.Handlers

/-! `ingest_document` and `upload_document_content` statement by statement. Each
statement, commit and service call may fail, or the process may end there. Nothing
that a transaction wrote is kept before its commit. -/

namespace GoAnalyze

open JsonText Sql Frames AuditRepository

/-- What the two handlers wait for. -/
inductive Statement where
  | selectDocument | insertDocument | commitDocument | indexDocument | putObject
  | upsertChainState | selectHead | insertEvent | updateChainState | commitEvent
deriving DecidableEq

/-- What becomes of a statement: it is done; it raises, without effect or with the
answer lost; or the process ends before it takes effect, or after. -/
inductive Fate where
  | done | failed | lost | killedBefore | killedAfter
deriving DecidableEq

abbrev Faults := Statement → Fate

/-- How a request ends early. -/
inductive Interrupt where
  | raised (e : HTTPException)
  | killed

abbrev FaultyApp := EStateM Interrupt World

def lift {α : Type} (m : App α) : FaultyApp α := m.adaptExcept .raised

/-- A flushed insert: the table with the row, before the commit. -/
def insertInto {α κ : Type} [DecidableEq κ] {pk : α → κ} (table : World → Table pk)
    (check : α → Bool) (row : α) : App (Table pk) := do
  match (table (← get)).insertChecked check row with
  | some rows => return rows
  | none => throw internalServerError

/-- With its process the objects of the process-local store are gone. -/
def World.restarted (w : World) : World := { w with fallbackStore := fun _ => none }

namespace Faults

variable (faults : Faults)

/-- Run one statement. -/
def run {α : Type} (s : Statement) (effect : App α) : FaultyApp α := fun w =>
  match faults s with
  | .done => (lift effect).run w
  | .failed => .error (.raised internalServerError) w
  | .lost => .error (.raised internalServerError) (final (effect.run w))
  | .killedBefore => .error .killed w.restarted
  | .killedAfter => .error .killed (final (effect.run w)).restarted

/-- A statement of the locked append only. -/
def runLocked (P : Platform) (s : Statement) (effect : App Unit) : FaultyApp Unit :=
  match P.dialect with
  | .postgresql => faults.run s effect
  | .sqlite => pure ()

/-- `DocumentRepository.create`. -/
def create (P : Platform) (record : DocumentRecord) : FaultyApp Unit := do
  let documents ← faults.run .insertDocument
    (insertInto World.documents (DocumentORM.fits P.dialect)
      (DocumentRepository.toOrm P.dialect record))
  faults.run .commitDocument (modify fun w => { w with documents := documents })

/-- `index_document`, which swallows what the service raises. -/
def indexDocument (inp : Inputs) (record : DocumentRecord) : FaultyApp Unit :=
  tryCatch (faults.run .indexDocument (SearchService.indexDocument inp record)) fun
    | .raised _ => pure ()
    | .killed => throw .killed

/-- `append_with_chain_lock`: one transaction up to its commit. -/
def append (P : Platform) (event : AuditEvent) : FaultyApp AuditEvent := do
  faults.runLocked P .upsertChainState
    (raiseIf (!varchar 255 event.tenantId) internalServerError)
  let previousHash ← faults.run .selectHead do
    return chainHead P.dialect P.scanEvents (← get).audit event.tenantId
  let event := chainEvent P.hashEvent previousHash event
  let events ← faults.run .insertEvent
    (insertInto (·.audit.events) (AuditEventORM.fits P.dialect) (toOrm P.dialect event))
  faults.runLocked P .updateChainState (pure ())
  faults.run .commitEvent (modify fun w => { w with audit :=
    { events := events
      chainState := match P.dialect with
      | .postgresql => Function.update w.audit.chainState event.tenantId (some event.eventHash)
      | .sqlite => w.audit.chainState } })
  return event

section Endpoints

variable (P : Platform) (inp : Inputs) (headers : Headers) (context : TenantContext)

def ingestDocument (payload : DocumentIngestRequest) : FaultyApp DocumentRecord := do
  lift (requireAllowed (evaluateAbac context "document:ingest" payload.tenantId
    payload.classification headers.purpose))
  let record := newRecord inp payload
  faults.create P record
  faults.indexDocument inp record
  let _ ← faults.append P (newAuditEvent inp headers context record.tenantId "document.ingested"
    "document" (strUuid record.id)
    [("sha256", .str record.sha256), ("classification", .str record.classification.value)])
  return record

def uploadDocumentContent (documentId : UUID) (body : Bytes) : FaultyApp Dict := do
  let record ← faults.run .selectDocument
    (fetchAllowed headers context "document:upload" documentId)
  lift (raiseIf body.isEmpty ⟨422, "empty_upload_body"⟩)
  lift (raiseIf (body.length > maxUploadBytes) ⟨413, "upload_too_large"⟩)
  let digest := P.sha256Hex body
  lift (raiseIf (digest ≠ record.sha256) ⟨422, "sha256_mismatch"⟩)
  faults.run .putObject (ObjectStorage.put (getObjectStorage P inp)
    (storageKey record.tenantId record.id) body record.contentType)
  let _ ← faults.append P (newAuditEvent inp headers context record.tenantId
    "document.content_uploaded" "document" (strUuid record.id) [("bytes", intJson body.length)])
  return [("document_id", .str (strUuid record.id)), ("bytes_stored", intJson body.length),
    ("sha256", .str digest)]

end Endpoints

end Faults

end GoAnalyze
