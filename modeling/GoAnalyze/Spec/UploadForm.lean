import GoAnalyze.Spec.DataHooks
import GoAnalyze.Spec.Handlers

/-! `DocumentUpload`: the form of the upload page. `runUpload` ingests a record, uploads the
content and has it processed, and shows on the way how far it is; other files may be picked
meanwhile. -/

namespace GoAnalyze

open EventLoop
open JsonText (hex)

/-! ## The form -/

structure File where
  name : String
  type : String
  bytes : Bytes

inductive StepStatus where
  | pending | active | done | error
deriving DecidableEq

structure StepState where
  ingest : StepStatus
  content : StepStatus
  process : StepStatus
deriving DecidableEq

def StepState.initial : StepState := ⟨.pending, .pending, .pending⟩

/-- The component, with the document cache. `recordFile` is history, which no function
reads: the file that the record was created for. -/
structure UploadState where
  file : Option File
  tenantId : String
  caseId : String
  classification : ClassificationLevel
  description : String
  steps : StepState
  busy : Bool
  error : Option String
  record : Option DocumentRecord
  autoProcess : Bool
  cache : DocumentCache
  recordFile : Option File

namespace UploadState

def initial (defaultTenantId : String) (cache : DocumentCache) : UploadState where
  file := none
  tenantId := defaultTenantId
  caseId := ""
  classification := .internal
  description := ""
  steps := .initial
  busy := false
  error := none
  record := none
  autoProcess := true
  cache := cache
  recordFile := none

def reset (s : UploadState) : UploadState :=
  { s with file := none, steps := .initial, error := none, record := none, busy := false
           recordFile := none }

def pickFile (s : UploadState) (file : File) : UploadState :=
  { s with file := some file, error := none, record := none, steps := .initial
           recordFile := none }

def canRemove (s : UploadState) : Bool := s.file.isSome && !s.busy

def canUpload (s : UploadState) : Bool := !(s.file.isNone || s.busy || s.tenantId = "")

/-- The record of the banner "Document uploaded successfully". -/
def uploaded (s : UploadState) : Option DocumentRecord :=
  if s.steps.content = .done then s.record else none

/-! ## What `runUpload` writes -/

def begin (s : UploadState) : UploadState :=
  { s with busy := true, error := none, steps := { s.steps with ingest := .active } }

def ingested (s : UploadState) (file : File) (record : DocumentRecord) : UploadState :=
  { s with record := some record, recordFile := some file
           cache := cacheDocumentRecord record s.cache
           steps := { s.steps with ingest := .done, content := .active } }

def contentDone (s : UploadState) (autoProcess : Bool) : UploadState :=
  { s with steps := { s.steps with content := .done
                                   process := if autoProcess then .active else .pending } }

def processDone (s : UploadState) : UploadState :=
  { s with steps := { s.steps with process := .done } }

def finish (s : UploadState) : UploadState := { s with busy := false }

end UploadState

def StepStatus.fail (status : StepStatus) : StepStatus :=
  if status = .active then .error else status

/-- The `catch` of `runUpload`. -/
def UploadState.fail (s : UploadState) (message : String) : UploadState :=
  { s with error := some message, busy := false
           steps := ⟨s.steps.ingest.fail, s.steps.content.fail, s.steps.process.fail⟩ }

/-! ## Waits -/

structure IngestPayload where
  tenantId : String
  caseId : Option String
  filename : String
  contentType : String
  classification : ClassificationLevel
  sha256 : String
  objectUri : String
  metadata : List (String × String)

/-- The requests of a run. The file of `ingest` is the one that it describes, and is not
sent. -/
inductive UploadOp where
  | digest (file : File)
  | ingest (payload : IngestPayload) (file : File)
  | uploadContent (documentId : UUID) (file : File)
  | process (documentId : UUID)

/-- `none` where the file cannot be read or digested. -/
abbrev UploadReply : UploadOp → Type
  | .digest _ => Option Bytes
  | .ingest _ _ => Except RequestError DocumentRecord
  | .uploadContent _ _ | .process _ => Except RequestError Payload

inductive UploadFailure where
  | digest
  | request (error : RequestError)

def UploadFailure.message : UploadFailure → String
  | .request (.api error) => error.message
  | .request .syntaxError | .request .typeError | .digest => "Upload failed unexpectedly."

abbrev UploadTask := Async UploadState UploadOp UploadReply

abbrev UploadAsync := ExceptT UploadFailure UploadTask

def UploadOp.wait (op : UploadOp) : UploadAsync (UploadReply op) :=
  (Async.wait op : UploadTask (UploadReply op))

/-- An awaited request that was rejected is thrown. -/
def orThrow {α : Type} : Except RequestError α → UploadAsync α
  | .ok result => return result
  | .error err => throw (.request err)

/-! ## `runUpload` -/

def encodeURIComponent (s : String) : String :=
  String.ofList <| (encodeUtf8 s.toList).flatMap fun b =>
    let c := Char.ofNat b.toNat
    if c.isAlphanum || c ∈ "-_.!~*\x27()".toList then [c] else '%' :: hexUpper 2 b.toNat

def sha256Hex (file : File) : UploadAsync String := do
  match ← UploadOp.wait (.digest file) with
  | none => throw .digest
  | some digest => return String.ofList (digest.flatMap fun b => hex 2 b.toNat)

/-- `ingestPayload`, from the form as it was when the button was clicked. -/
def ingestPayload (defaultTenantId : String) (form : UploadState) (file : File)
    (sha256 : String) : IngestPayload :=
  let tenantId := if form.tenantId = "" then defaultTenantId else form.tenantId
  { tenantId := tenantId
    caseId := if form.caseId = "" then none else some form.caseId
    filename := file.name
    contentType := if file.type = "" then "application/octet-stream" else file.type
    classification := form.classification
    sha256 := sha256
    objectUri := "pending://" ++ tenantId ++ "/" ++ sha256 ++ "/" ++ encodeURIComponent file.name
    metadata := if form.description = "" then [] else [("description", form.description)] }

/-- The `try` of `runUpload`. -/
def uploadSteps (defaultTenantId : String) (form : UploadState) (file : File) :
    UploadAsync Unit := do
  let sha256 ← sha256Hex file
  let payload := ingestPayload defaultTenantId form file sha256
  let ingested ← orThrow (← UploadOp.wait (.ingest payload file))
  modifyThe UploadState (·.ingested file ingested)
  let _ ← orThrow (← UploadOp.wait (.uploadContent ingested.id file))
  modifyThe UploadState (·.contentDone form.autoProcess)
  if form.autoProcess then
    let _ ← orThrow (← UploadOp.wait (.process ingested.id))
    modifyThe UploadState (·.processDone)
  modifyThe UploadState (·.finish)

/-- `runUpload` for a file, with its `catch`. -/
def uploadFile (defaultTenantId : String) (form : UploadState) (file : File) :
    UploadTask Unit := do
  modify (·.begin)
  match ← (uploadSteps defaultTenantId form file).run with
  | .ok _ => return ()
  | .error failure => modify (·.fail failure.message)

def runUpload (defaultTenantId : String) : UploadTask Unit := do
  let form ← get
  match form.file with
  | none => return ()
  | some file => uploadFile defaultTenantId form file

/-- A click on the button. -/
def clickUpload (defaultTenantId : String) : UploadTask Unit := do
  if (← get).canUpload then runUpload defaultTenantId else return ()

/-! ## The page -/

/-- What else may happen: `pick` is a choice in the file dialog, or a drop. -/
inductive UploadEvent where
  | pick (file : Option File)
  | remove
  | setTenantId (value : String)
  | setCaseId (value : String)
  | setClassification (value : ClassificationLevel)
  | setDescription (value : String)
  | setAutoProcess (value : Bool)

def UploadState.event (s : UploadState) : UploadEvent → Option UploadState
  | .pick none => some s
  | .pick (some file) => some (s.pickFile file)
  | .remove => if s.canRemove then some s.reset else none
  | .setTenantId value => some { s with tenantId := value }
  | .setCaseId value => some { s with caseId := value }
  | .setClassification value => some { s with classification := value }
  | .setDescription value => some { s with description := value }
  | .setAutoProcess value => some { s with autoProcess := value }

inductive UploadAnswer where
  | digest (bytes : Option Bytes)
  | ingest (reply : Except RequestError DocumentRecord)
  | uploadContent (reply : Except RequestError Payload)
  | process (reply : Except RequestError Payload)

def UploadAnswer.reply : (op : UploadOp) → UploadAnswer → Option (UploadReply op)
  | .digest _, .digest bytes => some bytes
  | .ingest _ _, .ingest reply => some reply
  | .uploadContent _ _, .uploadContent reply => some reply
  | .process _, .process reply => some reply
  | _, _ => none

/-- The page, with a call for each click on the button. -/
def uploadForm (ι : Type) (defaultTenantId : String) :
    System ι UploadState UploadOp UploadReply Unit UploadAnswer UploadEvent where
  program _ := clickUpload defaultTenantId
  answer _ op c s := (c.reply op).map fun reply => (reply, s)
  event e s := s.event e

abbrev UploadLoop (ι : Type) := Loop ι UploadState UploadOp UploadReply Unit

end GoAnalyze
