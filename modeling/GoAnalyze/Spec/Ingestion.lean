import GoAnalyze.Spec.Database
import GoAnalyze.Spec.Engine

/-! `ingestion.py`: the ten stages of the pipeline. -/

namespace GoAnalyze

open JsonText

/-- `value in text` for strings. -/
def occursIn (value text : List Char) : Bool := value <:+: text

def documentTypeKeywords : List (String × List String) :=
  [("application_form", ["application", "form"]),
    ("site_plan", ["site plan", "drawing"]),
    ("effluent_characterization", ["effluent", "characterization"]),
    ("mitigation_plan", ["mitigation"]),
    ("public_consultation_record", ["consultation"]),
    ("waste_profile", ["waste profile"]),
    ("contingency_plan", ["contingency"]),
    ("closure_plan", ["closure"]),
    ("hydrogeology_report", ["hydrogeology"]),
    ("water_balance", ["water balance"]),
    ("impact_assessment", ["impact assessment"])]

/-! ## Entities -/

def isUpper (c : Char) : Bool := 'A' ≤ c ∧ c ≤ 'Z'

def isLetter (c : Char) : Bool := isUpper c || ('a' ≤ c ∧ c ≤ 'z')

/-- `[A-Z][a-zA-Z]{2,}` at the head of a text: the length of the longest match. No
shorter one can be followed by a blank or a word boundary. -/
def capitalized : List Char → Option ℕ
  | [] => none
  | c :: cs =>
    let n := (cs.takeWhile isLetter).length
    if isUpper c && 2 ≤ n then some (n + 1) else none

/-- The ends of `word(?:\sword)*` at the head of a text, the longest first; the
fuel bounds the words. -/
def phraseEnds (P : Platform) : ℕ → List Char → List ℕ
  | 0, _ => []
  | fuel + 1, cs =>
    match capitalized cs with
    | none => []
    | some n =>
      let more := match cs.drop n with
        | c :: rest => if P.isSpace c then (phraseEnds P fuel rest).map (n + 1 + ·) else []
        | [] => []
      more ++ [n]

def isWordChar (P : Platform) (c : Char) : Bool := P.isAlnum c || c = '_'

/-- `findall` of the entity pattern: at each position after a non-word character the
longest phrase that ends at a word boundary. -/
def findEntities (P : Platform) : ℕ → Bool → List Char → List String
  | 0, _, _ => []
  | _, _, [] => []
  | fuel + 1, afterWord, c :: cs =>
    let ends := if afterWord then [] else phraseEnds P (cs.length + 1) (c :: cs)
    let boundary := fun n => !((c :: cs).drop n).head?.any (isWordChar P)
    match ends.find? boundary with
    | some n =>
      String.ofList ((c :: cs).take n) :: findEntities P fuel true ((c :: cs).drop n)
    | none => findEntities P fuel (isWordChar P c) cs

/-! ## Stages -/

/-- `d[key] = value`. -/
def dictSet (k : String) (v : Json) (d : Dict) : Dict :=
  if (lookup k d).isSome then setItem k v d else d ++ [(k, v)]

/-- `d.setdefault(key, value)`. -/
def dictSetDefault (k : String) (v : Json) (d : Dict) : Dict :=
  if (lookup k d).isSome then d else d ++ [(k, v)]

/-- `str` of a number. -/
def numberText : Number → String
  | .infinity neg => if neg then "-inf" else "inf"
  | .nan => "nan"
  | n => String.ofList (writeNumber n)

/-- `str(value)` of a JSON value. -/
def textOf (P : Platform) : Json → String
  | .str s => s
  | .null => "None"
  | .bool true => "True"
  | .bool false => "False"
  | .num n => numberText n
  | j => P.containerText j

namespace IngestionPipeline

variable (P : Platform) (record : DocumentRecord) (text : List Char)

def stageUpload : Dict := [("object_uri", .str record.objectUri), ("sha256", .str record.sha256)]

def stageOcr : Dict := [("character_count", intJson text.length)]

/-- The first label with the most keywords found, and its score. -/
def classify : String × ℕ :=
  documentTypeKeywords.foldl (fun best entry =>
    let score := (entry.2.filter fun keyword => occursIn keyword.toList (P.lower text)).length
    if score > best.2 then (entry.1, score) else best) ("uncategorized", 0)

def stageClassify : Dict :=
  [("label", .str (classify P text).1), ("score", intJson (classify P text).2)]

def stageMetadata : Dict :=
  dictSet "character_count" (intJson text.length)
    (dictSetDefault "content_type" (.str record.contentType)
      (dictSetDefault "filename" (.str record.filename) record.metadata))

def entities : List String := (sortStrings (findEntities P text.length false text).dedup).take 25

def stageEntities : Dict := [("entity_count", intJson (entities P text).length)]

/-- The compliance stage. Its citation takes the excerpt from the metadata, which
has to be a string there. -/
def compliance (label : String) (metadata : Dict) : Except HTTPException EnvironmentalReviewResult :=
  let availableTypes := if label = "uncategorized" then [] else [label]
  let textUnder := fun key default => ((lookup key metadata).map (textOf P)).getD default
  let request : EnvironmentalReviewRequest :=
    { tenantId := record.tenantId
      caseId := record.caseId.getD record.id
      projectType := textUnder "project_type" "general_review"
      location := textUnder "location" "unspecified"
      applicant := textUnder "applicant" "unspecified"
      documents := [record.id] }
  match (lookup "filename" metadata).getD (.str record.filename) with
  | .str excerpt =>
    .ok (EnvironmentalAuthorizationEngine.review request availableTypes
      [{ documentId := record.id, version := record.version, chunkId := "0", page := none,
         startOffset := none, endOffset := none, sha256 := record.sha256, excerpt := excerpt }])
  | _ => .error internalServerError

def stageRisk (riskScore : ℚ) : Dict := [("risk_score", scoreJson riskScore)]

def stageVectorIndex : Dict :=
  let excerpt := if text.isEmpty then record.filename else String.ofList (text.take 600)
  let finding := GroundedRagService.answer "__index__"
    [{ documentId := record.id, version := record.version, chunkId := "0", page := none,
       startOffset := none, endOffset := none, sha256 := record.sha256, excerpt := excerpt }]
  [("indexed", .bool true), ("grounded", .bool finding.grounded)]

def workflow (now : DateTime) (riskScore : ℚ) : Assignment :=
  let skill := if riskScore ≥ 70 then "senior-review" else "technical-review"
  AssignmentEngine.assign now (record.caseId.getD record.id) skill
    [("technical-review-pool", 4), ("senior-review-pool", 1)]

def stageWorkflow (assignment : Assignment) : Dict :=
  [("assignee", .str assignment.assignee), ("due_at", .str assignment.dueAt.isoformat),
    ("status", .str assignment.status.value)]

/-- The event of the audit stage. -/
def auditEvent (inp : Inputs) (actor traceId purpose : String) (label : String) (riskScore : ℚ) :
    AuditEvent where
  id := inp.eventId
  tenantId := record.tenantId
  actor := actor
  action := "document.pipeline_completed"
  resourceType := "document"
  resourceId := strUuid record.id
  purpose := purpose
  traceId := traceId
  timestamp := inp.eventTime
  details := [("classification_label", .str label), ("risk_score", scoreJson riskScore),
    ("entity_count", intJson (entities P text).length)]
  previousHash := none
  eventHash := none

/-- The pipeline over the text that OCR gave. -/
def runText (inp : Inputs) (actor traceId purpose : String) : App DocumentProcessingResult := do
  let stage := fun name output => StageResult.mk name "completed" output (inp.durationMs name)
  let label := (classify P text).1
  let metadata := stageMetadata record text
  match compliance P record label metadata with
  | .error e => throw e
  | .ok review =>
    let riskScore := review.riskScore
    let assignment := workflow record inp.assignTime riskScore
    let event ← AuditLog.append P
      (auditEvent P record text inp actor traceId purpose label riskScore)
    return {
      documentId := record.id
      stages := [
        stage .upload (stageUpload record),
        stage .ocr (stageOcr text),
        stage .classification (stageClassify P text),
        stage .metadataExtraction metadata,
        stage .entityExtraction (stageEntities P text),
        stage .complianceAnalysis review.modelDump,
        stage .riskScoring (stageRisk riskScore),
        stage .vectorIndexing (stageVectorIndex record text),
        stage .workflowEngine (stageWorkflow assignment),
        stage .auditLogging [("audit_event_id", .str (strUuid event.id)),
          ("event_hash", optStr event.eventHash)]]
      classificationLabel := some label
      extractedEntities := entities P text
      riskScore := some riskScore
      workflowQueue := some assignment.queue
      completed := true }

/-- `run` with an OCR engine, for a caller that may bring the text itself. -/
def run (extractText : String → String → List Char) (rawText : Option (List Char)) (inp : Inputs)
    (actor traceId purpose : String) : App DocumentProcessingResult :=
  runText P record (rawText.getD (extractText record.objectUri record.contentType)) inp actor
    traceId purpose

end IngestionPipeline

/-- `NullOcrEngine.extract_text`. -/
def nullOcrEngine (_objectUri _contentType : String) : List Char := []

end GoAnalyze
