import GoAnalyze.Lib.JsonRead
import Mathlib.Data.Rat.Floor

/-! The domain models of `gov_platform/models.py` and the values they are made
of. Confidences and risk scores are exact rationals; what no modelled function
reads is left out. -/

namespace GoAnalyze

open JsonText

abbrev Bytes := List UInt8

/-- `str.encode("utf-8")`. -/
def encodeUtf8 (s : List Char) : Bytes := s.flatMap String.utf8EncodeChar

abbrev Dict := List (String × Json)

/-! ## Identifiers -/

abbrev UUID := BitVec 128

/-- `str(uuid)`: 32 hexadecimal digits in groups of 8, 4, 4, 4 and 12. -/
def uuidChars (u : UUID) : List Char :=
  let h := hex 32 u.toNat
  h.take 8 ++ '-' :: ((h.drop 8).take 4 ++ '-' :: ((h.drop 12).take 4 ++ '-' ::
    ((h.drop 16).take 4 ++ '-' :: h.drop 20)))

def strUuid (u : UUID) : String := String.ofList (uuidChars u)

/-! ## Date and time -/

/-- An offset from UTC in whole minutes, below one day. -/
structure UtcOffset where
  minutes : ℤ
  bound : -1440 < minutes ∧ minutes < 1440
deriving DecidableEq

def utc : UtcOffset := ⟨0, by norm_num⟩

/-- A `datetime`; `tzinfo = none` is a naive one. -/
structure DateTime where
  year : Fin 10000
  month : Fin 13
  day : Fin 32
  hour : Fin 24
  minute : Fin 60
  second : Fin 60
  microsecond : Fin 1000000
  tzinfo : Option UtcOffset
deriving DecidableEq

namespace DateTime

def isLeap (y : ℕ) : Bool := y % 4 = 0 ∧ (y % 100 ≠ 0 ∨ y % 400 = 0)

def daysInMonth (y m : ℕ) : ℕ :=
  match m with
  | 2 => if isLeap y then 29 else 28
  | 4 | 6 | 9 | 11 => 30
  | _ => 31

/-- Days before a month within its year. -/
def daysBeforeMonth (y m : ℕ) : ℕ := ((List.range m).tail.map (daysInMonth y)).sum

/-- The proleptic Gregorian ordinal of a date. -/
def ordinal (y m d : ℕ) : ℤ :=
  let p : ℤ := y - 1
  p * 365 + p / 4 - p / 100 + p / 400 + daysBeforeMonth y m + d

/-- Microseconds of the wall clock, less the offset: what aware datetimes are
compared by. -/
def instant (t : DateTime) : ℤ :=
  let minutes : ℤ := (ordinal t.year t.month t.day * 24 + t.hour) * 60 + t.minute
    - (match t.tzinfo with | none => 0 | some o => o.minutes)
  (minutes * 60 + t.second) * 1000000 + t.microsecond

def nextDay (t : DateTime) : DateTime :=
  if t.day.val < daysInMonth t.year t.month then { t with day := Fin.ofNat 32 (t.day + 1) }
  else if t.month.val < 12 then { t with day := 1, month := Fin.ofNat 13 (t.month + 1) }
  else { t with day := 1, month := 1, year := Fin.ofNat 10000 (t.year + 1) }

def prevDay (t : DateTime) : DateTime :=
  if 1 < t.day.val then { t with day := Fin.ofNat 32 (t.day - 1) }
  else if 1 < t.month.val then
    { t with month := Fin.ofNat 13 (t.month - 1),
             day := Fin.ofNat 32 (daysInMonth t.year (t.month - 1)) }
  else { t with year := Fin.ofNat 10000 (t.year - 1), month := 12, day := 31 }

/-- `t + timedelta(days=n)`. -/
def addDays : ℕ → DateTime → DateTime
  | 0, t => t
  | n + 1, t => addDays n t.nextDay

/-- The same instant in UTC. -/
def toUtc (t : DateTime) : DateTime :=
  let minutes : ℤ := t.hour * 60 + t.minute
    - (match t.tzinfo with | none => 0 | some o => o.minutes)
  let day := if minutes < 0 then t.prevDay else if 1440 ≤ minutes then t.nextDay else t
  { day with
    hour := Fin.ofNat 24 (minutes % 1440 / 60).toNat
    minute := Fin.ofNat 60 (minutes % 60).toNat
    tzinfo := some utc }

end DateTime

/-- The `n` low decimal digits of a number. -/
def pad : ℕ → ℕ → List Char
  | 0, _ => []
  | n + 1, v => pad n (v / 10) ++ [Nat.digitChar (v % 10)]

def offsetChars (o : UtcOffset) : List Char :=
  (if o.minutes < 0 then '-' else '+') ::
    (pad 2 (o.minutes.natAbs / 60) ++ ':' :: pad 2 (o.minutes.natAbs % 60))

/-- Date and time of day, with microseconds where they are not zero. -/
def DateTime.wallChars (t : DateTime) : List Char :=
  pad 4 t.year ++ '-' :: (pad 2 t.month ++ '-' :: (pad 2 t.day ++ 'T' :: (pad 2 t.hour ++ ':' ::
    (pad 2 t.minute ++ ':' :: (pad 2 t.second ++
      if t.microsecond.val = 0 then [] else '.' :: pad 6 t.microsecond)))))

/-- `datetime.isoformat()`. -/
def DateTime.isoformat (t : DateTime) : String :=
  String.ofList (t.wallChars ++ match t.tzinfo with | none => [] | some o => offsetChars o)

/-- A `datetime` in pydantic's JSON mode: `Z` for UTC, no suffix for a naive one. -/
def DateTime.jsonChars (t : DateTime) : List Char :=
  t.wallChars ++ match t.tzinfo with
    | none => []
    | some o => if o.minutes = 0 then ['Z'] else offsetChars o

/-! ## Scores -/

/-- `round(x, 2)`, ties to even. -/
def round2 (x : ℚ) : ℚ :=
  let y := x * 100
  let lo := ⌊y⌋
  let up := y - lo > 1 / 2 ∨ (y - lo = 1 / 2 ∧ lo % 2 = 1)
  (if up then lo + 1 else lo) / 100

/-- A score of at most two decimals as a JSON number. -/
def scoreJson (x : ℚ) : Json :=
  .num (.ofDecimal (.ofScaled (x < 0) ⌊x * 100⌋.natAbs (-2)))

def intJson (n : ℤ) : Json := .num (.int n)

/-! ## Models -/

inductive ClassificationLevel where
  | «public» | internal | confidential | protectedB
deriving DecidableEq

def ClassificationLevel.value : ClassificationLevel → String
  | .«public» => "public"
  | .internal => "internal"
  | .confidential => "confidential"
  | .protectedB => "protected_b"

inductive ReviewStatus where
  | intake | admissibility | technicalReview | legalReview | awaitingInformation
  | recommendation | approved | rejected
deriving DecidableEq

def ReviewStatus.value : ReviewStatus → String
  | .intake => "intake"
  | .admissibility => "admissibility"
  | .technicalReview => "technical_review"
  | .legalReview => "legal_review"
  | .awaitingInformation => "awaiting_information"
  | .recommendation => "recommendation"
  | .approved => "approved"
  | .rejected => "rejected"

/-- The caller. `sub` is `attributes["sub"]`, the one attribute a handler reads. -/
structure TenantContext where
  tenantId : String
  ministry : String
  roles : List String
  sub : Option String

structure DocumentIngestRequest where
  tenantId : String
  caseId : Option UUID
  filename : String
  contentType : String
  classification : ClassificationLevel
  sha256 : String
  sha256_length : sha256.length = 64
  objectUri : String
  metadata : Dict

structure DocumentRecord extends DocumentIngestRequest where
  id : UUID
  version : ℤ
  lineageId : UUID
  createdAt : DateTime

structure EvidenceCitation where
  documentId : UUID
  version : ℤ
  chunkId : String
  page : Option ℤ
  startOffset : Option ℤ
  endOffset : Option ℤ
  sha256 : String
  excerpt : String
deriving DecidableEq

structure AIFinding where
  findingType : String
  statement : String
  confidence : ℚ
  citations : List EvidenceCitation
  grounded : Bool
  explanation : String
deriving DecidableEq

structure EnvironmentalReviewRequest where
  tenantId : String
  caseId : UUID
  projectType : String
  location : String
  applicant : String
  documents : List UUID

structure EnvironmentalReviewResult where
  caseId : UUID
  admissible : Bool
  missingDocuments : List String
  regulationMappings : List AIFinding
  complianceFindings : List AIFinding
  riskScore : ℚ
  recommendation : String
  justification : String
  requiresHumanReview : Bool
deriving DecidableEq

inductive PipelineStage where
  | upload | ocr | classification | metadataExtraction | entityExtraction
  | complianceAnalysis | riskScoring | vectorIndexing | workflowEngine | auditLogging
deriving DecidableEq

structure StageResult where
  stage : PipelineStage
  status : String
  output : Dict
  durationMs : ℚ

structure DocumentProcessingResult where
  documentId : UUID
  stages : List StageResult
  classificationLabel : Option String
  extractedEntities : List String
  riskScore : Option ℚ
  workflowQueue : Option String
  completed : Bool

structure AuditEvent where
  id : UUID
  tenantId : String
  actor : String
  action : String
  resourceType : String
  resourceId : String
  purpose : String
  traceId : String
  timestamp : DateTime
  details : Dict
  previousHash : Option String
  eventHash : Option String

structure SearchHit where
  documentId : UUID
  filename : String
  contentType : String
  classification : ClassificationLevel
  score : ℚ
  highlight : Option String
  createdAt : DateTime

structure SearchResponse where
  query : String
  total : ℕ
  page : ℤ
  pageSize : ℤ
  backend : String
  results : List SearchHit

structure AuditEventListResponse where
  total : ℕ
  page : ℤ
  pageSize : ℤ
  totalPages : ℤ
  items : List AuditEvent

inductive IdentityProvider where
  | keycloak | azureAd | microsoftEntraId
deriving DecidableEq

def IdentityProvider.value : IdentityProvider → String
  | .keycloak => "keycloak"
  | .azureAd => "azure_ad"
  | .microsoftEntraId => "microsoft_entra_id"

/-- The fields that `submit_setup_configuration` reads. -/
structure SetupConfiguration where
  identityProvider : IdentityProvider
  keycloakIssuer : Option String
  azureAdTenantId : Option String
  azureAdClientId : Option String
  microsoftEntraIdTenantId : Option String
  emailNotificationsEnabled : Bool
  emailSmtpHost : Option String
  emailFromAddress : Option String

structure SetupConfigurationResult where
  accepted : Bool
  validatedComponents : List String
  warnings : List String

/-! ## JSON forms -/

def optStr : Option String → Json
  | none => .null
  | some s => .str s

def optInt : Option ℤ → Json
  | none => .null
  | some n => intJson n

/-- `EvidenceCitation.model_dump(mode="json")`. -/
def EvidenceCitation.modelDump (c : EvidenceCitation) : Json :=
  .obj [("document_id", .str (strUuid c.documentId)), ("version", intJson c.version),
    ("chunk_id", .str c.chunkId), ("page", optInt c.page), ("start_offset", optInt c.startOffset),
    ("end_offset", optInt c.endOffset), ("sha256", .str c.sha256), ("excerpt", .str c.excerpt)]

def AIFinding.modelDump (f : AIFinding) : Json :=
  .obj [("finding_type", .str f.findingType), ("statement", .str f.statement),
    ("confidence", scoreJson f.confidence), ("citations", .arr (f.citations.map (·.modelDump))),
    ("grounded", .bool f.grounded), ("explanation", .str f.explanation)]

def EnvironmentalReviewResult.modelDump (r : EnvironmentalReviewResult) : Dict :=
  [("case_id", .str (strUuid r.caseId)), ("admissible", .bool r.admissible),
    ("missing_documents", .arr (r.missingDocuments.map .str)),
    ("regulation_mappings", .arr (r.regulationMappings.map (·.modelDump))),
    ("compliance_findings", .arr (r.complianceFindings.map (·.modelDump))),
    ("risk_score", scoreJson r.riskScore), ("recommendation", .str r.recommendation),
    ("justification", .str r.justification),
    ("requires_human_review", .bool r.requiresHumanReview)]

def AuditEvent.modelDump (e : AuditEvent) : Dict :=
  [("id", .str (strUuid e.id)), ("tenant_id", .str e.tenantId), ("actor", .str e.actor),
    ("action", .str e.action), ("resource_type", .str e.resourceType),
    ("resource_id", .str e.resourceId), ("purpose", .str e.purpose), ("trace_id", .str e.traceId),
    ("timestamp", .str (String.ofList e.timestamp.jsonChars)), ("details", .obj e.details),
    ("previous_hash", optStr e.previousHash), ("event_hash", optStr e.eventHash)]

end GoAnalyze
