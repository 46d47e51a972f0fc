import GoAnalyze.Spec.Models

/-! `environmental_engine.py`, `rag.py` and `workflows.py`: the functions that
compute a review, an answer and an assignment, without state. -/

namespace GoAnalyze

open JsonText

/-! ## Environmental review -/

def requiredDocumentsByProject : List (String × List String) :=
  [("industrial_discharge", ["application_form", "site_plan", "effluent_characterization",
      "mitigation_plan", "public_consultation_record"]),
    ("waste_management", ["application_form", "site_plan", "waste_profile", "contingency_plan",
      "closure_plan"]),
    ("water_taking", ["application_form", "hydrogeology_report", "water_balance",
      "impact_assessment"])]

def regulationsByProject : List (String × List String) :=
  [("industrial_discharge", ["Environmental protection authorization discharge limits",
      "Surface water quality objective assessment", "Spill prevention and contingency planning"]),
    ("waste_management", ["Waste classification and handling requirements",
      "Financial assurance and closure obligations", "Receiving site compatibility review"]),
    ("water_taking", ["Water taking permit threshold analysis",
      "Cumulative watershed impact assessment", "Monitoring and reporting condition review"])]

/-- `sorted` of strings. -/
def sortStrings (xs : List String) : List String := xs.insertionSort (· ≤ ·)

namespace EnvironmentalAuthorizationEngine

def required (projectType : String) : List String :=
  (requiredDocumentsByProject.lookup projectType).getD ["application_form"]

def regulations (projectType : String) : List String :=
  (regulationsByProject.lookup projectType).getD ["General authorization review"]

/-- `sorted(required - available_document_types)`. -/
def missing (projectType : String) (availableDocumentTypes : List String) : List String :=
  sortStrings ((required projectType).filter (· ∉ availableDocumentTypes))

def regulationMappings (projectType : String) (citations : List EvidenceCitation) :
    List AIFinding :=
  (regulations projectType).map fun regulation =>
    { findingType := "regulation_mapping"
      statement := regulation
      confidence := if citations.isEmpty then 45 / 100 else 82 / 100
      citations := citations.take 2
      grounded := !citations.isEmpty
      explanation :=
        "Mapped from project type, supplied document set, and evidence availability." }

def complianceFindings (caseId : UUID) (missing : List String)
    (citations : List EvidenceCitation) : List AIFinding :=
  if missing.isEmpty then
    [{ findingType := "admissibility"
       statement := "Required document set is complete for admissibility screening."
       confidence := 88 / 100
       citations := citations.take 3
       grounded := !citations.isEmpty
       explanation := "All required document type markers were present in the case file." }]
  else missing.map fun name =>
    { findingType := "missing_document"
      statement := "Required document is missing: " ++ name
      confidence := 96 / 100
      citations := []
      grounded := true
      explanation := "Case " ++ strUuid caseId ++
        " cannot complete admissibility until this item is supplied." }

def riskScore (missing : List String) (findings : List AIFinding) : ℚ :=
  let missingPenalty : ℚ := min 45 (missing.length * 9)
  let confidencePenalty : ℚ := (findings.map fun finding => 1 - finding.confidence).sum * 5
  round2 (min 100 (25 + missingPenalty + confidencePenalty))

def recommendation (missing : List String) (riskScore : ℚ) : String :=
  if !missing.isEmpty then "request_additional_information"
  else if riskScore ≥ 70 then "refer_to_senior_technical_review"
  else "proceed_to_technical_review"

/-- A float of at most two decimals in an f-string. -/
def scoreText (x : ℚ) : String := String.ofList (write compact (scoreJson x))

def natText (n : ℕ) : String := String.ofList (digits n)

def justification (missing : List String) (riskScore : ℚ) (mappings : List AIFinding) : String :=
  let mapped := "; ".intercalate (mappings.map (·.statement))
  if !missing.isEmpty then
    "Admissibility is incomplete because " ++ natText missing.length ++
      " required item(s) are absent. Mapped obligations: " ++ mapped ++ ". Risk score: " ++
      scoreText riskScore ++ "."
  else
    "Admissibility can proceed. Mapped obligations: " ++ mapped ++ ". Risk score: " ++
      scoreText riskScore ++ "."

def review (request : EnvironmentalReviewRequest) (availableDocumentTypes : List String)
    (citations : List EvidenceCitation) : EnvironmentalReviewResult :=
  let missing := missing request.projectType availableDocumentTypes
  let mappings := regulationMappings request.projectType citations
  let findings := complianceFindings request.caseId missing citations
  let score := riskScore missing findings
  { caseId := request.caseId
    admissible := missing.isEmpty
    missingDocuments := missing
    regulationMappings := mappings
    complianceFindings := findings
    riskScore := score
    recommendation := recommendation missing score
    justification := justification missing score mappings
    requiresHumanReview := true }

/-- The review reads the available types through the missing ones alone, and of the
citations no more than the first three. -/
theorem review_congr (request : EnvironmentalReviewRequest) {types types' : List String}
    {citations citations' : List EvidenceCitation}
    (htypes : missing request.projectType types = missing request.projectType types')
    (htake : citations.take 3 = citations'.take 3) :
    review request types citations = review request types' citations' := by
  have htwo : citations.take 2 = citations'.take 2 := by
    rw [show (2 : ℕ) = min 2 3 from rfl, ← List.take_take, htake, List.take_take]
  have hempty : citations.isEmpty = citations'.isEmpty := by
    cases citations <;> cases citations' <;> simp_all
  simp only [review, htypes, regulationMappings, complianceFindings, htake, htwo, hempty]

end EnvironmentalAuthorizationEngine

/-! ## Grounded answers -/

/-- `GroundedRagService.answer`; the question is not read. -/
def GroundedRagService.answer (_question : String) (citations : List EvidenceCitation) :
    AIFinding :=
  if citations.isEmpty then
    { findingType := "rag_answer"
      statement := "The repository evidence supplied to the RAG service does not support an answer."
      confidence := 0
      citations := []
      grounded := false
      explanation := "No citations were available, so the response is withheld." }
  else
    let joined := " ".intercalate ((citations.take 3).map (·.excerpt))
    { findingType := "rag_answer"
      statement := "Based on cited evidence: " ++ String.ofList (joined.toList.take 600)
      confidence := min (92 / 100) (55 / 100 + citations.length * (8 / 100))
      citations := citations.take 5
      grounded := true
      explanation := "Answer generated only from retrieved citation excerpts." }

/-! ## Assignment -/

structure Assignment where
  caseId : UUID
  assignee : String
  queue : String
  dueAt : DateTime
  escalationAt : DateTime
  status : ReviewStatus

/-- Order by workload, then by name. -/
def workloadLe (a b : String × ℤ) : Prop := a.2 < b.2 ∨ (a.2 = b.2 ∧ a.1 ≤ b.1)

instance : DecidableRel workloadLe := fun _ _ => inferInstanceAs (Decidable (_ ∨ _))

def AssignmentEngine.assign (now : DateTime) (caseId : UUID) (skill : String)
    (workload : List (String × ℤ)) : Assignment :=
  let candidates := workload.insertionSort workloadLe
  { caseId := caseId
    assignee := match candidates with
      | candidate :: _ => candidate.1
      | [] => skill ++ "-pool"
    queue := skill ++ "-review"
    dueAt := now.addDays 5
    escalationAt := now.addDays 4
    status := .technicalReview }

end GoAnalyze
