import GoAnalyze.Proofs.ReviewMonotone

/-! Where the pipeline routes a document. The queue follows the skill that the risk score
asks for, but the assignee is always the pool with the least workload. -/

namespace GoAnalyze

open JsonText EnvironmentalAuthorizationEngine

/-! ## The score of a pipeline run -/

theorem le_riskScore_iff (caseId : UUID) (missing : List String)
    (citations : List EvidenceCitation) :
    70 ≤ riskScore missing (complianceFindings caseId missing citations) ↔ 5 ≤ missing.length := by
  have hfour : round2 (min 100 (scoreOfCount 4)) = 618 / 10 := by
    decide +kernel
  have hfive : round2 (min 100 (scoreOfCount 5)) = 71 := by
    decide +kernel
  rw [riskScore_eq]
  constructor
  · intro hscore
    by_contra hlt
    have hle : round2 (min 100 (scoreOfCount missing.length)) ≤ 618 / 10 := by
      rw [← hfour]
      exact round2_mono (min_le_min_left 100 (scoreOfCount_mono (by omega)))
    linarith only [hscore, hle]
  · intro hlen
    have hle : 71 ≤ round2 (min 100 (scoreOfCount missing.length)) := by
      rw [← hfive]
      exact round2_mono (min_le_min_left 100 (scoreOfCount_mono hlen))
    linarith only [hle]

section Pipeline

variable (P : Platform) (record : DocumentRecord) (text : List Char)

def projectType : String :=
  ((lookup "project_type" record.metadata).map (textOf P)).getD "general_review"

/-- The project type requires five documents, and the text is none of them. -/
def FiveMissing : Prop :=
  (projectType P record = "industrial_discharge" ∨ projectType P record = "waste_management") ∧
    (IngestionPipeline.classify P text).1 ∉ required (projectType P record)

/-- The stage of the workflow engine assigns the document to the pool of the skill that the
risk score asks for, and so does its queue. -/
def RoutedBySkill (result : DocumentProcessingResult) : Prop :=
  ∃ score skill, result.riskScore = some score ∧
    skill = (if 70 ≤ score then "senior-review" else "technical-review") ∧
    (result.stages.filter (·.stage = .workflowEngine)).map (lookup "assignee" ·.output) =
      [some (.str (skill ++ "-pool"))] ∧
    result.workflowQueue = some (skill ++ "-review")

end Pipeline

section Runs

variable {P : Platform} {record : DocumentRecord} {extractText : String → String → List Char}
  {rawText : Option (List Char)} {inp : Inputs} {actor traceId purpose : String}
  {w v : World} {result : DocumentProcessingResult}

theorem result_of_run {text : List Char}
    (htext : text = rawText.getD (extractText record.objectUri record.contentType))
    (h : (IngestionPipeline.run P record extractText rawText inp actor traceId purpose).run w =
      .ok result v) :
    ∃ review, IngestionPipeline.compliance P record (IngestionPipeline.classify P text).1
        (IngestionPipeline.stageMetadata record text) = .ok review ∧
      result.riskScore = some review.riskScore ∧
      result.workflowQueue =
        some (IngestionPipeline.workflow record inp.assignTime review.riskScore).queue ∧
      (result.stages.filter (·.stage = .workflowEngine)).map (·.output) =
        [IngestionPipeline.stageWorkflow
          (IngestionPipeline.workflow record inp.assignTime review.riskScore)] := by
  subst htext
  simp only [IngestionPipeline.run, IngestionPipeline.runText] at h
  split at h
  · cases h
  · rename_i review hreview
    obtain ⟨event, -, rfl⟩ := run_map_eq_ok.mp h
    exact ⟨review, hreview, rfl, rfl, rfl⟩

theorem lookup_projectType (text : List Char) :
    lookup "project_type" (IngestionPipeline.stageMetadata record text) =
      lookup "project_type" record.metadata := by
  rw [IngestionPipeline.stageMetadata, lookup_dictSet_ne (by decide),
    lookup_dictSetDefault_ne (by decide), lookup_dictSetDefault_ne (by decide)]

theorem riskScore_of_compliance {label : String} {text : List Char}
    {review : EnvironmentalReviewResult}
    (h : IngestionPipeline.compliance P record label
      (IngestionPipeline.stageMetadata record text) = .ok review) :
    ∃ caseId citations, review.riskScore =
      riskScore (missing (projectType P record) (if label = "uncategorized" then [] else [label]))
        (complianceFindings caseId
          (missing (projectType P record) (if label = "uncategorized" then [] else [label]))
          citations) := by
  unfold IngestionPipeline.compliance at h
  rw [projectType, ← lookup_projectType text]
  cases hfile : (lookup "filename" (IngestionPipeline.stageMetadata record text)).getD
      (.str record.filename) with
  | str excerpt =>
    rw [hfile] at h
    cases h
    exact ⟨_, _, rfl⟩
  | null | bool | num | arr | obj =>
    rw [hfile] at h
    cases h

theorem required_cases (projectType : String) :
    projectType = "industrial_discharge" ∨ projectType = "waste_management" ∨
      projectType = "water_taking" ∨ required projectType = ["application_form"] := by
  by_cases hdischarge : projectType = "industrial_discharge"
  · exact Or.inl hdischarge
  by_cases hwaste : projectType = "waste_management"
  · exact Or.inr (Or.inl hwaste)
  by_cases hwater : projectType = "water_taking"
  · exact Or.inr (Or.inr (Or.inl hwater))
  · refine Or.inr (Or.inr (Or.inr ?_))
    simp [required, requiredDocumentsByProject, List.lookup_cons, beq_false_of_ne hdischarge,
      beq_false_of_ne hwaste, beq_false_of_ne hwater]

theorem length_required (projectType : String) : (required projectType).length ≤ 5 ∧
    "uncategorized" ∉ required projectType ∧ ((required projectType).length = 5 ↔
      projectType = "industrial_discharge" ∨ projectType = "waste_management") := by
  rcases required_cases projectType with rfl | rfl | rfl | hother
  · decide
  · decide
  · decide
  · rw [hother]
    refine ⟨by decide, by decide, iff_of_false (by decide) ?_⟩
    rintro (rfl | rfl)
    · exact absurd hother (by decide)
    · exact absurd hother (by decide)

theorem five_le_missing_iff {projectType label : String} :
    5 ≤ (missing projectType (if label = "uncategorized" then [] else [label])).length ↔
      (projectType = "industrial_discharge" ∨ projectType = "waste_management") ∧
        label ∉ required projectType := by
  obtain ⟨hle, hnone, hfive⟩ := length_required projectType
  have hall : (∀ name ∈ required projectType,
      name ∉ if label = "uncategorized" then [] else [label]) ↔ label ∉ required projectType := by
    split_ifs with hlabel
    · exact iff_of_true (fun _ _ => List.not_mem_nil) (hlabel ▸ hnone)
    · simp only [List.mem_singleton]
      exact ⟨fun h hin => h label hin rfl, fun h name hin heq => h (heq ▸ hin)⟩
  have hfilter := List.length_filter_le (fun name => decide (name ∉
    if label = "uncategorized" then [] else [label])) (required projectType)
  rw [← hfive, ← hall, missing, sortStrings, List.length_insertionSort]
  constructor
  · intro h
    have hlen : (required projectType).length = 5 := by omega
    have hkept : ((required projectType).filter fun name => decide (name ∉
        if label = "uncategorized" then [] else [label])).length =
          (required projectType).length := by omega
    exact ⟨hlen, fun name hname =>
      of_decide_eq_true (List.length_filter_eq_length_iff.mp hkept name hname)⟩
  · rintro ⟨hlen, hmissing⟩
    rw [List.length_filter_eq_length_iff.mpr fun name hname => decide_eq_true (hmissing name hname),
      hlen]

/-- Whatever the skill, the assignee is the pool with the least workload. -/
theorem routedBySkill_iff_score
    (h : (IngestionPipeline.run P record extractText rawText inp actor traceId purpose).run w =
      .ok result v) :
    RoutedBySkill result ↔ ∃ score, result.riskScore = some score ∧ 70 ≤ score := by
  obtain ⟨review, -, hscore, hqueue, hstage⟩ := result_of_run rfl h
  have hassignee : (result.stages.filter (·.stage = .workflowEngine)).map
      (lookup "assignee" ·.output) = [some (.str "senior-review-pool")] := by
    have hmap : (result.stages.filter (·.stage = .workflowEngine)).map
        (lookup "assignee" ·.output) = ((result.stages.filter (·.stage = .workflowEngine)).map
          (·.output)).map (lookup "assignee") := by rw [List.map_map]; rfl
    rw [hmap, hstage]
    rfl
  constructor
  · rintro ⟨score, skill, hscore', hskill, hpool, -⟩
    refine ⟨score, hscore', ?_⟩
    by_contra hlow
    rw [hassignee, hskill, if_neg hlow] at hpool
    have hname : "senior-review-pool" = "technical-review" ++ "-pool" :=
      Json.str.inj (Option.some.inj (List.singleton_inj.mp hpool))
    exact absurd hname (by decide)
  · rintro ⟨score, hscore', hhigh⟩
    obtain rfl : review.riskScore = score := Option.some.inj (hscore.symm.trans hscore')
    refine ⟨review.riskScore, "senior-review", hscore, (if_pos hhigh).symm, hassignee, ?_⟩
    rw [hqueue, IngestionPipeline.workflow, if_pos hhigh]
    rfl

theorem score_of_run
    (h : (IngestionPipeline.run P record extractText rawText inp actor traceId purpose).run w =
      .ok result v) :
    ∃ score, result.riskScore = some score ∧ (70 ≤ score ↔
      FiveMissing P record (rawText.getD (extractText record.objectUri record.contentType))) := by
  obtain ⟨review, hreview, hscore, -⟩ := result_of_run rfl h
  obtain ⟨caseId, citations, hrisk⟩ := riskScore_of_compliance hreview
  refine ⟨review.riskScore, hscore, ?_⟩
  rw [hrisk, le_riskScore_iff, five_le_missing_iff, FiveMissing]

/-- The pipeline routes a document to the pool of its skill exactly where the text is none
of the five documents that its project type requires. -/
theorem routedBySkill_iff
    (h : (IngestionPipeline.run P record extractText rawText inp actor traceId purpose).run w =
      .ok result v) :
    RoutedBySkill result ↔
      FiveMissing P record (rawText.getD (extractText record.objectUri record.contentType)) := by
  obtain ⟨score, hscore, hdue⟩ := score_of_run h
  rw [routedBySkill_iff_score h, hscore, ← hdue]
  simp only [Option.some.injEq, exists_eq_left']

end Runs

/-! A document of a project type, processed without any text. -/

def exampleProject (type : String) : DocumentRecord :=
  newRecord (exampleInputs 1)
    (exampleIngest "env" "plan.pdf" .internal [("project_type", .str type)])

theorem routedBySkill_discharge : ∃ result v,
    (IngestionPipeline.run examplePlatform (exampleProject "industrial_discharge") nullOcrEngine
      none (exampleInputs 1) "clerk" "t" "case-review").run World.empty = .ok result v ∧
    RoutedBySkill result := by
  obtain ⟨result, v, hrun⟩ : ∃ result v, (IngestionPipeline.run examplePlatform
    (exampleProject "industrial_discharge") nullOcrEngine none (exampleInputs 1) "clerk" "t"
      "case-review").run World.empty = .ok result v := ⟨_, _, rfl⟩
  exact ⟨result, v, hrun, (routedBySkill_iff hrun).mpr ⟨Or.inl rfl, by decide⟩⟩

/-- A water taking, at most 61.8, goes to the pool for senior reviews. -/
theorem routed_past_skill : ∃ result v,
    (IngestionPipeline.run examplePlatform (exampleProject "water_taking") nullOcrEngine
      none (exampleInputs 1) "clerk" "t" "case-review").run World.empty = .ok result v ∧
    ¬ RoutedBySkill result := by
  obtain ⟨result, v, hrun⟩ : ∃ result v, (IngestionPipeline.run examplePlatform
    (exampleProject "water_taking") nullOcrEngine none (exampleInputs 1) "clerk" "t"
      "case-review").run World.empty = .ok result v := ⟨_, _, rfl⟩
  refine ⟨result, v, hrun, fun h => ?_⟩
  obtain ⟨score, hscore, hhigh⟩ := (routedBySkill_iff_score hrun).mp h
  obtain ⟨score', hscore', hdue⟩ := score_of_run hrun
  obtain rfl : score' = score := Option.some.inj (hscore'.symm.trans hscore)
  obtain ⟨htype | htype, -⟩ := hdue.mp hhigh
  · exact absurd (show "water_taking" = "industrial_discharge" from htype) (by decide)
  · exact absurd (show "water_taking" = "waste_management" from htype) (by decide)

end GoAnalyze
