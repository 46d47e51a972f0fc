import GoAnalyze.Proofs.ColumnBounds

/-! When the ingestion pipeline runs through all of its stages. Nine of them compute, and
of these only the compliance stage can fail; the tenth appends the audit event. -/

namespace GoAnalyze

open JsonText Sql AuditRepository

/-! ## The score -/

theorem round2_mem {x : ℚ} (hx : 0 ≤ x ∧ x ≤ 100) : 0 ≤ round2 x ∧ round2 x ≤ 100 := by
  have hlo : (0 : ℚ) ≤ ⌊x * 100⌋ := by
    exact_mod_cast Int.floor_nonneg.mpr (by linarith only [hx.1])
  have hle : (⌊x * 100⌋ : ℚ) ≤ x * 100 := Int.floor_le _
  unfold round2
  dsimp only
  split_ifs with hup
  · -- rounding up starts from a fractional part, so that the floor is below 10000
    have hfrac : (1 / 2 : ℚ) ≤ x * 100 - ⌊x * 100⌋ := by
      rcases hup with hup | ⟨hup, -⟩
      · exact hup.le
      · exact hup.ge
    have hlt : ⌊x * 100⌋ < 10000 := by
      have hcast : (⌊x * 100⌋ : ℚ) < 10000 := by linarith only [hfrac, hx.2]
      exact_mod_cast hcast
    have hhi : (⌊x * 100⌋ : ℚ) + 1 ≤ 10000 := by exact_mod_cast hlt
    rw [Int.cast_add, Int.cast_one]
    exact ⟨by positivity, by linarith only [hhi]⟩
  · exact ⟨by positivity, by linarith only [hle, hx.2]⟩

namespace EnvironmentalAuthorizationEngine

/-- Confidences above 1 would lower the score. -/
theorem riskScore_mem {missing : List String} {findings : List AIFinding}
    (h : ∀ finding ∈ findings, finding.confidence ≤ 1) :
    0 ≤ riskScore missing findings ∧ riskScore missing findings ≤ 100 := by
  have hpenalty : 0 ≤ (findings.map fun finding => 1 - finding.confidence).sum := by
    refine List.sum_nonneg fun x hx => ?_
    obtain ⟨finding, hfinding, rfl⟩ := List.mem_map.mp hx
    exact sub_nonneg.mpr (h finding hfinding)
  have hmissing : (0 : ℚ) ≤ min 45 ((missing.length : ℚ) * 9) :=
    le_min (by norm_num) (by positivity)
  exact round2_mem ⟨le_min (by norm_num) (by positivity), min_le_left _ _⟩

theorem confidence_complianceFindings {caseId : UUID} {missing : List String}
    {citations : List EvidenceCitation} :
    ∀ finding ∈ complianceFindings caseId missing citations, finding.confidence ≤ 1 := by
  intro finding hfinding
  unfold complianceFindings at hfinding
  split_ifs at hfinding
  · rw [List.mem_singleton.mp hfinding]
    norm_num
  · obtain ⟨name, -, rfl⟩ := List.mem_map.mp hfinding
    norm_num

theorem riskScore_review (request : EnvironmentalReviewRequest) (types : List String)
    (citations : List EvidenceCitation) :
    0 ≤ (review request types citations).riskScore ∧
      (review request types citations).riskScore ≤ 100 :=
  riskScore_mem confidence_complianceFindings

end EnvironmentalAuthorizationEngine

/-! ## Metadata -/

theorem lookup_append (k : String) (v : Json) (d : Dict) (k' : String) :
    lookup k' (d ++ [(k, v)]) = (lookup k' d).or (if k' = k then some v else none) := by
  induction d with
  | nil => rfl
  | cons member d ih =>
    rw [List.cons_append, lookup, lookup]
    by_cases hk : k' = member.1
    · rw [if_pos hk, if_pos hk, Option.some_or]
    · rw [if_neg hk, if_neg hk, ih]

theorem lookup_setItem_ne {k k' : String} (hne : k' ≠ k) (v : Json) (d : Dict) :
    lookup k' (setItem k v d) = lookup k' d := by
  induction d with
  | nil => rfl
  | cons member d ih =>
    rw [setItem, List.map_cons]
    by_cases hk : member.1 = k
    · rw [if_pos hk, lookup, lookup, if_neg hne, if_neg (hk ▸ hne)]
      exact ih
    · rw [if_neg hk, lookup, lookup, show lookup k' (d.map _) = _ from ih]

theorem lookup_dictSet_ne {k k' : String} (hne : k' ≠ k) (v : Json) (d : Dict) :
    lookup k' (dictSet k v d) = lookup k' d := by
  unfold dictSet
  split_ifs
  · exact lookup_setItem_ne hne v d
  · rw [lookup_append, if_neg hne, Option.or_none]

theorem lookup_dictSetDefault_ne {k k' : String} (hne : k' ≠ k) (v : Json) (d : Dict) :
    lookup k' (dictSetDefault k v d) = lookup k' d := by
  unfold dictSetDefault
  split_ifs
  · rfl
  · rw [lookup_append, if_neg hne, Option.or_none]

theorem lookup_dictSetDefault (k : String) (v : Json) (d : Dict) :
    lookup k (dictSetDefault k v d) = some ((lookup k d).getD v) := by
  unfold dictSetDefault
  cases hk : lookup k d with
  | some value => exact hk
  | none =>
    rw [if_neg (by simp), lookup_append, hk, if_pos rfl]
    rfl

/-! ## The pipeline -/

/-- The members of `PipelineStage` in the order of their declaration. -/
def declaredStages : List PipelineStage :=
  [.upload, .ocr, .classification, .metadataExtraction, .entityExtraction, .complianceAnalysis,
    .riskScoring, .vectorIndexing, .workflowEngine, .auditLogging]

/-- The metadata names no file, or names it with a string. -/
def FilenameIsText (metadata : Dict) : Prop :=
  ∀ value, lookup "filename" metadata = some value → ∃ name, value = .str name

section Pipeline

variable (P : Platform) (record : DocumentRecord) (extractText : String → String → List Char)
  (rawText : Option (List Char)) (inp : Inputs) (actor traceId purpose : String) (w : World)

/-- The event of a pipeline run fits its columns, and its id is new. -/
def PipelineEventFits : Prop :=
  (P.dialect = .postgresql → varchar 255 record.tenantId ∧ varchar 255 actor ∧
    varchar 128 purpose ∧ varchar 255 traceId) ∧ Fresh inp w

/-- The run raises nothing, passes the ten stages and appends its event. -/
structure PipelineCompletes (result : DocumentProcessingResult) (v : World) : Prop where
  run : (IngestionPipeline.run P record extractText rawText inp actor traceId purpose).run w =
    .ok result v
  completed : result.completed
  stages : result.stages.map (·.stage) = declaredStages
  riskScore : ∃ score, result.riskScore = some score ∧ 0 ≤ score ∧ score ≤ 100
  entities : result.extractedEntities.length ≤ 25
  event : ∃ orm : AuditEventORM, v.audit.events.rows = w.audit.events.rows ++ [orm] ∧
    orm.tenantId = record.tenantId ∧ orm.action = "document.pipeline_completed"

variable {P record extractText rawText inp actor traceId purpose w}

theorem lookup_filename (text : List Char) :
    lookup "filename" (IngestionPipeline.stageMetadata record text) =
      some ((lookup "filename" record.metadata).getD (.str record.filename)) := by
  rw [IngestionPipeline.stageMetadata, lookup_dictSet_ne (by decide),
    lookup_dictSetDefault_ne (by decide), lookup_dictSetDefault]

variable (P record) in
theorem compliance_cases (text : List Char) (label : String) :
    (FilenameIsText record.metadata ∧ ∃ review, IngestionPipeline.compliance P record label
      (IngestionPipeline.stageMetadata record text) = .ok review ∧
        0 ≤ review.riskScore ∧ review.riskScore ≤ 100) ∨
    (¬ FilenameIsText record.metadata ∧ IngestionPipeline.compliance P record label
      (IngestionPipeline.stageMetadata record text) = .error internalServerError) := by
  unfold IngestionPipeline.compliance FilenameIsText
  rw [lookup_filename, Option.getD_some]
  cases hfilename : lookup "filename" record.metadata with
  | none =>
    have htext : ∀ value, (none : Option Json) = some value → ∃ name, value = .str name := by
      intro value hvalue
      cases hvalue
    exact Or.inl ⟨htext, _, rfl, EnvironmentalAuthorizationEngine.riskScore_review _ _ _⟩
  | some value =>
    have hrefused : (∀ name, value ≠ .str name) →
        ¬ ∀ value', some value = some value' → ∃ name, value' = .str name :=
      fun hne h => (h value rfl).elim hne
    cases value with
    | str name =>
      have htext : ∀ value, some (Json.str name) = some value → ∃ name, value = .str name :=
        fun value hvalue => ⟨name, (Option.some.inj hvalue).symm⟩
      exact Or.inl ⟨htext, _, rfl, EnvironmentalAuthorizationEngine.riskScore_review _ _ _⟩
    | null | bool | num | arr | obj =>
      refine Or.inr ⟨hrefused ?_, rfl⟩
      intro name hname
      cases hname

theorem insertable_auditEvent_iff {text : List Char} {label : String} {score : ℚ} :
    Insertable P w (IngestionPipeline.auditEvent P record text inp actor traceId purpose label score)
      ↔ PipelineEventFits P record inp actor traceId purpose w := by
  unfold Insertable PipelineEventFits
  refine and_congr ?_ Iff.rfl
  cases P.dialect with
  | sqlite =>
    refine iff_of_true rfl fun h => ?_
    cases h
  | postgresql =>
    have haction : varchar 255 "document.pipeline_completed" := rfl
    have htype : varchar 128 "document" := rfl
    simp only [AuditEventORM.fits, toOrm, IngestionPipeline.auditEvent, Bool.and_eq_true, haction,
      htype, varchar_strUuid, and_true, and_assoc, forall_const]

variable (inp actor traceId purpose) in
theorem run_pipeline {text : List Char}
    (htext : text = rawText.getD (extractText record.objectUri record.contentType))
    {review : EnvironmentalReviewResult}
    (hreview : IngestionPipeline.compliance P record (IngestionPipeline.classify P text).1
      (IngestionPipeline.stageMetadata record text) = .ok review) :
    ∃ result : AuditEvent → DocumentProcessingResult,
      (IngestionPipeline.run P record extractText rawText inp actor traceId purpose =
        AuditLog.append P (IngestionPipeline.auditEvent P record text inp actor traceId purpose
          (IngestionPipeline.classify P text).1 review.riskScore) >>= fun event =>
            pure (result event)) ∧
      ∀ event, (result event).completed ∧ (result event).stages.map (·.stage) = declaredStages ∧
        (result event).riskScore = some review.riskScore ∧
        (result event).extractedEntities = IngestionPipeline.entities P text := by
  subst htext
  simp only [IngestionPipeline.run, IngestionPipeline.runText, hreview]
  exact ⟨_, rfl, fun event => ⟨rfl, rfl, rfl, rfl⟩⟩

theorem not_completes {text : List Char}
    (htext : text = rawText.getD (extractText record.objectUri record.contentType))
    {e : HTTPException} (hreview : IngestionPipeline.compliance P record
      (IngestionPipeline.classify P text).1 (IngestionPipeline.stageMetadata record text) =
        .error e) :
    ¬ ∃ result v,
      PipelineCompletes P record extractText rawText inp actor traceId purpose w result v := by
  rintro ⟨result, v, h⟩
  have hrun := h.run
  simp only [IngestionPipeline.run, IngestionPipeline.runText, ← htext, hreview] at hrun
  cases hrun

theorem length_entities (text : List Char) : (IngestionPipeline.entities P text).length ≤ 25 :=
  List.length_take_le _ _

theorem rows_append {event appended : AuditEvent} {v : World}
    (h : (AuditLog.append P event).run w = .ok appended v) :
    v.audit.events.rows = w.audit.events.rows ++ [toOrm P.dialect (w.chained P event)] := by
  rw [run_append] at h
  split at h
  · rename_i events hevents
    cases h
    exact Table.rows_insertChecked hevents
  · cases h

/-- The pipeline completes exactly on records whose metadata has no other value than a
string under `filename`, where the database takes its audit event. -/
theorem pipeline_completes_iff :
    (∃ result v, PipelineCompletes P record extractText rawText inp actor traceId purpose w result v)
      ↔ FilenameIsText record.metadata ∧ PipelineEventFits P record inp actor traceId purpose w := by
  obtain ⟨text, htext⟩ : ∃ text, text =
    rawText.getD (extractText record.objectUri record.contentType) := ⟨_, rfl⟩
  rcases compliance_cases P record text (IngestionPipeline.classify P text).1 with
    ⟨hfilename, review, hreview, hscore⟩ | ⟨hfilename, hreview⟩
  · obtain ⟨result, hrun, hresult⟩ := run_pipeline inp actor traceId purpose htext hreview
    rw [and_iff_right hfilename, ← insertable_auditEvent_iff, ← run_append_ok_iff]
    constructor
    · rintro ⟨result', v, h⟩
      have happend := h.run
      rw [hrun, run_map_eq_ok] at happend
      obtain ⟨event, happend, -⟩ := happend
      exact ⟨event, v, happend⟩
    · rintro ⟨event, v, happend⟩
      obtain ⟨hcompleted, hstages, hrisk, hentities⟩ := hresult event
      refine ⟨result event, v, ?_, hcompleted, hstages, ⟨_, hrisk, hscore⟩, ?_, ?_⟩
      · rw [hrun]
        exact run_map_eq_ok.mpr ⟨event, happend, rfl⟩
      · rw [hentities]
        exact length_entities text
      · exact ⟨_, rows_append happend, rfl, rfl⟩
  · exact iff_of_false (not_completes htext hreview) fun h => hfilename h.1

end Pipeline

/-- A document whose metadata has this value under `filename`. -/
def exampleNamed (value : Json) : DocumentRecord :=
  newRecord (exampleInputs 1) (exampleIngest "env" "plan.pdf" .internal [("filename", value)])

/-- A number under `filename` ends the run, though the database would take its event. -/
theorem pipeline_stops_at_number :
    PipelineEventFits examplePlatform (exampleNamed (intJson 123)) (exampleInputs 1) "clerk" "t"
        "case-review" World.empty ∧
      ¬ ∃ result v, PipelineCompletes examplePlatform (exampleNamed (intJson 123)) nullOcrEngine
        none (exampleInputs 1) "clerk" "t" "case-review" World.empty result v := by
  refine ⟨⟨fun _ => ⟨rfl, rfl, rfl, rfl⟩, List.not_mem_nil⟩, ?_⟩
  rcases compliance_cases examplePlatform (exampleNamed (intJson 123)) []
    (IngestionPipeline.classify examplePlatform []).1 with ⟨htext, -⟩ | ⟨-, hreview⟩
  · obtain ⟨name, hname⟩ := htext _ rfl
    cases hname
  · exact not_completes rfl hreview

end GoAnalyze
