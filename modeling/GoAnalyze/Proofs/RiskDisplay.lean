import GoAnalyze.Proofs.WorkflowRouting
import GoAnalyze.Spec.RiskDisplay

/-! The scale of the risk. The engine scores from 25.6 to 100, the page takes scores from 0
to 1, so every document shows a percentage beyond 100. -/

namespace GoAnalyze

open EnvironmentalAuthorizationEngine

def engineBand (score : ℚ) : RiskBand :=
  if score < 34 then .low else if score < 67 then .medium else .high

/-- The analysis page shows the risk on the scale of the engine. -/
def ShownOnScale (result : DocumentProcessingResult) : Prop :=
  ∃ score percent width stats risk, result.riskScore = some score ∧
    riskScoreCard result.riskScore = .gauge percent width (engineBand score) ∧
    (0 ≤ percent ∧ percent ≤ 100) ∧ (0 ≤ width ∧ width ≤ 100) ∧
    analysisOverview (some result) = some stats ∧ stats.risk = some risk ∧ 0 ≤ risk ∧ risk ≤ 100

theorem le_mathRound {x : ℚ} {n : ℤ} (h : n ≤ x) : n ≤ mathRound x := by
  refine Int.le_floor.mpr ?_
  linarith only [h]

/-- A score of the engine shows as a high risk of more than 2000 percent. -/
theorem riskScoreCard_of_le {score : ℚ} (h : 256 / 10 ≤ score) :
    ∃ percent width, riskScoreCard (some score) = .gauge percent width .high ∧
      2560 ≤ percent ∧ 2560 ≤ width := by
  have hlow : ¬ score < 34 / 100 := not_lt.mpr (by linarith only [h])
  have hmedium : ¬ score < 67 / 100 := not_lt.mpr (by linarith only [h])
  have hpos : ¬ score * 100 < 0 := not_lt.mpr (by linarith only [h])
  have hround : 2560 ≤ mathRound (score * 100) := le_mathRound (by push_cast; linarith only [h])
  refine ⟨mathRound (score * 100), mathRound (score * 100), ?_, hround, hround⟩
  simp only [riskScoreCard, riskBand, toFixedZero, hlow, hmedium, hpos, if_false]

theorem not_shownOnScale {result : DocumentProcessingResult}
    (h : ∃ score, result.riskScore = some score ∧ 256 / 10 ≤ score) : ¬ ShownOnScale result := by
  rintro ⟨score, percent, width, -, -, hscore, hcard, ⟨-, hpercent⟩, -⟩
  obtain ⟨score', hscore', hle⟩ := h
  obtain ⟨percent', width', hcard', hpercent', -⟩ := riskScoreCard_of_le hle
  rw [hscore', hcard'] at hcard
  obtain ⟨rfl, -, -⟩ := RiskCard.gauge.inj hcard
  omega

section Runs

variable {P : Platform} {record : DocumentRecord} {extractText : String → String → List Char}
  {rawText : Option (List Char)} {inp : Inputs} {actor traceId purpose : String}
  {w v : World} {result : DocumentProcessingResult}

theorem le_score_of_run
    (h : (IngestionPipeline.run P record extractText rawText inp actor traceId purpose).run w =
      .ok result v) : ∃ score, result.riskScore = some score ∧ 256 / 10 ≤ score := by
  obtain ⟨review, hreview, hscore, -⟩ := result_of_run rfl h
  obtain ⟨caseId, citations, hrisk⟩ := riskScore_of_compliance hreview
  have hleast : round2 (min 100 (scoreOfCount 0)) = 256 / 10 := by decide +kernel
  refine ⟨review.riskScore, hscore, ?_⟩
  rw [hrisk, riskScore_eq, ← hleast]
  exact round2_mono (min_le_min_left 100 (scoreOfCount_mono (Nat.zero_le _)))

/-- No result of the pipeline is shown on the scale it is computed on. -/
theorem risk_shown_off_scale
    (h : (IngestionPipeline.run P record extractText rawText inp actor traceId purpose).run w =
      .ok result v) : ¬ ShownOnScale result :=
  not_shownOnScale (le_score_of_run h)

end Runs

theorem risk_shown_off_scale_discharge : ∃ result v,
    (IngestionPipeline.run examplePlatform (exampleProject "industrial_discharge") nullOcrEngine
      none (exampleInputs 1) "clerk" "t" "case-review").run World.empty = .ok result v ∧
    ¬ ShownOnScale result := by
  obtain ⟨result, v, hrun⟩ : ∃ result v, (IngestionPipeline.run examplePlatform
    (exampleProject "industrial_discharge") nullOcrEngine none (exampleInputs 1) "clerk" "t"
      "case-review").run World.empty = .ok result v := ⟨_, _, rfl⟩
  exact ⟨result, v, hrun, risk_shown_off_scale hrun⟩

/-- A water taking without documents, at 61.8, is shown as a high risk, of 6180 percent. -/
theorem risk_shown_wrong : ∃ result v,
    (IngestionPipeline.run examplePlatform (exampleProject "water_taking") nullOcrEngine
      none (exampleInputs 1) "clerk" "t" "case-review").run World.empty = .ok result v ∧
    ¬ ShownOnScale result ∧ riskScoreCard (some (618 / 10)) = .gauge 6180 6180 .high ∧
    engineBand (618 / 10) = .medium := by
  obtain ⟨result, v, hrun⟩ : ∃ result v, (IngestionPipeline.run examplePlatform
    (exampleProject "water_taking") nullOcrEngine none (exampleInputs 1) "clerk" "t"
      "case-review").run World.empty = .ok result v := ⟨_, _, rfl⟩
  exact ⟨result, v, hrun, not_shownOnScale (le_score_of_run hrun), by decide +kernel,
    by decide +kernel⟩

end GoAnalyze
