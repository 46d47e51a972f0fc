import GoAnalyze.Spec.Models

/-! The risk of a document as the analysis page shows it: `riskBand` of `lib/utils.ts` and
the panels of `AnalysisPanels.tsx`. -/

namespace GoAnalyze

inductive RiskBand where
  | low | medium | high | unknown
deriving DecidableEq

/-- `riskBand`; no score stands for `null` and `undefined`. -/
def riskBand : Option ℚ → RiskBand
  | none => .unknown
  | some score => if score < 34 / 100 then .low else if score < 67 / 100 then .medium else .high

/-- `Math.round`: ties go up. -/
def mathRound (x : ℚ) : ℤ := ⌊x + 1 / 2⌋

/-- The number that `toFixed(0)` prints: ties go away from zero. -/
def toFixedZero (x : ℚ) : ℤ := if x < 0 then -mathRound (-x) else mathRound x

/-- The card of `RiskScore`: the percentage, the width of the bar in percent, and the band
that is its color and its text. -/
inductive RiskCard where
  | empty (title description : String)
  | gauge (percent width : ℤ) (band : RiskBand)
deriving DecidableEq

def riskScoreCard (score : Option ℚ) : RiskCard :=
  let band := riskBand score
  match score with
  | none =>
    .empty "Not scored yet" "Run processing on this document to compute a risk score."
  | some score => .gauge (toFixedZero (score * 100)) (mathRound (score * 100)) band

/-- The statistics of `AnalysisOverview`; the risk is a percentage, or a dash. -/
structure OverviewStats where
  status : String
  stagesRun : ℕ
  entitiesFound : ℕ
  risk : Option ℤ
deriving DecidableEq

/-- `AnalysisOverview`; without a result it shows an empty block. -/
def analysisOverview (result : Option DocumentProcessingResult) : Option OverviewStats :=
  result.map fun result =>
    { status := if result.completed then "Completed" else "In progress"
      stagesRun := result.stages.length
      entitiesFound := result.extractedEntities.length
      risk := result.riskScore.map fun score => toFixedZero (score * 100) }

end GoAnalyze
