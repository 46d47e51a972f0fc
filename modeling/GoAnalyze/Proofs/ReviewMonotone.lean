import GoAnalyze.Proofs.PipelineRuns

/-! A larger set of supplied document types never makes a review worse. The score depends
on the number of missing documents alone, and no document missing is the least of its
values. -/

namespace GoAnalyze

theorem round2_mono {x y : ℚ} (h : x ≤ y) : round2 x ≤ round2 y := by
  have hfloor : ⌊x * 100⌋ ≤ ⌊y * 100⌋ := Int.floor_le_floor (by linarith only [h])
  unfold round2
  dsimp only
  refine div_le_div_of_nonneg_right ?_ (by norm_num)
  rcases hfloor.lt_or_eq with hlt | heq
  · have hcast : (⌊x * 100⌋ : ℚ) + 1 ≤ ⌊y * 100⌋ := by exact_mod_cast hlt
    split_ifs <;> push_cast <;> linarith only [hcast]
  · rw [heq]
    split_ifs with hx hy hy
    · exact le_rfl
    · -- a fractional part that is rounded up stays so when it grows
      refine absurd ?_ hy
      rcases hx with hx | ⟨hx, hodd⟩
      · exact Or.inl (by linarith only [h, hx])
      · rcases lt_or_eq_of_le (show (1 / 2 : ℚ) ≤ y * 100 - ⌊y * 100⌋ by linarith only [h, hx])
          with hgt | heq'
        · exact Or.inl hgt
        · exact Or.inr ⟨heq'.symm, hodd⟩
    · push_cast
      linarith only
    · exact le_rfl

namespace EnvironmentalAuthorizationEngine

/-! ## The score of a number of missing documents -/

def scoreOfCount (n : ℕ) : ℚ :=
  25 + min 45 ((n : ℚ) * 9) + (if n = 0 then 12 / 100 else (n : ℚ) * (4 / 100)) * 5

theorem riskScore_eq (caseId : UUID) (missing : List String) (citations : List EvidenceCitation) :
    riskScore missing (complianceFindings caseId missing citations) =
      round2 (min 100 (scoreOfCount missing.length)) := by
  have hpenalty : ((complianceFindings caseId missing citations).map
      fun finding => 1 - finding.confidence).sum =
        if missing.length = 0 then 12 / 100 else (missing.length : ℚ) * (4 / 100) := by
    cases missing with
    | nil =>
      change ([1 - 88 / 100] : List ℚ).sum = 12 / 100
      norm_num
    | cons name missing =>
      have hall : ∀ x ∈ (complianceFindings caseId (name :: missing) citations).map
          fun finding => 1 - finding.confidence, x = 4 / 100 := by
        intro x hx
        obtain ⟨finding, hfinding, rfl⟩ := List.mem_map.mp hx
        obtain ⟨name', -, rfl⟩ := List.mem_map.mp hfinding
        norm_num
      have hlength : (complianceFindings caseId (name :: missing) citations).length =
          (name :: missing).length := List.length_map _
      rw [List.sum_eq_card_nsmul _ _ hall, List.length_map, hlength, if_neg (by simp), nsmul_eq_mul]
  simp only [riskScore, hpenalty, scoreOfCount]

theorem scoreOfCount_mono {m n : ℕ} (h : m ≤ n) : scoreOfCount m ≤ scoreOfCount n := by
  have hcast : (m : ℚ) ≤ n := by exact_mod_cast h
  unfold scoreOfCount
  have hmin : min 45 ((m : ℚ) * 9) ≤ min 45 ((n : ℚ) * 9) :=
    min_le_min_left 45 (by linarith only [hcast])
  split_ifs with hm hn hn
  · linarith only [hmin]
  · -- the first missing document costs more than the finding it replaces
    have hone : (1 : ℚ) ≤ n := by exact_mod_cast Nat.one_le_iff_ne_zero.mpr hn
    have hnine : (9 : ℚ) ≤ min 45 ((n : ℚ) * 9) := le_min (by norm_num) (by linarith only [hone])
    have hzero : min 45 ((m : ℚ) * 9) = 0 := by simp [hm]
    linarith only [hone, hnine, hzero]
  · omega
  · linarith only [hmin, hcast]

/-! ## Reviews -/

section Review

variable {request : EnvironmentalReviewRequest} {types types' : List String}
  {citations citations' : List EvidenceCitation}

/-- What the models of a review allow. -/
structure ValidReview (result : EnvironmentalReviewResult) : Prop where
  riskScore : 0 ≤ result.riskScore ∧ result.riskScore ≤ 100
  regulationMappings : ∀ finding ∈ result.regulationMappings,
    0 ≤ finding.confidence ∧ finding.confidence ≤ 1
  complianceFindings : ∀ finding ∈ result.complianceFindings,
    0 ≤ finding.confidence ∧ finding.confidence ≤ 1

theorem validReview (request : EnvironmentalReviewRequest) (types : List String)
    (citations : List EvidenceCitation) : ValidReview (review request types citations) := by
  refine ⟨riskScore_review _ _ _, fun finding hfinding => ?_, fun finding hfinding => ?_⟩
  · obtain ⟨regulation, -, rfl⟩ := List.mem_map.mp hfinding
    dsimp only
    split_ifs <;> norm_num
  · refine ⟨?_, confidence_complianceFindings finding hfinding⟩
    change finding ∈ complianceFindings _ _ _ at hfinding
    unfold complianceFindings at hfinding
    split_ifs at hfinding
    · rw [List.mem_singleton.mp hfinding]
      norm_num
    · obtain ⟨name, -, rfl⟩ := List.mem_map.mp hfinding
      norm_num

theorem mem_missing {projectType name : String} : name ∈ missing projectType types ↔
    name ∈ required projectType ∧ name ∉ types := by
  simp [missing, sortStrings, List.mem_insertionSort]

theorem length_missing_le {projectType : String} (h : types ⊆ types') :
    (missing projectType types').length ≤ (missing projectType types).length := by
  simp only [missing, sortStrings, List.length_insertionSort]
  refine List.Sublist.length_le (List.monotone_filter_right _ fun name hname => ?_)
  simp only [decide_eq_true_eq] at hname ⊢
  exact fun hin => hname (h hin)

theorem recommendation_iff : (review request types citations).recommendation =
    "request_additional_information" ↔ ¬ (review request types citations).admissible := by
  simp only [review, recommendation]
  split_ifs <;> simp_all

/-- A review of more documents misses fewer, scores no higher, and stays admissible. -/
theorem review_monotone (h : types ⊆ types') :
    (∀ types citations, ValidReview (review request types citations)) ∧
    (review request types' citations').missingDocuments ⊆
      (review request types citations).missingDocuments ∧
    (review request types' citations').riskScore ≤ (review request types citations).riskScore ∧
    ((review request types citations).admissible → (review request types' citations').admissible) ∧
    (∀ types citations, (review request types citations).recommendation =
      "request_additional_information" ↔ ¬ (review request types citations).admissible) ∧
    ∀ caseId missing citations,
      0 ≤ riskScore missing (complianceFindings caseId missing citations) ∧
        riskScore missing (complianceFindings caseId missing citations) ≤ 100 := by
  have hsub : (review request types' citations').missingDocuments ⊆
      (review request types citations).missingDocuments := by
    intro name hname
    obtain ⟨hreq, hnot⟩ := mem_missing.mp hname
    exact mem_missing.mpr ⟨hreq, fun hin => hnot (h hin)⟩
  refine ⟨validReview request, hsub, ?_, fun hadm => ?_, fun _ _ => recommendation_iff,
    fun _ _ _ => riskScore_mem confidence_complianceFindings⟩
  · change riskScore _ (complianceFindings _ _ _) ≤ riskScore _ (complianceFindings _ _ _)
    rw [riskScore_eq, riskScore_eq]
    exact round2_mono (min_le_min_left 100 (scoreOfCount_mono (length_missing_le h)))
  · have hnil := List.isEmpty_iff.mp hadm
    exact List.isEmpty_iff.mpr (List.subset_nil.mp (hnil ▸ hsub))

end Review

def exampleWaterTaking : EnvironmentalReviewRequest where
  tenantId := "env"
  caseId := 5
  projectType := "water_taking"
  location := "Lake"
  applicant := "Mill"
  documents := []

theorem review_monotone_water :
    (review exampleWaterTaking ["application_form", "water_balance"] []).riskScore ≤
      (review exampleWaterTaking ["application_form"] []).riskScore :=
  (review_monotone (by simp)).2.2.1

end EnvironmentalAuthorizationEngine

end GoAnalyze
