import GoAnalyze.Proofs.ColumnBounds

/-! What `rag_answer` checks of the citations it is given, against the policy that
`evaluate_abac` states for reading a document, and against the stored evidence. -/

namespace GoAnalyze

open JsonText Sql Frames AuditRepository

def approvedPurposes : List String := ["case-review", "audit", "operations", "legal-review"]

section Citations

variable (P : Platform) (inp : Inputs) (headers : Headers) (context : TenantContext)
  (question : String) (citations : List EvidenceCitation) (w : World)

/-! ## The policy for cited documents -/

/-- The cited document exists, and the policy lets the caller read it. -/
def PolicyAllows (citation : EvidenceCitation) : Prop :=
  ∃ record, DocumentRepository.find w citation.documentId = some record ∧
    (evaluateAbac context "document:read" record.tenantId record.classification
      headers.purpose).allowed

theorem policyAllows_iff {citation : EvidenceCitation} :
    PolicyAllows headers context w citation ↔
      CitationAllowed context w citation ∧ headers.purpose ∈ approvedPurposes := by
  have hread : ¬ "admin:".toList <+: "document:read".toList := by decide +kernel
  unfold PolicyAllows CitationAllowed
  rw [← exists_and_right]
  refine exists_congr fun record => ?_
  rw [and_assoc]
  refine and_congr_right fun _ => ?_
  unfold evaluateAbac
  split_ifs with htenant haction hclass hpurpose
  · exact iff_of_false (by simp) fun h => h.1.1 ⟨htenant.1.symm, htenant.2⟩
  · exact absurd haction.1 hread
  · exact iff_of_false (by simp) fun h => h.1.2 hclass
  · exact iff_of_true rfl ⟨⟨fun h => htenant ⟨h.1.symm, h.2⟩, hclass⟩, hpurpose⟩
  · exact iff_of_false (by simp) fun h => hpurpose h.2

/-! ## Reaching the answer -/

/-- What `rag_answer` does before it calls `rag_service.answer`. -/
def citationChecks : App Unit := do
  let documents ← DocumentRepository.getMany (citations.map (·.documentId))
  citations.forM (checkCitation context documents)

/-- What it does from there on. -/
def answerCited : App Json := do
  let finding := GroundedRagService.answer question citations
  let _ ← AuditLog.append P (answeredEvent inp headers context question citations)
  return finding.modelDump

theorem ragAnswer_eq : ragAnswer P inp headers context question citations =
    (do citationChecks context citations
        answerCited P inp headers context question citations) := by
  rw [citationChecks, bind_assoc]
  rfl

/-- The answer is computed. -/
def ReachesAnswer : Prop := ∃ v, (citationChecks context citations).run w = .ok () v

theorem reachesAnswer_iff : ReachesAnswer context citations w ↔
    ∀ citation ∈ citations, CitationAllowed context w citation := by
  obtain ⟨hall, hsome⟩ := run_checkCitations context w
    (DocumentRepository.findMany w (citations.map (·.documentId))) citations
    fun _ => findMany_cited w
  have hrun : (citationChecks context citations).run w = (citations.forM (checkCitation context
      (DocumentRepository.findMany w (citations.map (·.documentId))))).run w := rfl
  unfold ReachesAnswer
  rw [hrun]
  by_cases hallowed : ∀ citation ∈ citations, CitationAllowed context w citation
  · exact iff_of_true ⟨w, hall hallowed⟩ hallowed
  · obtain ⟨e, he⟩ := hsome hallowed
    refine iff_of_false ?_ hallowed
    rintro ⟨v, hv⟩
    rw [he] at hv
    cases hv

/-- The request adds this row to the audit log, for an answer. -/
def RecordsAnswer (orm : AuditEventORM) : Prop :=
  (final ((ragAnswer P inp headers context question citations).run w)).audit.events.rows =
      w.audit.events.rows ++ [orm] ∧
    orm.action = "rag.answer_generated"

theorem recordsAnswer_iff {orm : AuditEventORM} :
    RecordsAnswer P inp headers context question citations w orm ↔
      (∀ citation ∈ citations, CitationAllowed context w citation) ∧
        Insertable P w (answeredEvent inp headers context question citations) ∧
        orm = toOrm P.dialect
          (w.chained P (answeredEvent inp headers context question citations)) := by
  unfold RecordsAnswer
  obtain ⟨hall, hsome⟩ := run_ragAnswer P inp headers context w question citations
  by_cases hallowed : ∀ citation ∈ citations, CitationAllowed context w citation
  · rw [hall hallowed, final_bind_pure, (adds_append P w _).events, List.append_cancel_left_eq,
      eventRows]
    split_ifs with hinsertable
    · constructor
      · rintro ⟨hrow, -⟩
        exact ⟨hallowed, hinsertable, (List.singleton_inj.mp hrow).symm⟩
      · rintro ⟨-, -, rfl⟩
        exact ⟨rfl, rfl⟩
    · exact iff_of_false (fun h => absurd h.1 (by simp)) fun h => hinsertable h.2.1
  · obtain ⟨e, he⟩ := hsome hallowed
    rw [he]
    refine iff_of_false (fun h => ?_) fun h => hallowed h.1
    exact List.cons_ne_nil orm [] (List.self_eq_append_right.mp h.1)

/-- The request reaches the answer, and records it where the database takes the event,
exactly where the policy allows every citation; and what it records while it cites a
document has an approved purpose. -/
structure FollowsPolicy : Prop where
  reaches : ReachesAnswer context citations w ↔
    ∀ citation ∈ citations, PolicyAllows headers context w citation
  records : Insertable P w (answeredEvent inp headers context question citations) →
    ((∃ orm, RecordsAnswer P inp headers context question citations w orm) ↔
      ∀ citation ∈ citations, PolicyAllows headers context w citation)
  purposes : ∀ orm, RecordsAnswer P inp headers context question citations w orm →
    citations ≠ [] → orm.purpose ∈ approvedPurposes

/-- The handler follows the policy exactly where it cites nothing, has an approved
purpose, or is refused for one of its citations. -/
theorem rag_answer_follows_policy_iff :
    FollowsPolicy P inp headers context question citations w ↔
      citations = [] ∨ headers.purpose ∈ approvedPurposes ∨
        ∃ citation ∈ citations, ¬ CitationAllowed context w citation := by
  have hpolicy : (∀ citation ∈ citations, PolicyAllows headers context w citation) ↔
      (∀ citation ∈ citations, CitationAllowed context w citation) ∧
        (citations = [] ∨ headers.purpose ∈ approvedPurposes) := by
    simp only [policyAllows_iff]
    constructor
    · intro h
      refine ⟨fun citation hc => (h citation hc).1, ?_⟩
      rcases citations with - | ⟨citation, rest⟩
      · exact Or.inl rfl
      · exact Or.inr (h citation List.mem_cons_self).2
    · rintro ⟨h, rfl | hpurpose⟩ citation hc
      · cases hc
      · exact ⟨h citation hc, hpurpose⟩
  constructor
  · intro h
    by_cases hallowed : ∀ citation ∈ citations, CitationAllowed context w citation
    · have := (hpolicy.mp (h.reaches.mp ((reachesAnswer_iff ..).mpr hallowed))).2
      tauto
    · simp only [not_forall, exists_prop] at hallowed
      exact Or.inr (Or.inr hallowed)
  · intro h
    have hagree : (∀ citation ∈ citations, CitationAllowed context w citation) ↔
        ∀ citation ∈ citations, PolicyAllows headers context w citation := by
      rw [hpolicy, iff_self_and]
      intro hallowed
      rcases h with hnone | hpurpose | ⟨citation, hc, hdenied⟩
      · exact Or.inl hnone
      · exact Or.inr hpurpose
      · exact absurd (hallowed citation hc) hdenied
    refine ⟨(reachesAnswer_iff ..).trans hagree, fun hinsertable => ?_, fun orm horm hne => ?_⟩
    · rw [← hagree]
      simp only [recordsAnswer_iff, hinsertable, true_and, exists_and_left, exists_eq, and_true]
    · obtain ⟨hallowed, -, rfl⟩ := (recordsAnswer_iff ..).mp horm
      exact (hpolicy.mp (hagree.mp hallowed)).2.resolve_left hne

/-! ## Stored evidence -/

/-- The citation is of a stored document, with the hash and the version stored for it. -/
def Genuine (citation : EvidenceCitation) : Prop :=
  ∃ record, DocumentRepository.find w citation.documentId = some record ∧
    citation.sha256 = record.sha256 ∧ citation.version = record.version

theorem ragAnswer_eq_ok_iff {body : Json} {v : World} :
    (ragAnswer P inp headers context question citations).run w = .ok body v ↔
      (∀ citation ∈ citations, CitationAllowed context w citation) ∧
        body = (GroundedRagService.answer question citations).modelDump ∧
        ∃ event, (AuditLog.append P (answeredEvent inp headers context question citations)).run w =
          .ok event v := by
  obtain ⟨hall, hsome⟩ := run_ragAnswer P inp headers context w question citations
  by_cases hallowed : ∀ citation ∈ citations, CitationAllowed context w citation
  · rw [hall hallowed, run_map_eq_ok]
    constructor
    · rintro ⟨event, hrun, rfl⟩
      exact ⟨hallowed, rfl, event, hrun⟩
    · rintro ⟨-, rfl, event, hrun⟩
      exact ⟨event, hrun, rfl⟩
  · obtain ⟨e, he⟩ := hsome hallowed
    rw [he]
    exact iff_of_false (fun h => nomatch h) fun h => hallowed h.1

@[simp] theorem citations_answer :
    (GroundedRagService.answer question citations).citations = citations.take 5 := by
  cases citations <;> rfl

/-- Every accepted request that cites documents is answered with stored evidence, and
has cited no other. -/
def CitesEvidence : Prop :=
  citations ≠ [] → ∀ body v,
    (ragAnswer P inp headers context question citations).run w = .ok body v →
    (∃ finding : AIFinding, body = finding.modelDump ∧
      finding = GroundedRagService.answer question citations ∧
      ∀ citation ∈ finding.citations, Genuine w citation) ∧
    ∀ citation ∈ citations, Genuine w citation

/-- No hash and no version is compared: the answer rests on stored evidence exactly
where the client sent nothing else, or the request is refused for another reason. -/
theorem answers_cite_evidence_iff :
    CitesEvidence P inp headers context question citations w ↔
      (∀ citation ∈ citations, Genuine w citation) ∨
        (∃ citation ∈ citations, ¬ CitationAllowed context w citation) ∨
        ¬ Insertable P w (answeredEvent inp headers context question citations) := by
  constructor
  · intro h
    by_cases hallowed : ∀ citation ∈ citations, CitationAllowed context w citation
    · by_cases hinsertable : Insertable P w (answeredEvent inp headers context question citations)
      · left
        intro citation hc
        obtain ⟨event, v, happend⟩ := run_append_ok_iff.mpr hinsertable
        have hrun := (ragAnswer_eq_ok_iff P inp headers context question citations w).mpr
          ⟨hallowed, rfl, event, happend⟩
        exact (h (List.ne_nil_of_mem hc) _ v hrun).2 citation hc
      · exact Or.inr (Or.inr hinsertable)
    · simp only [not_forall, exists_prop] at hallowed
      exact Or.inr (Or.inl hallowed)
  · rintro h - body v hrun
    obtain ⟨hallowed, rfl, event, happend⟩ := (ragAnswer_eq_ok_iff ..).mp hrun
    have hgenuine : ∀ citation ∈ citations, Genuine w citation := by
      rcases h with hgenuine | ⟨citation, hc, hdenied⟩ | hrefused
      · exact hgenuine
      · exact absurd (hallowed citation hc) hdenied
      · exact absurd (run_append_ok_iff.mp ⟨event, v, happend⟩) hrefused
    refine ⟨⟨_, rfl, rfl, fun citation hc => hgenuine citation ?_⟩, hgenuine⟩
    rw [citations_answer] at hc
    exact List.mem_of_mem_take hc

end Citations

/-! ## Two requests -/

/-- A citation of document 7, with a hash and a version. -/
def exampleCitation (sha256 : String) (version : ℤ) : EvidenceCitation :=
  ⟨7, version, "0", none, none, none, sha256, "plan.pdf"⟩

def citedWorld : World := World.ofRows [exampleRow 7 examplePayload] (List.nodup_singleton _)

theorem exampleCitation_allowed (sha256 : String) (version : ℤ) :
    ∀ citation ∈ [exampleCitation sha256 version],
      CitationAllowed exampleContext citedWorld citation := by
  intro citation hc
  rw [List.mem_singleton.mp hc]
  exact ⟨DocumentRepository.toDomain (exampleRow 7 examplePayload), rfl, fun hne => hne.1 rfl,
    fun hclass => nomatch hclass.1⟩

/-- No policy approves of marketing, and the answer is recorded for it. -/
theorem answer_for_marketing :
    ¬ FollowsPolicy examplePlatform (exampleInputs 1) ⟨some "marketing", none⟩ exampleContext
      "Which limits apply?" [exampleCitation exampleSha256 1] citedWorld := by
  intro h
  have hrecorded := (recordsAnswer_iff examplePlatform (exampleInputs 1) ⟨some "marketing", none⟩
    exampleContext "Which limits apply?" [exampleCitation exampleSha256 1] citedWorld).mpr
      ⟨exampleCitation_allowed _ _, ⟨rfl, List.not_mem_nil⟩, rfl⟩
  exact absurd (h.purposes _ hrecorded (List.cons_ne_nil _ _)) (by decide +kernel)

/-- The cited hash and version are not those of the document, and the answer cites them. -/
theorem forged_citation_answered :
    ¬ CitesEvidence examplePlatform (exampleInputs 1) exampleHeaders exampleContext
      "Which limits apply?" [exampleCitation "0" 9] citedWorld := by
  intro h
  have hinsertable : Insertable examplePlatform citedWorld (answeredEvent (exampleInputs 1)
      exampleHeaders exampleContext "Which limits apply?" [exampleCitation "0" 9]) :=
    ⟨rfl, List.not_mem_nil⟩
  obtain ⟨event, v, happend⟩ := run_append_ok_iff.mpr hinsertable
  have hrun := (ragAnswer_eq_ok_iff examplePlatform (exampleInputs 1) exampleHeaders
    exampleContext "Which limits apply?" [exampleCitation "0" 9] citedWorld).mpr
      ⟨exampleCitation_allowed _ _, rfl, event, happend⟩
  obtain ⟨record, hfind, -, hversion⟩ :=
    (h (List.cons_ne_nil _ _) _ v hrun).2 _ (List.mem_singleton_self _)
  cases hfind
  exact absurd hversion (by decide)

end GoAnalyze
