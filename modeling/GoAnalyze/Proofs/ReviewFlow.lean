import GoAnalyze.Proofs.TenantIsolation

/-! What flows from the documents table into an environmental review. The records
of the listed ids are read whatever their tenant, so that the answer is free of
another tenant's data exactly when the tenant's own documents decide it. -/

namespace GoAnalyze

open JsonText Sql AuditRepository EnvironmentalAuthorizationEngine

/-! ## Prefixes of a filtered list -/

section FilterMap

variable {α β : Type*} {f : α → Option β}

theorem take_filterMap {l : List α} {n : ℕ} (h : ∀ a ∈ l.take n, (f a).isSome) :
    (l.filterMap f).take n = (l.take n).filterMap f := by
  induction l generalizing n with
  | nil => simp
  | cons a l ih =>
    cases n with
    | zero => simp
    | succ n =>
      obtain ⟨b, hb⟩ := Option.isSome_iff_exists.mp (h a (by simp))
      simp only [List.take_succ_cons, List.filterMap_cons_some hb]
      rw [ih fun a' ha' => h a' (by simp [ha'])]

theorem mem_take_filterMap {l : List α} {n : ℕ} {a : α} {b : β} (ha : a ∈ l.take n)
    (hb : f a = some b) : b ∈ (l.filterMap f).take n := by
  induction l generalizing n with
  | nil => simp at ha
  | cons a' l ih =>
    cases n with
    | zero => simp at ha
    | succ n =>
      rw [List.take_succ_cons, List.mem_cons] at ha
      rcases ha with rfl | ha
      · simp [List.filterMap_cons_some hb]
      · cases hf : f a' with
        | none =>
          rw [List.filterMap_cons_none hf]
          exact List.take_subset_take_left _ (Nat.le_succ n) (ih ha)
        | some b' =>
          rw [List.filterMap_cons_some hf, List.take_succ_cons]
          exact List.mem_cons_of_mem _ (ih ha)

end FilterMap

/-! ## What a review says of its input -/

theorem EvidenceCitation.modelDump_injective : Function.Injective EvidenceCitation.modelDump := by
  have hopt : ∀ {a b : Option ℤ}, optInt a = optInt b → a = b := by
    intro a b h
    cases a <;> cases b <;> simp_all [optInt, intJson]
  intro c c' h
  simp only [EvidenceCitation.modelDump, intJson, Json.obj.injEq, List.cons.injEq, Prod.mk.injEq,
    Json.str.injEq, Json.num.injEq, Number.int.injEq, true_and, and_true] at h
  obtain ⟨hid, hversion, hchunk, hpage, hstart, hend, hsha, hexcerpt⟩ := h
  cases c
  cases c'
  simp only [EvidenceCitation.mk.injEq]
  exact ⟨strUuid_injective hid, hversion, hchunk, hopt hpage, hopt hstart, hopt hend, hsha,
    hexcerpt⟩

theorem mem_missing {projectType name : String} {types : List String} :
    name ∈ missing projectType types ↔ name ∈ required projectType ∧ name ∉ types := by
  simp [missing, sortStrings]

theorem missing_eq_nil_iff {projectType : String} {types : List String} :
    missing projectType types = [] ↔ required projectType ⊆ types := by
  rw [List.eq_nil_iff_forall_not_mem]
  simp only [mem_missing, not_and, not_not]
  rfl

theorem ne_empty_of_required {projectType name : String} (h : name ∈ required projectType) :
    name ≠ "" := by
  have htable : ∀ entry ∈ requiredDocumentsByProject, ∀ name ∈ entry.2, name ≠ "" := by decide
  unfold required at h
  cases hlookup : requiredDocumentsByProject.lookup projectType with
  | none =>
    rw [hlookup] at h
    rw [List.mem_singleton.mp h]
    decide
  | some names =>
    rw [hlookup] at h
    obtain ⟨before, after, heq, -⟩ := List.lookup_eq_some_iff.mp hlookup
    exact htable (projectType, names) (by simp [heq]) name h

section Review

variable (P : Platform) (payload : EnvironmentalReviewRequest)

/-- The review of a request, from the records that a lookup finds. -/
def reviewOf (documents : UUID → Option DocumentRecord) : EnvironmentalReviewResult :=
  review payload (availableTypes P documents payload.documents)
    (citationsOf payload.projectType documents payload.documents)

variable {P payload} {documents documents' : UUID → Option DocumentRecord}

theorem reviewOf_congr (h : ∀ d ∈ payload.documents, documents d = documents' d) :
    reviewOf P payload documents = reviewOf P payload documents' := by
  unfold reviewOf availableTypes citationsOf
  congr 1 <;> exact List.filterMap_congr fun d hd => by rw [h d hd]

theorem missing_of_modelDump_eq
    (h : (reviewOf P payload documents).modelDump = (reviewOf P payload documents').modelDump) :
    missing payload.projectType (availableTypes P documents payload.documents) =
      missing payload.projectType (availableTypes P documents' payload.documents) := by
  have hmissing := (List.cons.inj (List.cons.inj (List.cons.inj h).2).2).1
  simp only [Prod.mk.injEq, Json.arr.injEq, true_and] at hmissing
  exact List.map_injective_iff.mpr (fun _ _ => Json.str.inj) hmissing

/-- Where nothing is missing, the review names the first three citations. -/
theorem citations_of_modelDump_eq
    (h : (reviewOf P payload documents).modelDump = (reviewOf P payload documents').modelDump)
    (hnone : missing payload.projectType (availableTypes P documents payload.documents) = []) :
    (citationsOf payload.projectType documents payload.documents).take 3 =
      (citationsOf payload.projectType documents' payload.documents).take 3 := by
  have hnone' := missing_of_modelDump_eq h ▸ hnone
  have hfindings := (List.cons.inj (List.cons.inj (List.cons.inj (List.cons.inj
    (List.cons.inj h).2).2).2).2).1
  simp only [Prod.mk.injEq, Json.arr.injEq, true_and, reviewOf, review, hnone, hnone',
    complianceFindings, List.isEmpty_nil, if_true, List.map_cons, List.map_nil,
    AIFinding.modelDump, List.cons.injEq, and_true, Json.obj.injEq] at hfindings
  exact List.map_injective_iff.mpr EvidenceCitation.modelDump_injective hfindings.1

/-! ## Runs of the endpoint -/

variable {inp : Inputs} {headers : Headers} {context : TenantContext} {w : World}

/-- The endpoint answers the request: the caller may review for the tenant, and the columns
of `audit_events` take the event. -/
def MayReview (P : Platform) (headers : Headers) (context : TenantContext)
    (payload : EnvironmentalReviewRequest) : Prop :=
  (context.tenantId = payload.tenantId ∨ "platform-admin" ∈ context.roles) ∧
    Recordable P headers context payload.tenantId

theorem fits_reviewEvent {details : Dict} : (toOrm P.dialect (newAuditEvent inp headers context
    payload.tenantId "environmental_review.completed" "case" (strUuid payload.caseId)
    details)).fits P.dialect ↔ Recordable P headers context payload.tenantId :=
  fits_newAuditEvent rfl rfl (varchar_strUuid payload.caseId)

variable (inp) in
theorem run_environmentalReview (hmay : MayReview P headers context payload)
    (hfresh : Fresh inp w) :
    ∃ v, (environmentalReview P inp headers context payload).run w =
      .ok (reviewOf P payload (DocumentRepository.find w)).modelDump v := by
  have hpass : ¬ (context.tenantId ≠ payload.tenantId ∧ "platform-admin" ∉ context.roles) := by
    rintro ⟨hne, hadmin⟩
    exact hmay.1.elim hne hadmin
  have hlisted : reviewOf P payload (fun d => if d ∈ payload.documents then
      DocumentRepository.find w d else none) = reviewOf P payload (DocumentRepository.find w) :=
    reviewOf_congr fun d hd => if_pos hd
  simp only [environmentalReview, EStateM.run_bind, run_raiseIf, hpass, decide_false,
    run_getMany, Bool.false_eq_true, if_false]
  obtain ⟨events, -, hrun⟩ := run_append_fresh P hfresh
    (show (newAuditEvent inp headers context payload.tenantId "environmental_review.completed"
      "case" (strUuid payload.caseId)
      [("risk_score", scoreJson (reviewOf P payload (DocumentRepository.find w)).riskScore),
        ("recommendation", .str
          (reviewOf P payload (DocumentRepository.find w)).recommendation)]).id = inp.eventId from
      rfl) (fits_reviewEvent.mpr hmay.2)
  rw [← hlisted] at hrun ⊢
  simp only [reviewOf] at hrun ⊢
  rw [hrun]
  exact ⟨_, rfl⟩

theorem run_environmentalReview_refused (hmay : ¬ MayReview P headers context payload) :
    ∃ e, (environmentalReview P inp headers context payload).run w = .error e w := by
  rw [MayReview, not_and_or, not_or] at hmay
  by_cases hpass : context.tenantId ≠ payload.tenantId ∧ "platform-admin" ∉ context.roles
  · refine ⟨⟨403, "tenant_mismatch"⟩, ?_⟩
    simp only [environmentalReview, EStateM.run_bind, run_raiseIf, hpass, ne_eq, not_false_eq_true,
      and_self, decide_true, if_true]
  · have hrecord := hmay.resolve_left hpass
    simp only [environmentalReview, EStateM.run_bind, run_raiseIf, hpass, decide_false,
      run_getMany, Bool.false_eq_true, if_false]
    rw [run_append_refused P fun hfits => hrecord (fits_reviewEvent.mp hfits)]
    exact ⟨_, rfl⟩

end Review

/-! ## Tenant isolation -/

/-- The record of an id among the rows of tenant `t`. -/
def ownRecord (t : String) (w : World) (documentId : UUID) : Option DocumentRecord :=
  (DocumentRepository.find w documentId).filter fun record => record.tenantId = t

section Tenant

variable {t : String} {w : World}

/-- A state without the rows of other tenants. -/
def World.ownOnly (t : String) (w : World) : World :=
  { w with documents := w.documents.restrict fun orm => orm.tenantId = t }

theorem agreeRows_ownOnly : AgreeRows t w (w.ownOnly t) where
  documents := by simp [World.ownOnly, Table.restrict]
  events := .refl _
  chainState := rfl

theorem find_ownOnly (documentId : UUID) :
    DocumentRepository.find (w.ownOnly t) documentId = ownRecord t w documentId := by
  simp only [DocumentRepository.find, World.ownOnly, Table.get_restrict, ownRecord]
  cases w.documents.get documentId with
  | none => rfl
  | some orm =>
    by_cases ht : orm.tenantId = t <;> simp [Option.filter_some, ht, DocumentRepository.toDomain]

theorem exists_foreign {row : DocumentORM} (hforeign : row.tenantId ≠ t)
    (hnone : ownRecord t w row.id = none) :
    ∃ w', AgreeRows t w w' ∧ w'.audit = w.audit ∧ ∀ documentId,
      DocumentRepository.find w' documentId =
        if row.id = documentId then some (DocumentRepository.toDomain row)
        else ownRecord t w documentId := by
  have hfresh : row.id ∉ (w.ownOnly t).documents.rows.map DocumentORM.id := by
    intro hmem
    obtain ⟨orm, horm, hid⟩ := List.mem_map.mp hmem
    have hfind := find_ownOnly (t := t) (w := w) row.id
    rw [hnone, DocumentRepository.find, Table.get_eq_some_iff.mpr ⟨horm, hid⟩] at hfind
    exact absurd hfind (by simp)
  cases hins : (w.ownOnly t).documents.insert row with
  | none => exact absurd (Table.insert_eq_none_iff.mp hins) hfresh
  | some documents =>
    refine ⟨{ w with documents := documents }, ⟨?_, .refl _, rfl⟩, rfl, fun documentId => ?_⟩
    · rw [(Table.insert_eq_some_iff.mp hins).2]
      simp [World.ownOnly, Table.restrict, hforeign]
    · rw [← find_ownOnly]
      simp only [DocumentRepository.find, Table.get_insert hins]
      split_ifs <;> rfl

/-- What another tenant's row of an id looks like, with its document type. -/
def foreignRow (t : String) (documentId : UUID) (name : String) : DocumentORM :=
  exampleRow documentId (exampleIngest (t ++ "x") "plan.pdf" .internal
    [("document_type", .str name)])

/-- The records of `t`, and another tenant's under `d`. -/
def withForeign (t : String) (w : World) (d : UUID) (name : String) :
    UUID → Option DocumentRecord :=
  fun documentId => if d = documentId then
    some (DocumentRepository.toDomain (foreignRow t d name)) else ownRecord t w documentId

@[simp] theorem withForeign_self (d : UUID) (name : String) :
    withForeign t w d name d = some (DocumentRepository.toDomain (foreignRow t d name)) :=
  if_pos rfl

theorem foreignRow_tenantId (documentId : UUID) (name : String) :
    (foreignRow t documentId name).tenantId ≠ t := by
  intro h
  have hlen : (t ++ "x").length = t.length := congrArg String.length h
  rw [String.length_append] at hlen
  exact absurd hlen (by simp)

end Tenant

theorem documentType_of_metadata (P : Platform) {record : DocumentRecord} {name : String}
    (hname : name ≠ "") (h : record.metadata = [("document_type", .str name)]) :
    documentType P record = some name := by
  simp [documentType, h, lookup, isTruthy, hname, textOf]

section Isolation

variable (P : Platform) (inp : Inputs) (headers : Headers) (context : TenantContext)
  (payload : EnvironmentalReviewRequest) (w : World)

/-- The answer of the review endpoint depends on the rows of the caller's tenant alone. -/
def ReviewIsolated : Prop :=
  ∀ w', AgreeRows context.tenantId w w' → Fresh inp w' → ∀ body v,
    (environmentalReview P inp headers context payload).run w = .ok body v →
    ∃ v', (environmentalReview P inp headers context payload).run w' = .ok body v'

/-- The request is refused, or lists documents of the caller's tenant only, or the
tenant's own documents hold every required type and come first. -/
def ReviewOfOwn : Prop :=
  ¬ MayReview P headers context payload ∨
  (∀ d ∈ payload.documents, (ownRecord context.tenantId w d).isSome) ∨
  (required payload.projectType ⊆
      availableTypes P (ownRecord context.tenantId w) payload.documents ∧
    ∀ d ∈ payload.documents.take 3, (ownRecord context.tenantId w d).isSome)

end Isolation

section Isolation

variable {P : Platform} {inp : Inputs} {headers : Headers} {context : TenantContext}
  {payload : EnvironmentalReviewRequest} {w w' : World}

theorem find_of_ownRecord {t : String} (h : AgreeRows t w w') {documentId : UUID}
    (hown : (ownRecord t w documentId).isSome) :
    DocumentRepository.find w documentId = DocumentRepository.find w' documentId := by
  obtain ⟨record, hrecord⟩ := Option.isSome_iff_exists.mp hown
  obtain ⟨hfind, ht⟩ := Option.filter_eq_some_iff.mp hrecord
  rw [hfind, find_of_tenant h hfind (by simpa using ht)]

theorem availableTypes_mono {documents documents' : UUID → Option DocumentRecord}
    {docIds : List UUID} (h : ∀ d r, documents d = some r → documents' d = some r) :
    availableTypes P documents docIds ⊆ availableTypes P documents' docIds := by
  intro name hname
  obtain ⟨d, hd, hbind⟩ := List.mem_filterMap.mp hname
  obtain ⟨record, hrecord, htype⟩ := Option.bind_eq_some_iff.mp hbind
  exact List.mem_filterMap.mpr ⟨d, hd, by rw [h d record hrecord]; exact htype⟩

theorem ownRecord_le {t : String} {d : UUID} {record : DocumentRecord}
    (h : ownRecord t w d = some record) : DocumentRepository.find w d = some record :=
  (Option.filter_eq_some_iff.mp h).1

theorem reviewOf_agree (h : AgreeRows context.tenantId w w')
    (hown : ReviewOfOwn P headers context payload w)
    (hmay : MayReview P headers context payload) :
    reviewOf P payload (DocumentRepository.find w) =
      reviewOf P payload (DocumentRepository.find w') := by
  rcases hown with hrefused | hall | ⟨htypes, hfirst⟩
  · exact absurd hmay hrefused
  · exact reviewOf_congr fun d hd => find_of_ownRecord h (hall d hd)
  · have hle' : ∀ d r, ownRecord context.tenantId w d = some r →
        DocumentRepository.find w' d = some r := fun d r hr => by
      rw [← find_of_ownRecord h (by rw [hr]; rfl)]
      exact ownRecord_le hr
    apply review_congr
    · rw [missing_eq_nil_iff.mpr (List.Subset.trans htypes
          (availableTypes_mono fun d r => ownRecord_le)),
        missing_eq_nil_iff.mpr (List.Subset.trans htypes (availableTypes_mono hle'))]
    · have hsome : ∀ d ∈ payload.documents.take 3,
          (DocumentRepository.find w d).isSome := fun d hd => by
        obtain ⟨record, hrecord⟩ := Option.isSome_iff_exists.mp (hfirst d hd)
        rw [ownRecord_le hrecord]
        rfl
      simp only [citationsOf]
      rw [take_filterMap fun d hd => by simpa using hsome d hd, take_filterMap fun d hd => by
        rw [← find_of_ownRecord h (hfirst d hd)]; simpa using hsome d hd]
      exact List.filterMap_congr fun d hd => by rw [find_of_ownRecord h (hfirst d hd)]

/-- An isolated review is the same without the foreign rows, and where another
tenant owns one of the listed ids. -/
theorem modelDump_of_isolated (hfresh : Fresh inp w)
    (hisolated : ReviewIsolated P inp headers context payload w)
    (hmay : MayReview P headers context payload) {d : UUID}
    (hd : ownRecord context.tenantId w d = none) (name : String) :
    (reviewOf P payload (ownRecord context.tenantId w)).modelDump =
      (reviewOf P payload (withForeign context.tenantId w d name)).modelDump := by
  obtain ⟨v, hrun⟩ := run_environmentalReview inp hmay hfresh
  have hbody : ∀ w', AgreeRows context.tenantId w w' → Fresh inp w' →
      (reviewOf P payload (DocumentRepository.find w)).modelDump =
        (reviewOf P payload (DocumentRepository.find w')).modelDump := by
    intro w' hagree hfresh'
    obtain ⟨v', hv'⟩ := hisolated w' hagree hfresh' _ _ hrun
    obtain ⟨u, hu⟩ := run_environmentalReview inp hmay hfresh'
    rw [hv'] at hu
    exact (EStateM.Result.ok.inj hu).1
  obtain ⟨w', hagree, haudit, hfind⟩ := exists_foreign
    (foreignRow_tenantId (t := context.tenantId) d name) hd
  have hown := hbody _ agreeRows_ownOnly hfresh
  have hforeign := hbody w' hagree (by rwa [Fresh, haudit])
  rw [funext find_ownOnly] at hown
  rw [← hown, hforeign, funext hfind]
  rfl

/-- If the review does not change when another tenant comes to own a listed id, then
its type was not needed. -/
theorem required_subset_of_modelDump_eq {d : UUID} (hd : d ∈ payload.documents)
    (h : ∀ name, (reviewOf P payload (ownRecord context.tenantId w)).modelDump =
      (reviewOf P payload (withForeign context.tenantId w d name)).modelDump) :
    required payload.projectType ⊆
      availableTypes P (ownRecord context.tenantId w) payload.documents := by
  intro name hname
  by_contra hmissing
  have hmem := mem_missing.mpr ⟨hname, hmissing⟩
  rw [missing_of_modelDump_eq (h name), mem_missing] at hmem
  refine hmem.2 (List.mem_filterMap.mpr ⟨d, hd, ?_⟩)
  rw [withForeign_self, Option.bind_some]
  exact documentType_of_metadata P (ne_empty_of_required hname) (exampleRow_metadata _ _)

theorem modelDump_withForeign_ne {d : UUID} (hd : d ∈ payload.documents.take 3)
    (hnone : ownRecord context.tenantId w d = none)
    (htypes : required payload.projectType ⊆
      availableTypes P (ownRecord context.tenantId w) payload.documents) (name : String) :
    (reviewOf P payload (ownRecord context.tenantId w)).modelDump ≠
      (reviewOf P payload (withForeign context.tenantId w d name)).modelDump := by
  intro h
  have hcited : citeDocument payload.projectType d
      (DocumentRepository.toDomain (foreignRow context.tenantId d name)) ∈
        (citationsOf payload.projectType (withForeign context.tenantId w d name)
          payload.documents).take 3 :=
    mem_take_filterMap hd (by rw [withForeign_self]; rfl)
  rw [← citations_of_modelDump_eq h (missing_eq_nil_iff.mpr htypes)] at hcited
  obtain ⟨d', -, hcite⟩ := List.mem_filterMap.mp (List.mem_of_mem_take hcited)
  obtain ⟨record, hrecord, hid⟩ := Option.map_eq_some_iff.mp hcite
  obtain rfl : d' = d := congrArg EvidenceCitation.documentId hid
  rw [hnone] at hrecord
  cases hrecord

theorem reviewOfOwn_of_isolated (hfresh : Fresh inp w)
    (hmay : MayReview P headers context payload)
    (hisolated : ReviewIsolated P inp headers context payload w) :
    ReviewOfOwn P headers context payload w := by
  by_cases hall : ∀ d ∈ payload.documents, (ownRecord context.tenantId w d).isSome
  · exact Or.inr (Or.inl hall)
  · simp only [not_forall, Option.not_isSome_iff_eq_none] at hall
    obtain ⟨d, hd, hnone⟩ := hall
    have htypes := required_subset_of_modelDump_eq hd
      fun name => modelDump_of_isolated hfresh hisolated hmay hnone name
    refine Or.inr (Or.inr ⟨htypes, fun d' hd' => ?_⟩)
    by_contra hsome
    rw [Option.not_isSome_iff_eq_none] at hsome
    exact modelDump_withForeign_ne hd' hsome htypes "plan"
      (modelDump_of_isolated hfresh hisolated hmay hsome "plan")

/-- The review keeps the rows of other tenants from the caller exactly where it is refused
or the caller's own documents decide it. -/
theorem environmentalReview_isolated_iff (hfresh : Fresh inp w) :
    ReviewIsolated P inp headers context payload w ↔ ReviewOfOwn P headers context payload w := by
  by_cases hmay : MayReview P headers context payload
  · refine ⟨reviewOfOwn_of_isolated hfresh hmay, ?_⟩
    intro hown w' hagree hfresh' body v hrun
    obtain ⟨u, hu⟩ := run_environmentalReview inp hmay hfresh
    rw [hu] at hrun
    rw [← (EStateM.Result.ok.inj hrun).1, reviewOf_agree hagree hown hmay]
    exact run_environmentalReview inp hmay hfresh'
  · refine iff_of_true (fun w' _ _ body v hrun => ?_) (Or.inl hmay)
    obtain ⟨e, he⟩ : ∃ e, (environmentalReview P inp headers context payload).run w =
        .error e w := run_environmentalReview_refused hmay
    rw [he] at hrun
    cases hrun

end Isolation

def exampleReview (documents : List UUID) : EnvironmentalReviewRequest where
  tenantId := "env"
  caseId := 3
  projectType := "land_use"
  location := "north"
  applicant := "a"
  documents := documents

theorem environmentalReview_isolated_own :
    ReviewIsolated examplePlatform (exampleInputs 1) exampleHeaders exampleContext
      (exampleReview [7]) (World.ofRows exampleRows (by decide)) := by
  apply (environmentalReview_isolated_iff fresh_ofRows).mpr
  refine Or.inr (Or.inl fun d hd => ?_)
  rw [List.mem_singleton.mp hd]
  rfl

/-- The application form of another tenant. -/
def exampleForm : DocumentORM :=
  exampleRow 9 (exampleIngest "roads" "form.pdf" .internal
    [("document_type", .str "application_form")])

/-- A listed document of another tenant decides the answer. -/
theorem environmentalReview_leaks :
    AgreeRows exampleContext.tenantId (World.ofRows [] (by decide))
      (World.ofRows [exampleForm] (by decide)) ∧
    ∃ body v body' v',
      (environmentalReview examplePlatform (exampleInputs 1) exampleHeaders exampleContext
        (exampleReview [9])).run (World.ofRows [] (by decide)) = .ok body v ∧
      (environmentalReview examplePlatform (exampleInputs 1) exampleHeaders exampleContext
        (exampleReview [9])).run (World.ofRows [exampleForm] (by decide)) = .ok body' v' ∧
      body ≠ body' := by
  refine ⟨⟨.refl _, .refl _, rfl⟩, ?_⟩
  have hmay : MayReview examplePlatform exampleHeaders exampleContext (exampleReview [9]) :=
    ⟨Or.inl rfl, fun _ => by decide⟩
  have hrun := fun rows h => run_environmentalReview (exampleInputs 1) hmay
    (show Fresh (exampleInputs 1) (World.ofRows rows h) from fresh_ofRows)
  obtain ⟨v, hv⟩ := hrun [] (by decide)
  obtain ⟨v', hv'⟩ := hrun [exampleForm] (by decide)
  refine ⟨_, v, _, v', hv, hv', fun h => ?_⟩
  have htype : documentType examplePlatform (DocumentRepository.toDomain exampleForm) =
      some "application_form" :=
    documentType_of_metadata _ (by decide) (exampleRow_metadata _ _)
  have hmissing : missing "land_use" [] = missing "land_use" (availableTypes examplePlatform
      (DocumentRepository.find (World.ofRows [exampleForm] (by decide))) [9]) :=
    missing_of_modelDump_eq h
  have hmem : "application_form" ∈ missing "land_use" [] := mem_missing.mpr (by decide)
  rw [hmissing, mem_missing] at hmem
  exact hmem.2 (List.mem_filterMap.mpr ⟨9, List.mem_singleton.mpr rfl, htype⟩)

end GoAnalyze
