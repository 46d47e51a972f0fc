import GoAnalyze.Proofs.IndexedSearch

/-! Searches, and the confidentiality of Protected B documents over all requests.
The search has no check of the role, and counts, orders and shows every row of the
caller's tenant. -/

namespace GoAnalyze

open JsonText Sql TwoRuns

/-! ## Searches -/

/-- A filter that is not given passes every value. -/
def passes (filter : Option String) (value : String) : Bool :=
  match DocumentRepository.given filter with
  | none => true
  | some c => value = c

theorem passes_iff {filter : Option String} {value : String} :
    passes filter value ↔ ∀ c, DocumentRepository.given filter = some c → value = c := by
  unfold passes
  cases DocumentRepository.given filter <;> simp

/-- The query of a search and a filename. -/
def nameMatches (P : Platform) (query filename : String) : Bool :=
  query.isEmpty || DocumentRepository.filenameMatches P query filename

theorem conditions_iff {P : Platform} {tenantId query : String}
    {classification contentType : Option String} {orm : DocumentORM} :
    DocumentRepository.conditions P tenantId query classification contentType orm ↔
      orm.tenantId = tenantId ∧ nameMatches P query orm.filename ∧
        passes classification orm.classification.value ∧ passes contentType orm.contentType := by
  have hunfold : DocumentRepository.conditions P tenantId query classification contentType orm =
      (decide (orm.tenantId = tenantId) && nameMatches P query orm.filename &&
        passes classification orm.classification.value && passes contentType orm.contentType) := rfl
  simp only [hunfold, Bool.and_eq_true, decide_eq_true_eq, and_assoc]

/-! ### Columns -/

theorem takes_filename {dialect : Dialect} {orm : DocumentORM} (h : orm.fits dialect) :
    dialect.takes 1024 orm.filename := by
  cases dialect with
  | sqlite => rfl
  | postgresql => exact (DocumentORM.fits_postgresql.mp h).2.1

theorem takes_contentType {dialect : Dialect} {orm : DocumentORM} (h : orm.fits dialect) :
    dialect.takes 255 orm.contentType := by
  cases dialect with
  | sqlite => rfl
  | postgresql => exact (DocumentORM.fits_postgresql.mp h).2.2.1

theorem fits_renamed {dialect : Dialect} {orm : DocumentORM} (h : orm.fits dialect)
    {filename contentType : String} (hname : dialect.takes 1024 filename)
    (htype : dialect.takes 255 contentType) (t : DateTime) :
    ({ orm with filename := filename, contentType := contentType, createdAt := t } :
      DocumentORM).fits dialect := by
  cases dialect with
  | sqlite => rfl
  | postgresql =>
    obtain ⟨htenant, -, -, hrest⟩ := DocumentORM.fits_postgresql.mp h
    exact DocumentORM.fits_postgresql.mpr ⟨htenant, hname, htype, hrest⟩

theorem filter_conditions_of_all {P : Platform} {tenantId query : String}
    {classification contentType : Option String} {rows : List DocumentORM}
    (hfits : ∀ orm ∈ rows, orm.fits P.dialect)
    (hname : ∀ filename, P.dialect.takes 1024 filename → nameMatches P query filename)
    (htype : DocumentRepository.given contentType = none) :
    rows.filter (DocumentRepository.conditions P tenantId query classification contentType) =
      rows.filter fun orm => orm.tenantId = tenantId ∧
        passes classification orm.classification.value := by
  refine List.filter_congr fun orm horm => ?_
  have hpass : passes contentType orm.contentType := by simp [passes, htype]
  rw [Bool.eq_iff_iff, conditions_iff, decide_eq_true_eq]
  simp only [hname _ (takes_filename (hfits orm horm)), hpass, true_and, and_true]

section Search

variable (P : Platform) (tenantId query : String) (page pageSize : ℤ)
  (classification contentType : Option String)

def ValidPage : Prop := 1 ≤ page ∧ 1 ≤ pageSize ∧ pageSize ≤ 100

/-- No Protected B row is of the tenant and passes the filter of classifications, or the
query or the filter matches nothing that its column takes, or the query matches all of
that, while content types are not asked for and the page starts after the last row. -/
def RowsOpen (rows : List DocumentORM) : Prop :=
  (∀ orm ∈ rows, orm.tenantId = tenantId → orm.classification = .protectedB →
    ¬ passes classification orm.classification.value) ∨
  (∀ filename, P.dialect.takes 1024 filename → ¬ nameMatches P query filename) ∨
  (∀ value, P.dialect.takes 255 value → ¬ passes contentType value) ∨
  ((∀ filename, P.dialect.takes 1024 filename → nameMatches P query filename) ∧
    DocumentRepository.given contentType = none ∧ (rows.filter fun orm => orm.tenantId = tenantId ∧
      passes classification orm.classification.value).length ≤ ((page - 1) * pageSize).toNat)

end Search

section Runs

variable {P : Platform} {inp : Inputs} {context : TenantContext} {query : String}
  {page pageSize : ℤ} {classification contentType : Option String} {w w' : World}

variable (P inp context query classification contentType w) in
theorem run_searchDocuments_invalid (hpage : ¬ ValidPage page pageSize) :
    ∃ e v, (searchDocuments P inp context query page pageSize classification contentType).run w =
      .error e v := by
  simp only [searchDocuments, checkPage, EStateM.run_bind, run_raiseIf]
  by_cases hlow : page < 1
  · simp only [hlow, decide_true, if_true]
    exact ⟨_, _, rfl⟩
  · have hsize : ¬ (1 ≤ pageSize ∧ pageSize ≤ 100) := fun h => hpage ⟨not_lt.mp hlow, h⟩
    simp only [hlow, hsize, decide_false, decide_true, not_false_eq_true, if_true]
    exact ⟨_, _, rfl⟩

theorem run_searchDocuments_eq_ok {response : SearchResponse} :
    (searchDocuments P inp context query page pageSize classification contentType).run w =
        .ok response w' ↔
      ValidPage page pageSize ∧ searchAnswer P context.tenantId query page pageSize classification
        contentType inp w = some response ∧ w = w' := by
  by_cases hpage : ValidPage page pageSize
  · have hrun := run_checkPage w hpage.1 hpage.2
    rw [searchDocuments, EStateM.run_bind, hrun]
    refine run_searchService_eq_ok.trans ?_
    rw [max_eq_left hpage.1, max_eq_left hpage.2.1, min_eq_left hpage.2.2]
    exact (and_iff_right hpage).symm
  · obtain ⟨e, v, hrun⟩ := run_searchDocuments_invalid P inp context query classification
      contentType w hpage
    simp [hrun, hpage]

end Runs

/-! ### The rows of the database -/

section Enough

variable {P : Platform} {tenantId query : String} {page pageSize : ℤ}
  {classification contentType : Option String} {w w' : World}

theorem searchRows_eq (h : AgreeOpen w w') (hfits : w.Fits P.dialect)
    (hfits' : w'.Fits P.dialect)
    (hopen : RowsOpen P tenantId query page pageSize classification contentType
      w.documents.rows) :
    DocumentRepository.searchRows P w.documents.rows tenantId query page pageSize classification
        contentType =
      DocumentRepository.searchRows P w'.documents.rows tenantId query page pageSize classification
        contentType := by
  have hsame : (∀ orm ∈ w.documents.rows, ∀ orm' ∈ w'.documents.rows, SameDocument orm orm' →
      orm = orm' ∨
        (DocumentRepository.conditions P tenantId query classification contentType orm = false ∧
          DocumentRepository.conditions P tenantId query classification contentType orm' = false)) →
      DocumentRepository.searchRows P w.documents.rows tenantId query page pageSize classification
        contentType = DocumentRepository.searchRows P w'.documents.rows tenantId query page pageSize
          classification contentType := by
    intro hrow
    simp only [DocumentRepository.searchRows, filter_eq_of_forall₂ h.documents hrow]
  rcases hopen with hclass | hname | htype | ⟨hname, htype, htotal⟩
  · refine hsame fun orm horm orm' _ hdoc => hdoc.imp_right ?_
    rintro ⟨-, ht, hpb, hpb'⟩
    simp only [Bool.eq_false_iff, ne_eq, conditions_iff]
    refine ⟨fun hcond => hclass orm horm hcond.1 hpb hcond.2.2.1, fun hcond => ?_⟩
    have hpass := hcond.2.2.1
    rw [hpb', ← hpb] at hpass
    exact hclass orm horm (ht.trans hcond.1) hpb hpass
  · refine hsame fun orm horm orm' horm' _ => Or.inr ?_
    simp only [Bool.eq_false_iff, ne_eq, conditions_iff]
    exact ⟨fun hcond => hname _ (takes_filename (hfits.documents orm horm)) hcond.2.1,
      fun hcond => hname _ (takes_filename (hfits'.documents orm' horm')) hcond.2.1⟩
  · refine hsame fun orm horm orm' horm' _ => Or.inr ?_
    simp only [Bool.eq_false_iff, ne_eq, conditions_iff]
    exact ⟨fun hcond => htype _ (takes_contentType (hfits.documents orm horm)) hcond.2.2.2,
      fun hcond => htype _ (takes_contentType (hfits'.documents orm' horm')) hcond.2.2.2⟩
  · -- all that is counted is the tenant and the classification, and the page is empty
    have hlength := length_filter_of_forall₂
      (p := fun orm => orm.tenantId = tenantId ∧ passes classification orm.classification.value)
      h.documents fun orm orm' hdoc => by
        rcases hdoc with rfl | ⟨-, ht, hpb, hpb'⟩
        · rfl
        · simp only [ht, hpb, hpb']
    rw [← filter_conditions_of_all hfits.documents hname htype,
      ← filter_conditions_of_all hfits'.documents hname htype] at hlength
    have hle : (w.documents.rows.filter (DocumentRepository.conditions P tenantId query
        classification contentType)).length ≤ ((page - 1) * pageSize).toNat := by
      rwa [filter_conditions_of_all hfits.documents hname htype]
    simp only [DocumentRepository.searchRows, slice]
    rw [List.drop_eq_nil_of_le (orderBy_perm.length_eq.trans_le hle),
      List.drop_eq_nil_of_le (orderBy_perm.length_eq.trans_le (hlength ▸ hle)), hlength]

end Enough

instance : Std.Total DocumentRepository.createdAtGe := ⟨fun _ _ => le_total _ _⟩

instance : IsTrans DocumentORM DocumentRepository.createdAtGe := ⟨fun _ _ _ h h' => h'.trans h⟩

/-- A row can be dated to stand at any place of an ordered list. -/
theorem exists_createdAt {rows : List DocumentORM}
    (h : rows.Pairwise DocumentRepository.createdAtGe) (n : ℕ) :
    ∃ t : DateTime, (∀ orm ∈ rows.take n, t.instant ≤ orm.createdAt.instant) ∧
      ∀ orm ∈ rows.drop n, orm.createdAt.instant ≤ t.instant := by
  rw [← List.take_append_drop n rows, List.pairwise_append] at h
  obtain ⟨hfirst, hrest, hcross⟩ := h
  cases hdrop : rows.drop n with
  | cons next rest =>
    rw [hdrop] at hrest hcross
    refine ⟨next.createdAt, fun orm horm => hcross orm horm next (List.mem_cons_self ..), ?_⟩
    intro orm horm
    rcases List.mem_cons.mp horm with rfl | horm
    · exact le_refl _
    · exact List.rel_of_pairwise_cons hrest horm
  | nil =>
    rcases List.eq_nil_or_concat (rows.take n) with hnil | ⟨init, last, hlast⟩
    · exact ⟨exampleTime, by simp [hnil], by simp⟩
    · rw [hlast, List.concat_eq_append, List.pairwise_append] at hfirst
      refine ⟨last.createdAt, fun orm horm => ?_, by simp⟩
      rw [hlast, List.concat_eq_append, List.mem_append, List.mem_singleton] at horm
      rcases horm with horm | rfl
      · exact hfirst.2.2 orm horm last (List.mem_singleton.mpr rfl)
      · exact le_refl _

theorem pairwise_insert {rows : List DocumentORM} {orm : DocumentORM} {n : ℕ}
    (h : rows.Pairwise DocumentRepository.createdAtGe)
    (hfirst : ∀ orm' ∈ rows.take n, orm.createdAt.instant ≤ orm'.createdAt.instant)
    (hrest : ∀ orm' ∈ rows.drop n, orm'.createdAt.instant ≤ orm.createdAt.instant) :
    (rows.take n ++ orm :: rows.drop n).Pairwise DocumentRepository.createdAtGe := by
  rw [← List.take_append_drop n rows, List.pairwise_append] at h
  refine List.pairwise_append.mpr ⟨h.1, List.pairwise_cons.mpr ⟨hrest, h.2.1⟩, ?_⟩
  intro a ha b hb
  rcases List.mem_cons.mp hb with rfl | hb
  · exact hfirst a ha
  · exact h.2.2 a ha b hb

theorem exists_setRow {dialect : Dialect} {w : World} {orm orm' : DocumentORM}
    {before after : List DocumentORM} (hrows : w.documents.rows = before ++ orm :: after)
    (hsame : SameDocument orm orm') (hfits : w.Fits dialect) (horm' : orm'.fits dialect) :
    ∃ w', AgreeOpen w w' ∧ w'.Fits dialect ∧ w'.documents.rows = before ++ orm' :: after := by
  have hrefl : ∀ rows : List DocumentORM, List.Forall₂ SameDocument rows rows := fun rows =>
    List.forall₂_same.mpr fun _ _ => Or.inl rfl
  have hdocs : List.Forall₂ SameDocument w.documents.rows (before ++ orm' :: after) := by
    rw [hrows]
    exact List.rel_append (hrefl before) (.cons hsame (hrefl after))
  refine ⟨{ w with documents := ⟨_, map_id_eq hdocs ▸ w.documents.nodup⟩ }, ?_, ?_, rfl⟩
  · exact ⟨hdocs, List.forall₂_same.mpr fun _ _ => Or.inl rfl, rfl, rfl,
      fun backend _ _ => by cases backend <;> rfl⟩
  · refine ⟨fun row hrow => ?_, hfits.searchIndex⟩
    have hrest := hfits.documents
    rw [hrows] at hrest
    rcases List.mem_append.mp hrow with hrow | hrow
    · exact hrest row (List.mem_append_left _ hrow)
    · rcases List.mem_cons.mp hrow with rfl | hrow
      · exact horm'
      · exact hrest row (List.mem_append_right _ (List.mem_cons_of_mem _ hrow))

section Needed

variable {P : Platform} {tenantId query : String} {page pageSize : ℤ}
  {classification contentType : Option String} {w : World}

/-- The answers from the database are the same in all states that agree with this one
but for Protected B documents, however it reads its rows. -/
def RowsAnswerAlike (P : Platform) (tenantId query : String) (page pageSize : ℤ)
    (classification contentType : Option String) (w : World) : Prop :=
  ∀ scan w' w'', AgreeOpen w w' → w'.Fits P.dialect → AgreeOpen w w'' → w''.Fits P.dialect →
    fallbackAnswer { P with scanDocuments := scan } tenantId query page pageSize classification
        contentType w' =
      fallbackAnswer { P with scanDocuments := scan } tenantId query page pageSize classification
        contentType w''

/-- What the total tells: whether a Protected B row meets the conditions. -/
theorem conditions_eq_of_total
    (h : RowsAnswerAlike P tenantId query page pageSize classification contentType w)
    (hfits : w.Fits P.dialect) {orm orm' orm'' : DocumentORM} (horm : orm ∈ w.documents.rows)
    (hsame : SameDocument orm orm') (horm' : orm'.fits P.dialect)
    (hsame' : SameDocument orm orm'') (horm'' : orm''.fits P.dialect) :
    DocumentRepository.conditions P tenantId query classification contentType orm' =
      DocumentRepository.conditions P tenantId query classification contentType orm'' := by
  obtain ⟨before, after, hrows⟩ := List.append_of_mem horm
  obtain ⟨w', hagree, hfits', hrows'⟩ := exists_setRow hrows hsame hfits horm'
  obtain ⟨w'', hagree', hfits'', hrows''⟩ := exists_setRow hrows hsame' hfits horm''
  have htotal := congrArg SearchResponse.total (h default w' w'' hagree hfits' hagree' hfits'')
  have hcount : ((before ++ orm' :: after).filter
        (DocumentRepository.conditions P tenantId query classification contentType)).length =
      ((before ++ orm'' :: after).filter
        (DocumentRepository.conditions P tenantId query classification contentType)).length := by
    rw [← hrows', ← hrows'']
    exact htotal
  simp only [List.filter_append, List.length_append, Nat.add_left_cancel_iff] at hcount
  rw [Bool.eq_iff_iff]
  constructor
  · intro hc
    by_contra hc'
    rw [List.filter_cons_of_pos hc, List.filter_cons_of_neg hc', List.length_cons] at hcount
    omega
  · intro hc
    by_contra hc'
    rw [List.filter_cons_of_neg hc', List.filter_cons_of_pos hc, List.length_cons] at hcount
    omega

theorem mem_results_fallback {scan : Scan DocumentORM} {hit : SearchHit} :
    hit ∈ (fallbackAnswer { P with scanDocuments := scan } tenantId query page pageSize
        classification contentType w).results ↔
      ∃ row ∈ slice ((page - 1) * pageSize).toNat pageSize.toNat
          (orderBy DocumentRepository.createdAtGe scan (w.documents.rows.filter
            (DocumentRepository.conditions P tenantId query classification contentType))),
        SearchService.hitOfRecord P query (DocumentRepository.toDomain row) = hit := by
  constructor
  · intro hhit
    obtain ⟨record, hrecord, hsame⟩ := List.mem_map.mp hhit
    obtain ⟨row, hrow, rfl⟩ := List.mem_map.mp hrecord
    exact ⟨row, hrow, hsame⟩
  · rintro ⟨row, hrow, rfl⟩
    exact List.mem_map_of_mem (List.mem_map_of_mem hrow)

/-- A row whose place is given by its timestamp can stand first on any page that is not
past the end. -/
theorem exists_shown_row (hfits : w.Fits P.dialect) {matching : DocumentORM → Bool}
    {orm : DocumentORM} {before after : List DocumentORM}
    (hrows : w.documents.rows = before ++ orm :: after)
    (hmatch : ∀ t, matching { orm with filename := "a", createdAt := t }) (hself : matching orm)
    (hpb : orm.classification = .protectedB) {offset size : ℕ} (hsize : 1 ≤ size)
    (hoffset : offset < (w.documents.rows.filter matching).length) :
    ∃ scan t w', AgreeOpen w w' ∧ w'.Fits P.dialect ∧
      ({ orm with filename := "a", createdAt := t } : DocumentORM) ∈ slice offset size
        (orderBy DocumentRepository.createdAtGe scan (w'.documents.rows.filter matching)) := by
  -- the other rows in order, and where the row has to stand among them
  set others := orderBy DocumentRepository.createdAtGe default
    (before.filter matching ++ after.filter matching) with hothers
  have hsorted : others.Pairwise DocumentRepository.createdAtGe := pairwise_orderBy
  have hlength : (w.documents.rows.filter matching).length = others.length + 1 := by
    rw [hrows, List.filter_append, List.filter_cons_of_pos hself, hothers,
      orderBy_perm.length_eq]
    simp only [List.length_append, List.length_cons]
    omega
  obtain ⟨t, hfirst, hrest⟩ := exists_createdAt hsorted offset
  set shown : DocumentORM := { orm with filename := "a", createdAt := t }
  set listed := others.take offset ++ shown :: others.drop offset with hlisted
  have horm : orm ∈ w.documents.rows := hrows ▸ List.mem_append_right _ List.mem_cons_self
  obtain ⟨w', hagree, hfits', hrows'⟩ := exists_setRow hrows
    (show SameDocument orm shown from Or.inr ⟨rfl, rfl, hpb, hpb⟩) hfits
    (fits_renamed (hfits.documents orm horm) takes_a.1
      (takes_contentType (hfits.documents orm horm)) t)
  have hread : orderBy DocumentRepository.createdAtGe (Scan.along listed)
      (w'.documents.rows.filter matching) = listed := by
    refine orderBy_along ?_ (pairwise_insert hsorted hfirst hrest)
    rw [hrows', List.filter_append, List.filter_cons_of_pos (hmatch t)]
    refine List.perm_middle.trans (List.Perm.trans (.cons _ ?_) List.perm_middle.symm)
    rw [List.take_append_drop]
    exact orderBy_perm.symm
  refine ⟨Scan.along listed, t, w', hagree, hfits', ?_⟩
  rw [hread, slice, hlisted, List.drop_left' (List.length_take_of_le (by omega)),
    show size = (size - 1) + 1 by omega]
  exact List.mem_cons_self ..

/-- Where every filename matches and no content type is asked for, a Protected B row
can stand first on any page that is not past the end, and is shown there. -/
theorem page_past_end
    (h : RowsAnswerAlike P tenantId query page pageSize classification contentType w)
    (hfits : w.Fits P.dialect) (hsize : 1 ≤ pageSize) {orm : DocumentORM}
    (horm : orm ∈ w.documents.rows)
    (ht : orm.tenantId = tenantId) (hpb : orm.classification = .protectedB)
    (hclass : passes classification orm.classification.value)
    (hname : ∀ filename, P.dialect.takes 1024 filename → nameMatches P query filename)
    (htype : DocumentRepository.given contentType = none) :
    (w.documents.rows.filter
      (DocumentRepository.conditions P tenantId query classification contentType)).length ≤
        ((page - 1) * pageSize).toNat := by
  by_contra hpage
  obtain ⟨before, after, hrows⟩ := List.append_of_mem horm
  have hmatch : ∀ orm' : DocumentORM, orm'.tenantId = tenantId →
      orm'.classification = .protectedB → P.dialect.takes 1024 orm'.filename →
      DocumentRepository.conditions P tenantId query classification contentType orm' :=
    fun orm' ht' hpb' htakes =>
      conditions_iff.mpr ⟨ht', hname _ htakes, by rwa [hpb', ← hpb], by simp [passes, htype]⟩
  have hself := hfits.documents orm horm
  obtain ⟨scan, t, w', hagree, hfits', hshown⟩ := exists_shown_row hfits hrows
    (fun t => hmatch _ ht hpb takes_a.1)
    (hmatch orm ht hpb (takes_filename hself)) hpb (show 1 ≤ pageSize.toNat by omega)
    (not_le.mp hpage)
  -- another database has another filename in its place
  obtain ⟨w'', hagree', hfits'', hrows''⟩ := exists_setRow hrows
    (show SameDocument orm { orm with filename := "b" } from Or.inr ⟨rfl, rfl, hpb, hpb⟩) hfits
    (fits_renamed hself takes_b.1 (takes_contentType hself) orm.createdAt)
  have hhit := mem_results_fallback.mpr ⟨_, hshown, rfl⟩
  rw [h scan w' w'' hagree hfits' hagree' hfits''] at hhit
  obtain ⟨row, hrow, hsame⟩ := mem_results_fallback.mp hhit
  have hmem : row ∈ w''.documents.rows :=
    List.mem_of_mem_filter (mem_orderBy.mp (List.mem_of_mem_drop (List.mem_of_mem_take hrow)))
  have hother : ({ orm with filename := "b" } : DocumentORM) ∈ w''.documents.rows := by
    rw [hrows'']
    simp
  have hid : row.id = orm.id := congrArg SearchHit.documentId hsame
  have hfilename : row.filename = "a" := congrArg SearchHit.filename hsame
  rw [List.inj_on_of_nodup_map w''.documents.nodup hmem hother hid] at hfilename
  exact absurd (show "b" = "a" from hfilename) (by decide)

theorem rowsOpen_of_answers
    (h : RowsAnswerAlike P tenantId query page pageSize classification contentType w)
    (hfits : w.Fits P.dialect) (hsize : 1 ≤ pageSize) :
    RowsOpen P tenantId query page pageSize classification contentType w.documents.rows := by
  by_contra hopen
  simp only [RowsOpen, not_or, not_forall, not_not] at hopen
  obtain ⟨⟨orm, horm, ht, hpb, hclass⟩, ⟨filename, htakes, hfilename⟩, ⟨type, htakes', hpasses⟩,
    hpage⟩ := hopen
  have hself := hfits.documents orm horm
  have hiff : ∀ filename contentType', DocumentRepository.conditions P tenantId query
      classification contentType { orm with filename := filename, contentType := contentType' } ↔
        nameMatches P query filename ∧ passes contentType contentType' := by
    intro filename contentType'
    simp only [conditions_iff, ht, hclass, true_and]
  -- one filename and content type match, so all that the columns take do
  have hall : ∀ filename' contentType', P.dialect.takes 1024 filename' →
      P.dialect.takes 255 contentType' →
      nameMatches P query filename' ∧ passes contentType contentType' := by
    intro filename' contentType' hname' htype'
    have hsame : ∀ name type, SameDocument orm { orm with filename := name, contentType := type } :=
      fun _ _ => Or.inr ⟨rfl, rfl, hpb, hpb⟩
    have heq := conditions_eq_of_total h hfits horm (hsame filename type)
      (fits_renamed hself htakes htakes' orm.createdAt) (hsame filename' contentType')
      (fits_renamed hself hname' htype' orm.createdAt)
    rw [← hiff, ← heq]
    exact (hiff _ _).mpr ⟨hfilename, hpasses⟩
  have htype : DocumentRepository.given contentType = none := by
    cases hgiven : DocumentRepository.given contentType with
    | none => rfl
    | some c =>
      have hpass : ∀ value, P.dialect.takes 255 value → value = c := fun value hvalue =>
        passes_iff.mp (hall filename value htakes hvalue).2 c hgiven
      have hsame := (hpass "a" takes_a.2).trans (hpass "b" takes_b.2).symm
      exact absurd hsame (by decide)
  have hname : ∀ filename', P.dialect.takes 1024 filename' → nameMatches P query filename' :=
    fun filename' hname' => (hall filename' type hname' htakes').1
  have hle := page_past_end h hfits hsize horm ht hpb hclass hname htype
  rw [filter_conditions_of_all hfits.documents hname htype] at hle
  exact hpage ⟨hname, htype, hle⟩

end Needed

/-! ## All requests -/

section Requests

variable (tokens : String → List String) (P : Platform) (inp : Inputs) (headers : Headers)
  (context : TenantContext) (request : ApiRequest) (w : World)

/-- Whatever the Protected B documents hold, the request is answered alike: in any
order in which the database reads its rows, and for any engine behind OpenSearch. -/
def Confidential : Prop :=
  ∀ scan found openSearch, AnswersQueries tokens found openSearch →
    ∀ w', AgreeOpen w w' → w'.Fits P.dialect → ∀ response v,
    (handle { P with scanDocuments := scan } { inp with openSearch := openSearch } headers context
      request).run w = .ok response v →
    ∃ v', (handle { P with scanDocuments := scan } { inp with openSearch := openSearch } headers
      context request).run w' = .ok response v'

/-- Searches and reviews that no Protected B document can reach; any other request. -/
def ProtectedUnread : Prop :=
  match request with
  | .environmentalReview payload => ReviewOfOpen P headers context payload w
  | .searchDocuments q page pageSize classification contentType =>
    ¬ ValidPage page pageSize ∨
      (IndexOpen P context.tenantId q page pageSize classification contentType tokens
          w.searchIndex ∧
        (¬ DocumentRepository.binds P.dialect context.tenantId q page pageSize classification
            contentType ∨
          RowsOpen P context.tenantId q page pageSize classification contentType
            w.documents.rows))
  | _ => True

end Requests

section Requests

variable {tokens : String → List String} {P : Platform} {inp : Inputs} {headers : Headers}
  {context : TenantContext} {w : World}

/-- A search that answers in one state answers the same in all that agree with it. -/
def SearchesAlike (tokens : String → List String) (P : Platform) (inp : Inputs)
    (context : TenantContext) (q : String) (page pageSize : ℤ)
    (classification contentType : Option String) (w : World) : Prop :=
  ∀ scan found openSearch, AnswersQueries tokens found openSearch →
    ∀ w', AgreeOpen w w' → w'.Fits P.dialect → ∀ answer,
    searchAnswer { P with scanDocuments := scan } context.tenantId q page pageSize classification
      contentType { inp with openSearch := openSearch } w = some answer →
    searchAnswer { P with scanDocuments := scan } context.tenantId q page pageSize classification
      contentType { inp with openSearch := openSearch } w' = some answer

theorem confidential_search {q : String} {page pageSize : ℤ}
    {classification contentType : Option String} (hpage : ValidPage page pageSize) :
    Confidential tokens P inp headers context
        (.searchDocuments q page pageSize classification contentType) w ↔
      SearchesAlike tokens P inp context q page pageSize classification contentType w := by
  constructor
  · intro hconf scan found openSearch hengine w' hagree hfits' answer hanswer
    have hrun := run_searchDocuments_eq_ok.mpr ⟨hpage, hanswer, rfl⟩
    obtain ⟨v', hv'⟩ := hconf scan found openSearch hengine w' hagree hfits' (.search answer) w
      (run_map_eq_ok.mpr ⟨answer, hrun, rfl⟩)
    obtain ⟨answer', hrun', hsame⟩ := run_map_eq_ok.mp hv'
    rw [← ApiResponse.search.inj hsame]
    exact (run_searchDocuments_eq_ok.mp hrun').2.1
  · intro halike scan found openSearch hengine w' hagree hfits' response v hok
    obtain ⟨answer, hrun, rfl⟩ := run_map_eq_ok.mp hok
    obtain ⟨-, hanswer, -⟩ := run_searchDocuments_eq_ok.mp hrun
    have hanswer' := halike scan found openSearch hengine w' hagree hfits' answer hanswer
    exact ⟨w', run_map_eq_ok.mpr
      ⟨answer, run_searchDocuments_eq_ok.mpr ⟨hpage, hanswer', rfl⟩, rfl⟩⟩

theorem searchAnswer_none {tenantId q : String} {page pageSize : ℤ}
    {classification contentType : Option String}
    (hbinds : DocumentRepository.binds P.dialect tenantId q page pageSize classification
      contentType) (scan : Scan DocumentORM) (u : World) :
    searchAnswer { P with scanDocuments := scan } tenantId q page pageSize classification
      contentType { inp with openSearch := fun _ _ => none } u =
      some (fallbackAnswer { P with scanDocuments := scan } tenantId q page pageSize classification
        contentType u) := by
  simp [searchAnswer, hbinds]

theorem searchAnswer_isSome {found : SearchBody → SearchDocument → Bool}
    {openSearch : Table SearchDocument.id → SearchBody → Option OpenSearchReply}
    (hengine : AnswersQueries tokens found openSearch) {tenantId q : String} {page pageSize : ℤ}
    {classification contentType : Option String} (u u' : World) :
    (searchAnswer P tenantId q page pageSize classification contentType
        { inp with openSearch := openSearch } u).isSome =
      (searchAnswer P tenantId q page pageSize classification contentType
        { inp with openSearch := openSearch } u').isSome := by
  have havailable := hengine.available u.searchIndex u'.searchIndex
    (SearchService.searchBody tenantId q page pageSize classification contentType)
  unfold searchAnswer
  dsimp only
  revert havailable
  cases openSearch u.searchIndex _ <;> cases openSearch u'.searchIndex _ <;> intro havailable
  · split_ifs <;> rfl
  · cases havailable
  · cases havailable
  · rfl

theorem searchesAlike_iff {q : String} {page pageSize : ℤ}
    {classification contentType : Option String} (hpage : ValidPage page pageSize)
    (hfits : w.Fits P.dialect) :
    SearchesAlike tokens P inp context q page pageSize classification contentType w ↔
      IndexOpen P context.tenantId q page pageSize classification contentType tokens
          w.searchIndex ∧
        (¬ DocumentRepository.binds P.dialect context.tenantId q page pageSize classification
            contentType ∨
          RowsOpen P context.tenantId q page pageSize classification contentType
            w.documents.rows) := by
  constructor
  · intro halike
    constructor
    · refine indexOpen_of_answers inp
        (fun found openSearch hengine type type' filename filename' htype htype' hname hname' => ?_)
        hpage.2.1
      cases hanswer : searchAnswer P context.tenantId q page pageSize classification contentType
          { inp with openSearch := openSearch } w with
      | some answer =>
        have hredact : ∀ type filename, P.dialect.takes 255 type → P.dialect.takes 1024 filename →
            _ := fun type filename htype hname => halike P.scanDocuments found openSearch hengine _
              (agreeOpen_redactIndex w type filename) (fits_redactIndex hfits htype hname) answer
              hanswer
        exact (hredact type filename htype hname).trans (hredact type' filename' htype' hname').symm
      | none =>
        have hnone : ∀ u, searchAnswer P context.tenantId q page pageSize classification contentType
            { inp with openSearch := openSearch } u = none := fun u => by
          rw [← Option.isNone_iff_eq_none, ← Option.not_isSome, searchAnswer_isSome hengine u w,
            hanswer]
          rfl
        rw [hnone, hnone]
    · by_cases hbinds : DocumentRepository.binds P.dialect context.tenantId q page pageSize
          classification contentType
      · refine Or.inr (rowsOpen_of_answers (fun scan w' w'' hagree hfits' hagree' hfits'' => ?_)
          hfits hpage.2.1)
        have hsame : ∀ u, AgreeOpen w u → u.Fits P.dialect → _ := fun u hagree hfits' =>
          halike scan _ _ (answersQueries_none tokens) u hagree hfits' _
            (searchAnswer_none hbinds scan w)
        have hsame' := (hsame w' hagree hfits').trans (hsame w'' hagree' hfits'').symm
        rwa [searchAnswer_none hbinds, searchAnswer_none hbinds, Option.some.injEq] at hsame'
      · exact Or.inl hbinds
  · rintro ⟨hindex, hrows⟩ scan found openSearch hengine w' hagree hfits' answer hanswer
    rw [← hanswer]
    simp only [searchAnswer]
    rw [openSearch_eq hengine hagree hfits hfits' hindex]
    rcases hrows with hrefused | hrows
    · simp [hrefused]
    · simp only [fallbackAnswer,
        searchRows_eq (P := { P with scanDocuments := scan }) hagree hfits hfits' hrows]

theorem confidential_search_iff {q : String} {page pageSize : ℤ}
    {classification contentType : Option String} (hfits : w.Fits P.dialect) :
    Confidential tokens P inp headers context
        (.searchDocuments q page pageSize classification contentType) w ↔
      ProtectedUnread tokens P headers context
        (.searchDocuments q page pageSize classification contentType) w := by
  by_cases hpage : ValidPage page pageSize
  · rw [confidential_search hpage, searchesAlike_iff hpage hfits]
    simp only [ProtectedUnread, hpage, not_true_eq_false, false_or]
  · refine iff_of_true (fun scan found openSearch _ w' _ _ response v hok => ?_) (Or.inl hpage)
    obtain ⟨answer, hrun, -⟩ := run_map_eq_ok.mp hok
    exact absurd (run_searchDocuments_eq_ok.mp hrun).1 hpage

theorem confidential_environmentalReview_iff (hfresh : Fresh inp w) (hfits : w.Fits P.dialect)
    {payload : EnvironmentalReviewRequest} :
    Confidential tokens P inp headers context (.environmentalReview payload) w ↔
      ProtectedUnread tokens P headers context (.environmentalReview payload) w := by
  have hhandle : ∀ scan openSearch, handle { P with scanDocuments := scan }
      { inp with openSearch := openSearch } headers context (.environmentalReview payload) =
        environmentalReview P inp headers context payload >>= fun body =>
          pure (.json (.obj body)) := fun _ _ => rfl
  refine Iff.trans ?_ (confidential_review_iff P headers hfresh hfits)
  constructor
  · intro hconf w' hagree hfits' body v hrun
    obtain ⟨v', hv'⟩ := hconf P.scanDocuments _ _ (answersQueries_none tokens) w' hagree hfits'
      (.json (.obj body)) v
      (by rw [hhandle]; exact run_map_eq_ok.mpr ⟨body, hrun, rfl⟩)
    rw [hhandle] at hv'
    obtain ⟨body', hrun', hbody⟩ := run_map_eq_ok.mp hv'
    obtain rfl : body' = body := Json.obj.inj (ApiResponse.json.inj hbody)
    exact ⟨v', hrun'⟩
  · intro hreview scan _ openSearch _ w' hagree hfits' response v hok
    rw [hhandle] at hok ⊢
    obtain ⟨body, hrun, rfl⟩ := run_map_eq_ok.mp hok
    obtain ⟨v', hrun'⟩ := hreview w' hagree hfits' body v hrun
    exact ⟨v', run_map_eq_ok.mpr ⟨body, hrun', rfl⟩⟩

/-- What Protected B documents hold stays out of every answer to a caller without the
reader role exactly in the requests that no such document can reach. -/
theorem confidential_iff (hrole : "protected-b-reader" ∉ context.roles) (hfresh : Fresh inp w)
    (hfits : w.Fits P.dialect) (request : ApiRequest) :
    Confidential tokens P inp headers context request w ↔
      ProtectedUnread tokens P headers context request w := by
  have hmap : ∀ {α : Type} {m : Platform → Inputs → App α} (f : α → ApiResponse),
      (∀ P inp, Confined (m P inp)) →
      (∀ P inp, handle P inp headers context request = m P inp >>= fun a => pure (f a)) →
      Confidential tokens P inp headers context request w := by
    intro α m f hm hhandle scan _ openSearch _ w' hagree _ response v hok
    rw [hhandle] at hok ⊢
    obtain ⟨v', hv', -⟩ := Rel.ok ((hm _ _).bind_same
      fun _ => Rel.pure fun _ _ _ => ⟨rfl, trivial⟩) hagree hok
    exact ⟨v', hv'⟩
  cases request with
  | searchDocuments q page pageSize classification contentType =>
    exact confidential_search_iff hfits
  | environmentalReview payload => exact confidential_environmentalReview_iff hfresh hfits
  | ingestDocument payload =>
    exact iff_of_true (hmap _ (fun _ _ => confined_ingestDocument payload) fun _ _ => rfl) trivial
  | submitSetupConfiguration payload =>
    exact iff_of_true (hmap _ (fun _ _ => confined_submitSetupConfiguration payload)
      fun _ _ => rfl) trivial
  | processDocument documentId =>
    exact iff_of_true (hmap _ (fun _ _ => confined_processDocument hrole documentId)
      fun _ _ => rfl) trivial
  | ragAnswer question citations =>
    exact iff_of_true (hmap _ (fun _ _ => confined_ragAnswer hrole question citations)
      fun _ _ => rfl) trivial
  | assignCase caseId skill =>
    exact iff_of_true (hmap _ (fun _ _ => confined_assignCase caseId skill) fun _ _ => rfl) trivial
  | listAudit page pageSize =>
    exact iff_of_true (hmap _ (fun _ _ => confined_listAudit page pageSize) fun _ _ => rfl) trivial
  | uploadDocumentContent documentId body =>
    exact iff_of_true (hmap _ (fun _ _ => confined_uploadDocumentContent hrole documentId body)
      fun _ _ => rfl) trivial
  | downloadDocument documentId =>
    exact iff_of_true (hmap _ (fun _ _ => confined_downloadDocument hrole documentId)
      fun _ _ => rfl) trivial

end Requests

def exampleSecret (filename : String) : DocumentORM :=
  exampleRow 7 (exampleIngest "env" filename .protectedB [])

theorem fits_exampleSecret {filename : String} {h} (hname : varchar 1024 filename) :
    (World.ofRows [exampleSecret filename] h).Fits .postgresql := by
  refine ⟨fun orm horm => ?_, fun entry hentry => absurd hentry List.not_mem_nil⟩
  obtain rfl := List.mem_singleton.mp horm
  exact DocumentORM.fits_postgresql.mpr ⟨show varchar 255 "env" by decide, hname,
    show varchar 255 "application/pdf" by decide, show varchar 64 "protected_b" by decide,
    show varchar 64 exampleSha256 by decide, show varchar 2048 "s3://documents/plan" by decide, rfl⟩

/-- A search for internal documents keeps the Protected B one out. -/
theorem confidential_iff_internal :
    Confidential TextIndex.Analyzer.ascii.tokens examplePlatform (exampleInputs 1) exampleHeaders
      exampleContext (.searchDocuments "plan" 1 20 (some "internal") none)
      (World.ofRows [exampleSecret "a.pdf"] (by decide)) := by
  refine (confidential_iff (by decide) fresh_ofRows (fits_exampleSecret (by decide)) _).mpr
    (Or.inr ⟨Or.inr (Or.inl ?_), Or.inr (Or.inl ?_)⟩)
  · exact fun entry hentry => absurd hentry List.not_mem_nil
  · intro orm horm _ hpb
    rw [hpb]
    decide

/-- A search without filters shows its filename to a caller without the role. -/
theorem search_shows_protected :
    AgreeOpen (World.ofRows [exampleSecret "a.pdf"] (by decide))
      (World.ofRows [exampleSecret "b.pdf"] (by decide)) ∧
    (World.ofRows [exampleSecret "a.pdf"] (by decide)).Fits examplePlatform.dialect ∧
    (World.ofRows [exampleSecret "b.pdf"] (by decide)).Fits examplePlatform.dialect ∧
    "protected-b-reader" ∉ exampleContext.roles ∧
    ∃ answer answer',
      (searchDocuments examplePlatform (exampleInputs 1) exampleContext "" 1 20 none none).run
        (World.ofRows [exampleSecret "a.pdf"] (by decide)) = .ok answer
          (World.ofRows [exampleSecret "a.pdf"] (by decide)) ∧
      (searchDocuments examplePlatform (exampleInputs 1) exampleContext "" 1 20 none none).run
        (World.ofRows [exampleSecret "b.pdf"] (by decide)) = .ok answer'
          (World.ofRows [exampleSecret "b.pdf"] (by decide)) ∧
      answer.results.map (·.filename) = ["a.pdf"] ∧
      answer'.results.map (·.filename) = ["b.pdf"] := by
  have hagree : AgreeOpen (World.ofRows [exampleSecret "a.pdf"] (by decide))
      (World.ofRows [exampleSecret "b.pdf"] (by decide)) :=
    ⟨.cons (Or.inr ⟨rfl, rfl, rfl, rfl⟩) .nil, .nil, rfl, rfl,
      fun backend _ _ => by cases backend <;> rfl⟩
  have hrun : ∀ filename h,
      (searchDocuments examplePlatform (exampleInputs 1) exampleContext "" 1 20 none none).run
        (World.ofRows [exampleSecret filename] h) =
      .ok (fallbackAnswer examplePlatform "env" "" 1 20 none none
        (World.ofRows [exampleSecret filename] h)) (World.ofRows [exampleSecret filename] h) := by
    intro filename h
    exact run_searchDocuments_eq_ok.mpr ⟨⟨by decide, by decide, by decide⟩, rfl, rfl⟩
  have hshown : ∀ filename h, (fallbackAnswer examplePlatform "env" "" 1 20 none none
      (World.ofRows [exampleSecret filename] h)).results.map (·.filename) = [filename] := by
    intro filename h
    have hrows : [exampleSecret filename].filter
        (DocumentRepository.conditions examplePlatform "env" "" none none) =
          [exampleSecret filename] := rfl
    simp only [fallbackAnswer, World.ofRows, DocumentRepository.searchRows, hrows,
      orderBy_singleton]
    rfl
  exact ⟨hagree, fits_exampleSecret (by decide), fits_exampleSecret (by decide), by decide,
    _, _, hrun _ _, hrun _ _, hshown _ _, hshown _ _⟩

end GoAnalyze
