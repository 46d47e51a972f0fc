import GoAnalyze.Lib.Like
import GoAnalyze.Proofs.Confidentiality

/-! The database fallback of the search against its own test for a substring. The query is put
between the `%` of a pattern as it is, so they agree on all filenames exactly for the
queries without a character that is special in a pattern. -/

namespace GoAnalyze

open Sql DocumentRepository

/-! ## Lower case in ASCII -/

def IsAscii (s : List Char) : Prop := ∀ c ∈ s, c.toNat < 128

instance : DecidablePred IsAscii := fun _ => List.decidableBAll _ _

/-- On ASCII text `str.lower` and the folding of `ILIKE` are the lower case of ASCII. -/
structure AsciiCase (P : Platform) : Prop where
  lower : ∀ s, IsAscii s → P.lower s = s.map Char.toLower
  foldCase : ∀ s, IsAscii s → P.foldCase s = s.map Char.toLower

theorem toNat_toLower (c : Char) :
    c.toLower.toNat = if 65 ≤ c.toNat ∧ c.toNat ≤ 90 then c.toNat + 32 else c.toNat := by
  have hiff : (c.val ≥ 'A'.val ∧ c.val ≤ 'Z'.val) ↔ 65 ≤ c.toNat ∧ c.toNat ≤ 90 := by
    simp [UInt32.le_iff_toNat_le, ← Char.toNat_val]
  unfold Char.toLower
  split_ifs with h h'
  · have hdiff : ('a'.val - 'A'.val).toNat = 32 := by decide
    have hle : c.val.toNat ≤ 90 := h'.2
    change (c.val + ('a'.val - 'A'.val)).toNat = c.val.toNat + 32
    rw [UInt32.toNat_add, hdiff]
    omega
  · exact absurd (hiff.mp h) h'
  · exact absurd (hiff.mpr ‹_›) h
  · rfl

theorem toLower_toLower (c : Char) : c.toLower.toLower = c.toLower := by
  refine Char.ext (UInt32.toNat_inj.mp ?_)
  have hlow := toNat_toLower c
  have htwice := toNat_toLower c.toLower
  simp only [Char.toNat_val]
  split_ifs at hlow htwice <;> omega

theorem toLower_eq_iff {c d : Char} (hd : d.toNat < 65 ∨ 90 < d.toNat ∧ d.toNat < 97) :
    c.toLower = d ↔ c = d := by
  have hlow := toNat_toLower c
  constructor
  · rintro rfl
    refine Char.ext (UInt32.toNat_inj.mp ?_)
    simp only [Char.toNat_val]
    split_ifs at hlow <;> omega
  · rintro rfl
    refine Char.ext (UInt32.toNat_inj.mp ?_)
    simp only [Char.toNat_val]
    split_ifs at hlow <;> omega

theorem isAscii_toLower {s : List Char} (h : IsAscii s) : IsAscii (s.map Char.toLower) := by
  intro c hc
  obtain ⟨d, hd, rfl⟩ := List.mem_map.mp hc
  have hlow := toNat_toLower d
  have := h d hd
  split_ifs at hlow <;> omega

/-! ## Queries and filenames -/

/-- The escape character of `LIKE` in a dialect. -/
def likeEscape : Dialect → Option Char
  | .postgresql => some '\\'
  | .sqlite => none

theorem likeEscape_ne_percent (dialect : Dialect) : likeEscape dialect ≠ some '%' := by
  cases dialect <;> decide

section Queries

variable (P : Platform) (query : String)

/-- The query has no `%` and no `_`, and on PostgreSQL no backslash. -/
def NoWildcards : Prop :=
  ∀ c ∈ query.toList, c ≠ '%' ∧ c ≠ '_' ∧ (P.dialect = .postgresql → c ≠ '\\')

/-- What the fallback of `search` promises for a query: a document is found exactly where
its filename contains the query in lower case, which is where a query that is not empty
scores 1; so every hit of such a query scores 1, and every document whose filename
contains it is counted. -/
structure SubstringSearch : Prop where
  names : ∀ filename : String, IsAscii filename.toList → (nameMatches P query filename ↔
    occursIn (P.lower query.toList) (P.lower filename.toList))
  scored : query ≠ "" → ∀ record : DocumentRecord, IsAscii record.filename.toList →
    (nameMatches P query record.filename ↔ (SearchService.hitOfRecord P query record).score = 1)
  fallback : query ≠ "" → ∀ inp w tenantId page pageSize classification contentType response w',
    (∀ orm ∈ w.documents.rows, IsAscii orm.filename.toList) →
    (SearchService.search P inp tenantId query page pageSize classification contentType).run w =
      .ok response w' → response.backend = "database_fallback" →
    (∀ hit ∈ response.results, hit.score = 1) ∧
      response.total = (w.documents.rows.filter fun orm => orm.tenantId = tenantId ∧
        occursIn (P.lower query.toList) (P.lower orm.filename.toList) ∧
        passes classification orm.classification.value ∧ passes contentType orm.contentType).length

variable {P query}

theorem noWildcards_iff : NoWildcards P query ↔
    ∀ c ∈ query.toList.map Char.toLower, isLiteral (likeEscape P.dialect) c := by
  simp only [NoWildcards, List.forall_mem_map]
  refine forall₂_congr fun c _ => ?_
  have hpercent : c.toLower = '%' ↔ c = '%' := toLower_eq_iff (by decide)
  have hunderscore : c.toLower = '_' ↔ c = '_' := toLower_eq_iff (by decide)
  have hbackslash : c.toLower = '\\' ↔ c = '\\' := toLower_eq_iff (by decide)
  simp only [isLiteral_iff, ne_eq, hpercent, hunderscore]
  cases P.dialect <;> simp [likeEscape, hbackslash]

theorem filenameMatches_ascii (hcase : AsciiCase P) (hquery : IsAscii query.toList)
    {filename : String} (hfilename : IsAscii filename.toList) :
    filenameMatches P query filename = like (likeEscape P.dialect)
      ('%' :: query.toList.map Char.toLower ++ ['%']) (filename.toList.map Char.toLower) := by
  have hpattern : IsAscii ('%' :: query.toList ++ ['%']) := by
    intro c hc
    simp only [List.cons_append, List.mem_cons, List.mem_append, List.not_mem_nil, or_false] at hc
    rcases hc with rfl | hc | rfl
    · decide
    · exact hquery c hc
    · decide
  have hpercent : Char.toLower '%' = '%' := by decide
  have hfold : P.foldCase ('%' :: query.toList ++ ['%']) =
      '%' :: query.toList.map Char.toLower ++ ['%'] := by
    rw [hcase.foldCase _ hpattern, List.map_append, List.map_cons, List.map_singleton, hpercent]
  have hunfold : filenameMatches P query filename = like (likeEscape P.dialect)
      (P.foldCase ('%' :: query.toList ++ ['%'])) (P.foldCase filename.toList) := by
    unfold filenameMatches likeEscape
    cases P.dialect <;> rfl
  rw [hunfold, hfold, hcase.foldCase _ hfilename]

theorem nameMatches_iff_occursIn (hcase : AsciiCase P) (hquery : IsAscii query.toList)
    (hplain : NoWildcards P query) {filename : String} (hfilename : IsAscii filename.toList) :
    nameMatches P query filename ↔
      occursIn (P.lower query.toList) (P.lower filename.toList) := by
  rw [hcase.lower _ hquery, hcase.lower _ hfilename, occursIn, decide_eq_true_iff, nameMatches,
    filenameMatches_ascii hcase hquery hfilename, Bool.or_eq_true,
    like_contains_iff (likeEscape_ne_percent _) (noWildcards_iff.mp hplain), or_iff_right_iff_imp]
  intro hempty
  rw [String.isEmpty_iff.mp hempty]
  exact List.nil_infix

/-- The filename that a query with a special character finds without being in it. -/
theorem noWildcards_of_names (hcase : AsciiCase P) (hquery : IsAscii query.toList)
    (h : ∀ filename : String, IsAscii filename.toList → (nameMatches P query filename ↔
      occursIn (P.lower query.toList) (P.lower filename.toList))) : NoWildcards P query := by
  rw [noWildcards_iff]
  set q := query.toList.map Char.toLower with hq
  let name := sample (likeEscape P.dialect) q
  have hlow : ∀ c ∈ name, c.toLower = c := by
    refine sample_all (by decide) (by decide) fun c hc => ?_
    obtain ⟨d, -, rfl⟩ := List.mem_map.mp hc
    exact toLower_toLower d
  have hlower : name.map Char.toLower = name := (List.map_congr_left hlow).trans (List.map_id' _)
  have hname : IsAscii name := sample_all (by decide) (by decide) (isAscii_toLower hquery)
  have hmatch : nameMatches P query (String.ofList name) := by
    rw [nameMatches, filenameMatches_ascii hcase hquery (by rwa [String.toList_ofList]),
      String.toList_ofList, hlower, like_sample (likeEscape_ne_percent _), Bool.or_true]
  have hin := (h _ (by rwa [String.toList_ofList])).mp hmatch
  rw [String.toList_ofList, hcase.lower _ hquery, hcase.lower _ hname, hlower, occursIn,
    decide_eq_true_iff] at hin
  exact isLiteral_of_infix_sample (likeEscape_ne_percent _) hin

theorem score_eq_one_iff (hne : query ≠ "") {record : DocumentRecord} :
    (SearchService.hitOfRecord P query record).score = 1 ↔
      occursIn (P.lower query.toList) (P.lower record.filename.toList) := by
  have hempty : query.isEmpty = false := by
    rw [← Bool.not_eq_true, String.isEmpty_iff]
    exact hne
  simp only [SearchService.hitOfRecord, hempty, Bool.not_false, Bool.true_and]
  split_ifs with h
  · exact iff_of_true rfl h
  · exact iff_of_false (by norm_num) h

/-- The database fallback finds the documents whose filename contains the query, and no
others, exactly for the queries without a wildcard or an escape. -/
theorem substringSearch_iff (hcase : AsciiCase P) (hquery : IsAscii query.toList) :
    SubstringSearch P query ↔ NoWildcards P query := by
  refine ⟨fun h => noWildcards_of_names hcase hquery h.names, fun hplain => ?_⟩
  have hnames : ∀ filename : String, IsAscii filename.toList → (nameMatches P query filename ↔
      occursIn (P.lower query.toList) (P.lower filename.toList)) := fun filename hfilename =>
    nameMatches_iff_occursIn hcase hquery hplain hfilename
  refine ⟨hnames, fun hne record hrecord => ?_, ?_⟩
  · rw [score_eq_one_iff hne]
    exact hnames _ hrecord
  · intro hne inp w tenantId page pageSize classification contentType response w' hrows hrun hback
    rcases searchAnswer_eq_some.mp (run_searchService_eq_ok.mp hrun).1 with
      ⟨reply, -, rfl⟩ | ⟨-, -, rfl⟩
    · exact absurd (show "opensearch" = "database_fallback" from hback) (by decide)
    · simp only [fallbackAnswer, searchRows]
      refine ⟨fun hit hhit => ?_, ?_⟩
      · obtain ⟨record, hrecord, rfl⟩ := List.mem_map.mp hhit
        obtain ⟨row, hrow, rfl⟩ := List.mem_map.mp hrecord
        have hmem := mem_orderBy.mp (List.mem_of_mem_drop (List.mem_of_mem_take hrow))
        obtain ⟨hdoc, hcond⟩ := List.mem_filter.mp hmem
        exact (score_eq_one_iff hne).mpr
          ((hnames _ (hrows row hdoc)).mp (conditions_iff.mp hcond).2.1)
      · refine congrArg List.length (List.filter_congr fun row hrow => ?_)
        rw [Bool.eq_iff_iff, conditions_iff, decide_eq_true_eq, hnames _ (hrows row hrow)]

end Queries

theorem asciiCase_example : AsciiCase examplePlatform := ⟨fun _ _ => rfl, fun _ _ => rfl⟩

theorem substringSearch_report :
    SubstringSearch examplePlatform "report" ∧ NoWildcards examplePlatform "report" := by
  have hplain : NoWildcards examplePlatform "report" := by
    intro c hc
    have : c ∈ ['r', 'e', 'p', 'o', 'r', 't'] := hc
    fin_cases this <;> exact ⟨by decide, by decide, fun _ => by decide⟩
  exact ⟨(substringSearch_iff asciiCase_example (by decide)).mpr hplain, hplain⟩

/-- The query `page_test` finds the file `page-test.pdf`, which scores 1/2. -/
theorem substringSearch_wildcard : ¬ SubstringSearch examplePlatform "page_test" := by
  intro h
  have hiff := h.names "page-test.pdf" (by decide)
  exact absurd (hiff.mp (by decide)) (by decide)

end GoAnalyze
