import GoAnalyze.Spec.QueryParams

/-! Query parameters on their way from the pages to the handlers. What `buildUrl` writes the
server reads back, whatever the texts; empty values are not sent, and defaults take their
place. -/

namespace GoAnalyze

open FormUrlencoded JsonText

/-! ## The URL -/

/-- Every byte is read as it was written, tried one by one. -/
theorem spells_formByte (b : UInt8) : Spells (formByte b) b := by
  have hall : ∀ n < 256, Spells (formByte (UInt8.ofNat n)) (UInt8.ofNat n) := by decide +kernel
  have hb := hall b.toNat b.toNat_lt
  rwa [UInt8.ofNat_toNat] at hb

/-- What the server is sent for a value. -/
def QueryValue.received (value : QueryValue) : Option String :=
  if value.skipped then none else some value.text

def sentPair (entry : String × QueryValue) : Option (String × String) :=
  entry.2.received.map (entry.1, ·)

theorem searchParamsSet_new {pairs : List (String × String)} {name : String} (value : String)
    (h : name ∉ pairs.map Prod.fst) : searchParamsSet pairs name value = pairs ++ [(name, value)] :=
  if_neg h

theorem buildParams_eq {query : List (String × QueryValue)} (h : (query.map Prod.fst).Nodup) :
    buildParams query = query.filterMap sentPair := by
  have hfold : ∀ pairs : List (String × String),
      (∀ name ∈ query.map Prod.fst, name ∉ pairs.map Prod.fst) →
      query.foldl addParam pairs = pairs ++ query.filterMap sentPair := by
    induction query with
    | nil => simp
    | cons entry query ih =>
      obtain ⟨key, value⟩ := entry
      obtain ⟨hkey, hquery⟩ := List.nodup_cons.mp h
      intro pairs hpairs
      have hrest : ∀ name ∈ query.map Prod.fst, name ∉ pairs.map Prod.fst :=
        fun name hname => hpairs name (List.mem_cons_of_mem _ hname)
      rw [List.foldl_cons]
      by_cases hskip : value.skipped
      · have hnone : sentPair (key, value) = none := by simp [sentPair, QueryValue.received, hskip]
        rw [List.filterMap_cons_none hnone, addParam, if_pos hskip, ih hquery pairs hrest]
      · have hsome : sentPair (key, value) = some (key, value.text) := by
          simp [sentPair, QueryValue.received, hskip]
        rw [List.filterMap_cons_some hsome, addParam, if_neg hskip,
          searchParamsSet_new _ (hpairs key List.mem_cons_self), ih hquery]
        · simp
        · intro name hname hmem
          rw [List.map_append, List.mem_append] at hmem
          rcases hmem with hmem | hmem
          · exact hrest name hname hmem
          · obtain rfl : name = key := by simpa using hmem
            exact hkey hname
  exact hfold [] (by simp)

/-! ## The server -/

section Reader

variable (R : QueryReader) {query : List (String × QueryValue)}

theorem parse_queryString (h : (query.map Prod.fst).Nodup) :
    parse R.utf8 (queryString query) = query.filterMap sentPair := by
  rw [queryString, parse_serialize spells_formByte, buildParams_eq h]

theorem fst_of_sentPair {entry : String × QueryValue} {pair : String × String}
    (h : sentPair entry = some pair) : pair.1 = entry.1 := by
  obtain ⟨text, -, rfl⟩ := Option.map_eq_some_iff.mp h
  rfl

theorem filter_sentPair (query : List (String × QueryValue)) (name : String) :
    (query.filterMap sentPair).filter (·.1 = name) =
      (query.filter (·.1 = name)).filterMap sentPair := by
  rw [List.filter_filterMap, List.filterMap_filter]
  refine List.filterMap_congr fun entry _ => ?_
  cases hs : sentPair entry with
  | none => simp
  | some pair =>
    have hname := fst_of_sentPair hs
    by_cases hn : entry.1 = name <;> simp [Option.filter, hname, hn]

theorem filter_eq_find? (h : (query.map Prod.fst).Nodup) (name : String) :
    query.filter (·.1 = name) = (query.find? (·.1 = name)).toList := by
  induction query with
  | nil => rfl
  | cons entry query ih =>
    obtain ⟨hkey, hquery⟩ := List.nodup_cons.mp h
    by_cases hn : entry.1 = name
    · have hrest : query.filter (·.1 = name) = [] := by
        refine List.filter_eq_nil_iff.mpr fun e he heq => hkey ?_
        rw [hn, ← of_decide_eq_true heq]
        exact List.mem_map_of_mem he
      simp [hn, hrest]
    · simp [hn, ih hquery]

theorem get_queryString (h : (query.map Prod.fst).Nodup) (name : String) :
    R.get (queryString query) name =
      (query.find? (·.1 = name)).bind fun entry => entry.2.received := by
  rw [QueryReader.get, parse_queryString R h, filter_sentPair, filter_eq_find? h]
  cases query.find? (·.1 = name) with
  | none => rfl
  | some entry => cases hr : entry.2.received <;> simp [sentPair, hr]

theorem param_queryString {α : Type} (h : (query.map Prod.fst).Nodup) {name : String}
    {value : QueryValue} (hentry : query.find? (·.1 = name) = some (name, value))
    (read : String → Option α) (default : Option α) :
    R.param (queryString query) name read default = value.received.elim default read := by
  rw [QueryReader.param, get_queryString R h, hentry, Option.bind_some]
  cases value.received <;> rfl

theorem received_string (s : String) :
    (QueryValue.string s).received = if s = "" then none else some s := by
  simp [QueryValue.received, QueryValue.skipped, QueryValue.text]

theorem read_whole {n : ℤ} (hn : n.natAbs < 10 ^ 21) (default : Option ℤ) :
    (QueryValue.whole n).received.elim default R.parseInt = some n := by
  have htext : (QueryValue.whole n).received = some (String.ofList (writeInt n)) := by
    simp [QueryValue.whole, QueryValue.received, QueryValue.skipped, QueryValue.text,
      JsJson.numberToString_ofInt hn]
  rw [htext]
  exact R.parseInt_digits n hn

theorem received_optional_string (o : Option String) :
    (optional .string o).received = o.filter (· ≠ "") := by
  cases o with
  | none => rfl
  | some s =>
    rw [optional, received_string]
    by_cases hs : s = "" <;> simp [Option.filter, hs]

theorem read_optional_whole {o : Option ℤ} (ho : ∀ n ∈ o, n.natAbs < 10 ^ 21) (d : ℤ) :
    (optional QueryValue.whole o).received.elim (some d) R.parseInt = some (o.getD d) := by
  cases o with
  | none => rfl
  | some n => exact read_whole R (ho n rfl) _

/-! ## The endpoints -/

theorem searchArguments_search (params : SearchParams)
    (hpage : ∀ n ∈ params.page, n.natAbs < 10 ^ 21)
    (hsize : ∀ n ∈ params.pageSize, n.natAbs < 10 ^ 21) :
    R.searchArguments (queryString (documentsApiSearch params)) = some
      { q := params.q.getD ""
        page := params.page.getD 1
        pageSize := params.pageSize.getD 20
        classification := params.classification.filter (· ≠ "")
        contentType := params.contentType.filter (· ≠ "") } := by
  have hkeys : ((documentsApiSearch params).map Prod.fst).Nodup :=
    show ["q", "page", "page_size", "classification", "content_type"].Nodup by decide
  have hq : (optional .string params.q).received.elim (some "") some = some (params.q.getD "") := by
    rw [received_optional_string]
    cases hq : params.q with
    | none => rfl
    | some s => by_cases hs : s = "" <;> simp [Option.filter, hs]
  have hfilter : ∀ o : Option String,
      (optional .string o).received.elim (some none) (some ∘ some) = some (o.filter (· ≠ "")) := by
    intro o
    rw [received_optional_string]
    cases o.filter (· ≠ "") <;> rfl
  unfold QueryReader.searchArguments
  rw [param_queryString R hkeys rfl, param_queryString R hkeys rfl, param_queryString R hkeys rfl,
    param_queryString R hkeys rfl, param_queryString R hkeys rfl, hq, hfilter, hfilter,
    read_optional_whole R hpage, read_optional_whole R hsize]
  rfl

theorem auditArguments_list {page pageSize : ℤ} (hpage : page.natAbs < 10 ^ 21)
    (hsize : pageSize.natAbs < 10 ^ 21) :
    R.auditArguments (queryString (auditApiList page pageSize)) = some (page, pageSize) := by
  have hkeys : ((auditApiList page pageSize).map Prod.fst).Nodup :=
    show ["page", "page_size"].Nodup by decide
  unfold QueryReader.auditArguments
  rw [param_queryString R hkeys rfl, param_queryString R hkeys rfl, read_whole R hpage,
    read_whole R hsize]
  rfl

theorem question_answer (question : String) :
    R.question (queryString (ragApiAnswer question)) = orUndefined question := by
  have hkeys : ((ragApiAnswer question).map Prod.fst).Nodup := List.nodup_singleton _
  rw [QueryReader.question, param_queryString R hkeys rfl, received_string, orUndefined]
  split <;> rfl

theorem skill_assign (skill : Option String) :
    R.skill (queryString (casesApiAssign skill)) =
      some ((skill.filter (· ≠ "")).getD "technical") := by
  have hkeys : ((casesApiAssign skill).map Prod.fst).Nodup := List.nodup_singleton _
  rw [QueryReader.skill, param_queryString R hkeys rfl, received_optional_string]
  cases skill.filter (· ≠ "") <;> rfl

end Reader

/-- Whatever characters the texts are made of, every endpoint is given the parameters that the
client was called with: the pages' form and page number, the pages of the audit log, the
question, the skill. An empty text is as good as none. -/
theorem parameters_reach_handlers (R : QueryReader) :
    (∀ query : List (String × QueryValue), (query.map Prod.fst).Nodup → ∀ name,
      R.get (queryString query) name =
        (query.find? (·.1 = name)).bind fun entry => entry.2.received) ∧
    (∀ filters (page : ℤ), page.natAbs < 10 ^ 21 →
      R.searchArguments (queryString (documentsApiSearch (runSearch filters page))) = some
        ⟨filters.q, page, 20, orUndefined filters.classification,
          orUndefined filters.contentType⟩) ∧
    (∀ page pageSize : ℤ, page.natAbs < 10 ^ 21 → pageSize.natAbs < 10 ^ 21 →
      R.auditArguments (queryString (auditApiList page pageSize)) = some (page, pageSize)) ∧
    (∀ question, R.question (queryString (ragApiAnswer question)) = orUndefined question) ∧
    ∀ skill, R.skill (queryString (casesApiAssign skill)) =
      some ((skill.filter (· ≠ "")).getD "technical") := by
  refine ⟨fun query h name => get_queryString R h name, fun filters page hpage => ?_,
    fun page pageSize hpage hsize => auditArguments_list R hpage hsize, question_answer R,
    skill_assign R⟩
  have hfilter : ∀ s : String, (orUndefined s).filter (· ≠ "") = orUndefined s := fun s => by
    by_cases hs : s = "" <;> simp [orUndefined, Option.filter, hs]
  rw [searchArguments_search R _ (by simpa [runSearch] using hpage) (by simp [runSearch]),
    runSearch]
  simp only [hfilter, Option.getD_some]

/-- The whole numbers of JSON. -/
def readWhole (text : String) : Option ℤ :=
  match loads text.toList with
  | some (.num (.int n)) => some n
  | _ => none

theorem readWhole_writeInt (n : ℤ) : readWhole (String.ofList (writeInt n)) = some n := by
  have hwrite : writeInt n = write compact (.num (.int n)) := rfl
  rw [readWhole, String.toList_ofList, hwrite, loads_write]

/-- UTF-8 without what is ill-formed. -/
def wellFormedUtf8 : Utf8Decoder where
  decode bytes := (UriComponent.decodeUtf8 bytes).getD []
  decode_encode s := congrArg (Option.getD · []) (UriComponent.decodeUtf8_encode s)

def exampleReader : QueryReader where
  utf8 := wellFormedUtf8
  parseInt := readWhole
  parseInt_digits n _ := readWhole_writeInt n

theorem parameters_reach_handlers_example :
    exampleReader.searchArguments
      (queryString (documentsApiSearch (runSearch ⟨"a+b & 100% é", "", "text/plain"⟩ 2))) =
        some ⟨"a+b & 100% é", 2, 20, none, some "text/plain"⟩ :=
  (parameters_reach_handlers exampleReader).2.1 ⟨"a+b & 100% é", "", "text/plain"⟩ 2 (by decide)

end GoAnalyze
