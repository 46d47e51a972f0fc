import GoAnalyze.Lib.Paging
import GoAnalyze.Proofs.ProtectedB
import GoAnalyze.Spec.OpenSearch

/-! Searches through OpenSearch and Protected B documents: the service asks for no role,
and the index counts, orders and scores whatever the term clauses select. -/

namespace GoAnalyze

open JsonText Sql TwoRuns

/-! ## Columns -/

/-- What a column of at most `n` characters takes. -/
def Dialect.takes (dialect : Dialect) (n : ℕ) (s : String) : Bool :=
  match dialect with
  | .sqlite => true
  | .postgresql => varchar n s

theorem takes_entry {dialect : Dialect} {entry : SearchDocument} (h : entry.fits dialect) :
    dialect.takes 255 entry.contentType := by
  cases dialect with
  | sqlite => rfl
  | postgresql =>
    simp only [SearchDocument.fits, Bool.and_eq_true] at h
    exact h.1.2

theorem takes_of_varchar {dialect : Dialect} {n : ℕ} {s : String} (h : varchar n s) :
    dialect.takes n s := by
  cases dialect with
  | sqlite => rfl
  | postgresql => exact h

theorem takes_a {dialect : Dialect} : dialect.takes 1024 "a" ∧ dialect.takes 255 "a" :=
  ⟨takes_of_varchar (by decide), takes_of_varchar (by decide)⟩

theorem takes_b {dialect : Dialect} : dialect.takes 1024 "b" ∧ dialect.takes 255 "b" :=
  ⟨takes_of_varchar (by decide), takes_of_varchar (by decide)⟩

/-! ## The index -/

section Index

variable (tokens : String → List String)

/-- A filter that is not given finds every value; a given one has to be a token of it. -/
def finds (filter : Option String) (value : String) : Bool :=
  match DocumentRepository.given filter with
  | none => true
  | some c => c ∈ tokens value

theorem selects_searchBody {tenantId query : String} {page pageSize : ℤ}
    {classification contentType : Option String} {entry : SearchDocument} :
    (SearchService.searchBody tenantId query page pageSize classification contentType).selects
        tokens entry ↔ tenantId ∈ tokens entry.tenantId ∧
      finds tokens classification entry.classification.value ∧
      finds tokens contentType entry.contentType := by
  unfold finds SearchBody.selects SearchService.searchBody
  cases DocumentRepository.given classification <;> cases DocumentRepository.given contentType <;>
    by_cases hq : query.isEmpty <;> simp [hq, SearchDocument.fieldValue]

/-- As many hits as a query can be paged through, the default of `index.max_result_window`. -/
def resultWindow : ℤ := 10000

/-- The query searches texts, besides its term clauses. -/
def SearchBody.hasText (body : SearchBody) : Bool :=
  body.must.any fun
    | .term _ _ => false
    | .multiMatch _ _ => true

theorem hasText_searchBody {tenantId query : String} {page pageSize : ℤ}
    {classification contentType : Option String} :
    (SearchService.searchBody tenantId query page pageSize classification contentType).hasText =
      !query.isEmpty := by
  unfold SearchBody.hasText SearchService.searchBody
  cases DocumentRepository.given classification <;> cases DocumentRepository.given contentType <;>
    by_cases hq : query.isEmpty <;> simp [hq]

/-- What the term clauses of a query read of an entry. -/
def SearchBody.view (body : SearchBody) (entry : SearchDocument) :
    UUID × (String → Option String) :=
  (entry.id, fun field =>
    if body.must.any fun | .term name _ => name = field | .multiMatch _ _ => false
    then entry.fieldValue field else none)

def Shows (entry : SearchDocument) (hit : OpenSearchHit) : Prop :=
  hit.id = entry.id ∧ hit.filename = entry.filename ∧ hit.contentType = entry.contentType ∧
    hit.classification = entry.classification

/-- What OpenSearch promises over fields with these tokens, where its queries find these
entries: those that the term clauses select, as far as a search of texts keeps them. Whether
it answers does not depend on the indexed documents, and it answers no page that ends past
the window. The hits are a page of the found entries in some order, and counted up to a
bound. Order and scores may depend on the whole index; where no texts are searched, on what
the clauses read of the entries that are not found. -/
structure AnswersQueries (found : SearchBody → SearchDocument → Bool)
    (openSearch : Table SearchDocument.id → SearchBody → Option OpenSearchReply) : Prop where
  selects : ∀ body entry, found body entry → body.selects tokens entry
  terms : ∀ body entry, ¬ body.hasText → body.selects tokens entry → found body entry
  available : ∀ index index' body,
    (openSearch index body).isSome = (openSearch index' body).isSome
  window : ∀ index body, resultWindow < body.«from» + body.size → openSearch index body = none
  page : ∀ index body reply, openSearch index body = some reply →
    ∃ ranked, ranked.Perm (index.rows.filter (found body)) ∧
      reply.total = min ranked.length SearchEngine.countedHits ∧
      List.Forall₂ Shows (slice body.«from».toNat body.size.toNat ranked) reply.hits
  alike : ∀ index index' body, ¬ body.hasText →
    index.rows.map body.view = index'.rows.map body.view →
    index.rows.filter (found body) = index'.rows.filter (found body) →
    openSearch index body = openSearch index' body

end Index

section Search

variable (P : Platform) (tenantId query : String) (page pageSize : ℤ)
  (classification contentType : Option String)

/-- The search may find the entry, one of Protected B with whatever content type it can have. -/
def MayFind (tokens : String → List String) (entry : SearchDocument) : Prop :=
  tenantId ∈ tokens entry.tenantId ∧ finds tokens classification entry.classification.value ∧
    if entry.classification = .protectedB then
      ∃ value, P.dialect.takes 255 value ∧ finds tokens contentType value
    else finds tokens contentType entry.contentType

open Classical in
/-- The page ends past the result window; or no indexed document is Protected B; or none that
the search may find is, while the page starts after all of them or neither texts nor content
types are asked for; or the page starts after all of them, no texts are asked for and every
content type that a document can have is found. -/
def IndexOpen (tokens : String → List String) (index : Table SearchDocument.id) : Prop :=
  let past := index.rows.countP (MayFind P tenantId classification contentType tokens ·) ≤
    ((page - 1) * pageSize).toNat
  resultWindow < (page - 1) * pageSize + pageSize ∨
  (∀ entry ∈ index.rows, entry.classification ≠ .protectedB) ∨
  ((∀ entry ∈ index.rows, MayFind P tenantId classification contentType tokens entry →
      entry.classification ≠ .protectedB) ∧
    (past ∨ (query.isEmpty ∧ DocumentRepository.given contentType = none))) ∨
  (past ∧ query.isEmpty ∧
    ∀ value, P.dialect.takes 255 value → finds tokens contentType value)

end Search

/-! ### What the condition is enough for -/

section Enough

variable {P : Platform} {tokens : String → List String}
  {openSearch : Table SearchDocument.id → SearchBody → Option OpenSearchReply}
  {tenantId query : String} {page pageSize : ℤ}
  {classification contentType : Option String} {w w' : World}

theorem filter_eq_of_forall₂ {α : Type} {R : α → α → Prop} {p : α → Bool} {rows rows' : List α}
    (h : List.Forall₂ R rows rows')
    (hp : ∀ r ∈ rows, ∀ r' ∈ rows', R r r' → r = r' ∨ (p r = false ∧ p r' = false)) :
    rows.filter p = rows'.filter p := by
  induction h with
  | nil => rfl
  | @cons r r' rows rows' hr _ ih =>
    have htail := ih fun x hx x' hx' => hp x (List.mem_cons_of_mem _ hx) x'
      (List.mem_cons_of_mem _ hx')
    rcases hp r (List.mem_cons_self ..) r' (List.mem_cons_self ..) hr with rfl | ⟨hfalse, hfalse'⟩
    · rw [List.filter_cons, List.filter_cons, htail]
    · rw [List.filter_cons_of_neg (by simp [hfalse]), List.filter_cons_of_neg (by simp [hfalse']),
        htail]

theorem length_filter_of_forall₂ {α : Type} {R : α → α → Prop} {p : α → Bool}
    {rows rows' : List α} (h : List.Forall₂ R rows rows') (hp : ∀ r r', R r r' → p r = p r') :
    (rows.filter p).length = (rows'.filter p).length := by
  induction h with
  | nil => rfl
  | cons hr _ ih =>
    rw [List.filter_cons, List.filter_cons, ← hp _ _ hr]
    split <;> simp [ih]

theorem countP_eq_of_forall₂ {α : Type} {R : α → α → Prop} {p : α → Bool} {rows rows' : List α}
    (h : List.Forall₂ R rows rows') (hp : ∀ r r', R r r' → p r = p r') :
    rows.countP p = rows'.countP p := by
  rw [List.countP_eq_length_filter, List.countP_eq_length_filter, length_filter_of_forall₂ h hp]

/-- Past the found entries a reply is their number. -/
theorem reply_past_end {found : SearchBody → SearchDocument → Bool}
    (hengine : AnswersQueries tokens found openSearch)
    {index : Table SearchDocument.id} {body : SearchBody} {reply : OpenSearchReply}
    (hreply : openSearch index body = some reply)
    (hpast : index.rows.countP (found body) ≤ body.«from».toNat) :
    reply = ⟨[], min (index.rows.countP (found body)) SearchEngine.countedHits⟩ := by
  obtain ⟨ranked, hperm, htotal, hhits⟩ := hengine.page _ _ _ hreply
  rw [List.countP_eq_length_filter] at hpast ⊢
  rw [slice, List.drop_eq_nil_of_le (hperm.length_eq.trans_le hpast), List.take_nil,
    List.forall₂_nil_left_iff] at hhits
  rw [hperm.length_eq] at htotal
  cases reply
  simp_all

theorem mayFind_iff_of_sameEntry {entry entry' : SearchDocument} (h : SameEntry entry entry') :
    MayFind P tenantId classification contentType tokens entry ↔
      MayFind P tenantId classification contentType tokens entry' := by
  rcases h with rfl | ⟨-, ht, hpb, hpb'⟩
  · exact Iff.rfl
  · simp only [MayFind, ht, hpb, hpb', if_true]

theorem mayFind_of_selects {entry : SearchDocument} (hfits : entry.fits P.dialect)
    (h : (SearchService.searchBody tenantId query page pageSize classification contentType).selects
      tokens entry) : MayFind P tenantId classification contentType tokens entry := by
  obtain ⟨ht, hclass, htype⟩ := (selects_searchBody tokens).mp h
  refine ⟨ht, hclass, ?_⟩
  split_ifs
  · exact ⟨_, takes_entry hfits, htype⟩
  · exact htype

theorem view_of_sameEntry (hquery : query.isEmpty)
    (htype : DocumentRepository.given contentType = none) {entry entry' : SearchDocument}
    (h : SameEntry entry entry') :
    (SearchService.searchBody tenantId query page pageSize classification contentType).view entry =
      (SearchService.searchBody tenantId query page pageSize classification contentType).view
        entry' := by
  rcases h with rfl | ⟨hid, ht, hpb, hpb'⟩
  · rfl
  · refine Prod.ext hid (funext fun field => ?_)
    -- the clauses read the tenant and the classification
    have hfield : ∀ name value, .term name value ∈ (SearchService.searchBody tenantId query page
        pageSize classification contentType).must →
          entry.fieldValue name = entry'.fieldValue name := by
      intro name value hclause
      simp only [SearchService.searchBody, hquery, htype, if_true, Option.toList_none,
        List.map_nil, List.append_nil, List.nil_append, List.mem_cons, List.mem_map,
        Clause.term.injEq] at hclause
      rcases hclause with ⟨rfl, -⟩ | ⟨_, -, rfl, -⟩
      · exact congrArg some ht
      · exact congrArg (some ∘ ClassificationLevel.value) (hpb.trans hpb'.symm)
    simp only [SearchBody.view]
    split_ifs with hany
    · obtain ⟨clause, hclause, hname⟩ := List.any_eq_true.mp hany
      cases clause with
      | term name value => exact of_decide_eq_true hname ▸ hfield name value hclause
      | multiMatch query fields => cases hname
    · rfl

section Found

variable {found : SearchBody → SearchDocument → Bool}
  (hengine : AnswersQueries tokens found openSearch) (h : AgreeOpen w w')
  (hfits : w.Fits P.dialect) (hfits' : w'.Fits P.dialect)
include hengine

theorem mayFind_of_found (hfits : w.Fits P.dialect) :
    ∀ entry ∈ w.searchIndex.rows, found (SearchService.searchBody tenantId query page pageSize
      classification contentType) entry → MayFind P tenantId classification contentType tokens
        entry := fun entry hentry hfound =>
  mayFind_of_selects (hfits.searchIndex entry hentry) (hengine.selects _ _ hfound)

open Classical in
/-- Past the entries that may be found the replies are equal where the numbers are. -/
theorem openSearch_eq_of_past
    (hfits : w.Fits P.dialect)
    (hpast : w.searchIndex.rows.countP (MayFind P tenantId classification contentType tokens ·) ≤
      ((page - 1) * pageSize).toNat)
    (hfound : w.searchIndex.rows.countP (found (SearchService.searchBody tenantId query page
        pageSize classification contentType)) =
      w'.searchIndex.rows.countP (found (SearchService.searchBody tenantId query page pageSize
        classification contentType))) :
    openSearch w.searchIndex
        (SearchService.searchBody tenantId query page pageSize classification contentType) =
      openSearch w'.searchIndex
        (SearchService.searchBody tenantId query page pageSize classification contentType) := by
  set body := SearchService.searchBody tenantId query page pageSize classification contentType
    with hbody
  have hle : w.searchIndex.rows.countP (found body) ≤ body.«from».toNat :=
    (List.countP_mono_left fun entry hentry hf =>
      decide_eq_true (mayFind_of_found hengine hfits entry hentry hf)).trans hpast
  have havailable := hengine.available w.searchIndex w'.searchIndex body
  cases hreply : openSearch w.searchIndex body <;>
    cases hreply' : openSearch w'.searchIndex body <;>
    simp only [hreply, hreply', Option.isSome_none, Option.isSome_some] at havailable ⊢
  · cases havailable
  · cases havailable
  · rw [reply_past_end hengine hreply hle, reply_past_end hengine hreply' (hfound ▸ hle), hfound]

include h hfits hfits'

theorem found_eq_of_unfound
    (hnone : ∀ entry ∈ w.searchIndex.rows, MayFind P tenantId classification contentType tokens
      entry → entry.classification ≠ .protectedB) :
    w.searchIndex.rows.filter (found (SearchService.searchBody tenantId query page pageSize
        classification contentType)) =
      w'.searchIndex.rows.filter (found (SearchService.searchBody tenantId query page pageSize
        classification contentType)) := by
  refine filter_eq_of_forall₂ h.searchIndex fun entry hentry entry' hentry' hsame =>
    hsame.imp_right fun hdiffer => ?_
  have hnot : ¬ MayFind P tenantId classification contentType tokens entry := fun hm =>
    hnone entry hentry hm hdiffer.2.2.1
  have hnot' := hnot
  rw [mayFind_iff_of_sameEntry hsame] at hnot'
  exact ⟨Bool.eq_false_iff.mpr fun hf => hnot (mayFind_of_found hengine hfits entry hentry hf),
    Bool.eq_false_iff.mpr fun hf => hnot' (mayFind_of_found hengine hfits' entry' hentry' hf)⟩

open Classical in
theorem countP_found_eq (hquery : query.isEmpty)
    (htype : ∀ value, P.dialect.takes 255 value → finds tokens contentType value) :
    w.searchIndex.rows.countP (found (SearchService.searchBody tenantId query page pageSize
        classification contentType)) =
      w'.searchIndex.rows.countP (found (SearchService.searchBody tenantId query page pageSize
        classification contentType)) := by
  have hall : ∀ {u : World}, u.Fits P.dialect → u.searchIndex.rows.countP (found
      (SearchService.searchBody tenantId query page pageSize classification contentType)) =
        u.searchIndex.rows.countP (MayFind P tenantId classification contentType tokens ·) := by
    intro u hu
    refine List.countP_congr fun entry hentry => ?_
    rw [decide_eq_true_eq]
    refine ⟨mayFind_of_found hengine hu entry hentry, fun hm => hengine.terms _ _ ?_ ?_⟩
    · rw [hasText_searchBody, hquery]
      decide
    · exact (selects_searchBody tokens).mpr
        ⟨hm.1, hm.2.1, htype _ (takes_entry (hu.searchIndex entry hentry))⟩
  rw [hall hfits, hall hfits']
  exact countP_eq_of_forall₂ h.searchIndex fun entry entry' hsame => by
    simp only [mayFind_iff_of_sameEntry hsame]

theorem openSearch_eq
    (hopen : IndexOpen P tenantId query page pageSize classification contentType tokens
      w.searchIndex) :
    openSearch w.searchIndex
        (SearchService.searchBody tenantId query page pageSize classification contentType) =
      openSearch w'.searchIndex
        (SearchService.searchBody tenantId query page pageSize classification contentType) := by
  rcases hopen with hwindow | hnone | ⟨hnone, hpast | ⟨hquery, htype⟩⟩ | ⟨hpast, hquery, htype⟩
  · rw [hengine.window _ _ hwindow, hengine.window _ _ hwindow]
  · have hrows : List.Forall₂ Eq w.searchIndex.rows w'.searchIndex.rows :=
      ((List.forall₂_and_left _ _).mpr ⟨hnone, h.searchIndex⟩).imp fun entry entry' hentry =>
        hentry.2.resolve_right fun hpb => hentry.1 hpb.2.2.1
    rw [List.forall₂_eq_eq_eq] at hrows
    rw [Table.ext hrows]
  · refine openSearch_eq_of_past hengine hfits hpast ?_
    rw [List.countP_eq_length_filter, List.countP_eq_length_filter,
      found_eq_of_unfound hengine h hfits hfits' hnone]
  · refine hengine.alike _ _ _ ?_ ?_ (found_eq_of_unfound hengine h hfits hfits' hnone)
    · rw [hasText_searchBody, hquery]
      decide
    · rw [← List.forall₂_eq_eq_eq, List.forall₂_map_left_iff, List.forall₂_map_right_iff]
      exact h.searchIndex.imp fun entry entry' => view_of_sameEntry hquery htype
  · exact openSearch_eq_of_past hengine hfits hpast
      (countP_found_eq hengine h hfits hfits' hquery htype)

end Found

end Enough

/-! ### What it is needed for -/

/-- An engine behind the result window, whose scores depend on the index. -/
def scoredAnswer (E : SearchEngine) (score : Table SearchDocument.id → SearchBody → ℚ)
    (index : Table SearchDocument.id) (body : SearchBody) : Option OpenSearchReply :=
  if body.«from» + body.size ≤ resultWindow then
    { E with score := fun _ _ => some (score index body) }.answer index body
  else none

/-- What a score may tell of a document: its filename, where texts are searched or it is
found, else its content type, where a clause reads it. -/
def tells (E : SearchEngine) (type : String) (body : SearchBody) (entry : SearchDocument) : Bool :=
  if body.hasText || E.isMatch body entry then entry.filename = "a"
  else (body.view entry).2 "content_type" = some type

def telltale (E : SearchEngine) (d : UUID) (type : String) (index : Table SearchDocument.id)
    (body : SearchBody) : ℚ :=
  if (index.get d).any (tells E type body) then 1 else 0

theorem get_map_view (index : Table SearchDocument.id) (d : UUID) (body : SearchBody) :
    (index.get d).map body.view = (index.rows.map body.view).find? (·.1 = d) := by
  rw [List.find?_map]
  rfl

theorem telltale_alike {E : SearchEngine} {d : UUID} {type : String}
    {index index' : Table SearchDocument.id} {body : SearchBody} (htext : ¬ body.hasText)
    (hview : index.rows.map body.view = index'.rows.map body.view)
    (hfound : index.rows.filter (E.isMatch body) = index'.rows.filter (E.isMatch body)) :
    telltale E d type index body = telltale E d type index' body := by
  have hsame : (index.get d).map body.view = (index'.get d).map body.view := by
    rw [get_map_view, get_map_view, hview]
  -- a found entry of one is the entry of the other
  have hget : ∀ {index index' : Table SearchDocument.id} {entry : SearchDocument},
      index.rows.filter (E.isMatch body) = index'.rows.filter (E.isMatch body) →
      index.get d = some entry → E.isMatch body entry → index'.get d = some entry := by
    intro index index' entry hfound hget hmatch
    obtain ⟨hmem, hid⟩ := Table.get_eq_some_iff.mp hget
    have hmem' : entry ∈ index'.rows.filter (E.isMatch body) :=
      hfound ▸ List.mem_filter.mpr ⟨hmem, hmatch⟩
    exact Table.get_eq_some_iff.mpr ⟨List.mem_of_mem_filter hmem', hid⟩
  unfold telltale
  cases hentry : index.get d with
  | none =>
    rw [hentry, Option.map_none, eq_comm, Option.map_eq_none_iff] at hsame
    rw [hsame]
  | some entry =>
    rw [hentry, Option.map_some, eq_comm, Option.map_eq_some_iff] at hsame
    obtain ⟨entry', hentry', hviews⟩ := hsame
    by_cases hmatch : E.isMatch body entry
    · rw [hget hfound hentry hmatch]
    · have hmatch' : ¬ E.isMatch body entry' := fun hm => by
        have hback := hget hfound.symm hentry' hm
        rw [hentry] at hback
        exact hmatch (Option.some.inj hback ▸ hm)
      rw [hentry']
      simp only [Option.any_some, tells, htext, hmatch, hmatch', Bool.or_self, Bool.false_eq_true,
        if_false, hviews]

/-- The reply of an engine depends on the found entries only. -/
theorem answer_congr {E : SearchEngine} {index index' : Table SearchDocument.id}
    {body : SearchBody}
    (h : index.rows.filter (E.isMatch body) = index'.rows.filter (E.isMatch body)) :
    E.answer index body = E.answer index' body := by
  simp only [SearchEngine.answer, h]

theorem answersQueries_scoredAnswer (E : SearchEngine) (d : UUID) (type : String) :
    AnswersQueries E.tokens E.isMatch (scoredAnswer E (telltale E d type)) where
  selects := fun _ _ hmatch => (Bool.and_eq_true_iff.mp hmatch).1
  terms := by
    intro body entry hterms hselects
    refine Bool.and_eq_true_iff.mpr ⟨hselects, List.all_eq_true.mpr fun clause hclause => ?_⟩
    cases clause with
    | term field value => rfl
    | multiMatch query fields => exact absurd (List.any_eq_true.mpr ⟨_, hclause, rfl⟩) hterms
  available := by
    intro index index' body
    unfold scoredAnswer
    split_ifs <;> rfl
  window := fun _ _ hwindow => if_neg (not_le.mpr hwindow)
  page := by
    intro index body reply hreply
    unfold scoredAnswer at hreply
    split_ifs at hreply
    cases hreply
    have hperm := (E.rank body.must).perm (index.rows.filter (E.isMatch body))
    exact ⟨_, hperm, by rw [hperm.length_eq]; rfl, List.forall₂_map_right_iff.mpr
      (List.forall₂_same.mpr fun _ _ => ⟨rfl, rfl, rfl, rfl⟩)⟩
  alike := by
    intro index index' body htext hview hfound
    unfold scoredAnswer
    rw [telltale_alike htext hview hfound]
    split_ifs
    · exact answer_congr hfound
    · rfl

/-- An engine whose searches of texts keep the documents with these filenames. -/
noncomputable def nameEngine (tokens : String → List String) (keeps : String → Bool) :
    SearchEngine where
  tokens := tokens
  fullText := fun _ _ entry => keeps entry.filename
  rank := fun _ => default
  score := fun _ _ => none
  highlight := fun _ _ => []
  readDateTime := fun _ => exampleTime

theorem isMatch_nameEngine {tokens : String → List String} {keeps : String → Bool}
    {body : SearchBody} {entry : SearchDocument} : (nameEngine tokens keeps).isMatch body entry ↔
      body.selects tokens entry ∧ (body.hasText → keeps entry.filename) := by
  rw [SearchEngine.isMatch, Bool.and_eq_true, List.all_eq_true, SearchBody.hasText,
    List.any_eq_true]
  refine and_congr_right fun _ => ⟨?_, fun h clause hclause => ?_⟩
  · rintro h ⟨clause, hclause, htext⟩
    cases clause with
    | term field value => cases htext
    | multiMatch query fields => exact h _ hclause
  · cases clause with
    | term field value => rfl
    | multiMatch query fields => exact h ⟨_, hclause, rfl⟩

theorem answersQueries_none (tokens : String → List String) :
    AnswersQueries tokens (fun body => body.selects tokens) fun _ _ => none where
  selects := fun _ _ h => h
  terms := fun _ _ _ h => h
  available := fun _ _ _ => rfl
  window := fun _ _ _ => rfl
  page := fun _ _ _ hreply => by cases hreply
  alike := fun _ _ _ _ _ _ => rfl

def SearchDocument.redact (contentType filename : String) (entry : SearchDocument) :
    SearchDocument :=
  if entry.classification = .protectedB then
    { entry with filename := filename, contentType := contentType }
  else entry

theorem sameEntry_redact (contentType filename : String) (entry : SearchDocument) :
    SameEntry entry (entry.redact contentType filename) := by
  unfold SearchDocument.redact
  split
  · next hpb => exact Or.inr ⟨rfl, rfl, hpb, hpb⟩
  · exact Or.inl rfl

def World.redactIndex (w : World) (contentType filename : String) : World :=
  { w with
    searchIndex := w.searchIndex.update (SearchDocument.redact contentType filename)
      fun entry _ => (sameEntry_redact contentType filename entry).id_eq.symm }

theorem agreeOpen_redactIndex (w : World) (contentType filename : String) :
    AgreeOpen w (w.redactIndex contentType filename) where
  documents := List.forall₂_same.mpr fun _ _ => Or.inl rfl
  searchIndex := List.forall₂_map_right_iff.mpr
    (List.forall₂_same.mpr fun entry _ => sameEntry_redact contentType filename entry)
  audit := rfl
  caseAssignments := rfl
  objects := fun backend _ _ => by cases backend <;> rfl

theorem fits_redactIndex {dialect : Dialect} {w : World} (h : w.Fits dialect)
    {contentType filename : String} (htype : dialect.takes 255 contentType)
    (hname : dialect.takes 1024 filename) : (w.redactIndex contentType filename).Fits dialect := by
  refine ⟨h.documents, fun entry' hentry' => ?_⟩
  obtain ⟨entry, hentry, rfl⟩ := List.mem_map.mp hentry'
  have hfits := h.searchIndex entry hentry
  unfold SearchDocument.redact
  split
  · cases dialect with
    | sqlite => rfl
    | postgresql =>
      simp only [SearchDocument.fits, Bool.and_eq_true] at hfits ⊢
      exact ⟨⟨⟨hfits.1.1.1, hname⟩, htype⟩, hfits.2⟩
  · exact hfits

section Needed

variable {P : Platform} {inp : Inputs} {tokens : String → List String} {tenantId query : String}
  {page pageSize : ℤ} {classification contentType : Option String} {w : World}

theorem selects_redact_iff {entry : SearchDocument} {type filename : String} :
    (SearchService.searchBody tenantId query page pageSize classification contentType).selects
      tokens (entry.redact type filename) ↔ tenantId ∈ tokens entry.tenantId ∧
        finds tokens classification entry.classification.value ∧
          if entry.classification = .protectedB then finds tokens contentType type = true
          else finds tokens contentType entry.contentType = true := by
  rw [selects_searchBody, SearchDocument.redact]
  split_ifs <;> rfl

/-- The answers through OpenSearch are the same whatever content type and filename the
indexed Protected B documents have. -/
def IndexAnswersAlike (P : Platform) (inp : Inputs) (tokens : String → List String)
    (tenantId query : String) (page pageSize : ℤ) (classification contentType : Option String)
    (w : World) : Prop :=
  ∀ found openSearch, AnswersQueries tokens found openSearch → ∀ type type' filename filename',
    P.dialect.takes 255 type → P.dialect.takes 255 type' → P.dialect.takes 1024 filename →
    P.dialect.takes 1024 filename' →
    searchAnswer P tenantId query page pageSize classification contentType
        { inp with openSearch := openSearch } (w.redactIndex type filename) =
      searchAnswer P tenantId query page pageSize classification contentType
        { inp with openSearch := openSearch } (w.redactIndex type' filename')

theorem searchAnswer_scoredAnswer {E : SearchEngine}
    {score : Table SearchDocument.id → SearchBody → ℚ}
    (hwindow : (page - 1) * pageSize + pageSize ≤ resultWindow) (u : World) :
    let body := SearchService.searchBody tenantId query page pageSize classification contentType
    let found := u.searchIndex.rows.filter (E.isMatch body)
    searchAnswer P tenantId query page pageSize classification contentType
        { inp with openSearch := scoredAnswer E score } u =
      some { query := query, total := min found.length SearchEngine.countedHits
             page := page, pageSize := pageSize, backend := "opensearch"
             results := ((slice ((page - 1) * pageSize).toNat pageSize.toNat
               ((E.rank body.must).read found)).map
                 ({ E with score := fun _ _ => some (score u.searchIndex body) }.hit
                   body.must)).map SearchService.hitOfReply } := by
  have hreply : scoredAnswer E score u.searchIndex
      (SearchService.searchBody tenantId query page pageSize classification contentType) =
        { E with score := fun _ _ => some (score u.searchIndex (SearchService.searchBody tenantId
          query page pageSize classification contentType)) }.answer u.searchIndex
            (SearchService.searchBody tenantId query page pageSize classification contentType) :=
    if_pos hwindow
  simp only [searchAnswer, hreply, SearchEngine.answer]
  rfl

theorem get_redactIndex {secret : SearchDocument} (hsecret : secret ∈ w.searchIndex.rows)
    (type filename : String) : (w.redactIndex type filename).searchIndex.get secret.id =
      some (secret.redact type filename) := by
  have hget : w.searchIndex.get secret.id = some secret :=
    Table.get_eq_some_iff.mpr ⟨hsecret, rfl⟩
  rw [World.redactIndex, Table.get_update, hget, Option.map_some]

open Classical in
theorem countP_redactIndex {type : String} (htype : finds tokens contentType type ↔
      ∃ value, P.dialect.takes 255 value ∧ finds tokens contentType value) (filename : String) :
    (w.redactIndex type filename).searchIndex.rows.countP ((nameEngine tokens fun _ => true).isMatch
        (SearchService.searchBody tenantId query page pageSize classification contentType)) =
      w.searchIndex.rows.countP (MayFind P tenantId classification contentType tokens ·) := by
  refine (List.countP_map ..).trans (List.countP_congr fun entry _ => ?_)
  rw [decide_eq_true_eq, Function.comp_apply, isMatch_nameEngine, and_iff_left fun _ => rfl,
    selects_redact_iff, htype, MayFind]

/-- On a page that is not past the end the scores tell nothing of a document. -/
theorem tells_alike
    (h : IndexAnswersAlike P inp tokens tenantId query page pageSize classification contentType w)
    (hwindow : (page - 1) * pageSize + pageSize ≤ resultWindow) (hsize : 1 ≤ pageSize)
    (keeps : String → Bool) {secret : SearchDocument} (hsecret : secret ∈ w.searchIndex.rows)
    {type type' filename filename' : String} (htype : P.dialect.takes 255 type)
    (htype' : P.dialect.takes 255 type') (hname : P.dialect.takes 1024 filename)
    (hname' : P.dialect.takes 1024 filename')
    (hlt : ((page - 1) * pageSize).toNat < (w.redactIndex type filename).searchIndex.rows.countP
      ((nameEngine tokens keeps).isMatch
        (SearchService.searchBody tenantId query page pageSize classification contentType))) :
    tells (nameEngine tokens keeps) type
        (SearchService.searchBody tenantId query page pageSize classification contentType)
        (secret.redact type filename) =
      tells (nameEngine tokens keeps) type
        (SearchService.searchBody tenantId query page pageSize classification contentType)
        (secret.redact type' filename') := by
  set body := SearchService.searchBody tenantId query page pageSize classification contentType
    with hbody
  set E := nameEngine tokens keeps
  set ranked := (E.rank body.must).read
    ((w.redactIndex type filename).searchIndex.rows.filter (E.isMatch body)) with hranked
  have hlength : ((page - 1) * pageSize).toNat < ranked.length := by
    rwa [hranked, ((E.rank body.must).perm _).length_eq, ← List.countP_eq_length_filter]
  have hanswers := h _ _ (answersQueries_scoredAnswer E secret.id type) type type' filename
    filename' htype htype' hname hname'
  rw [searchAnswer_scoredAnswer hwindow, searchAnswer_scoredAnswer hwindow] at hanswers
  simp only [← hbody, Option.some.injEq, SearchResponse.mk.injEq] at hanswers
  obtain ⟨-, -, -, -, -, hresults⟩ := hanswers
  have hshown := mem_slice_of_getElem? (List.getElem?_eq_getElem hlength) le_rfl
    (Nat.lt_add_of_pos_right (show 0 < pageSize.toNat by omega))
  have hmem := List.mem_map_of_mem (f := SearchService.hitOfReply) (List.mem_map_of_mem
    (f := { E with score := fun _ _ => some (telltale E secret.id type
      (w.redactIndex type filename).searchIndex body) }.hit body.must) hshown)
  rw [hresults] at hmem
  obtain ⟨reply, hreply, heq⟩ := List.mem_map.mp hmem
  obtain ⟨entry, -, rfl⟩ := List.mem_map.mp hreply
  have hscore : telltale E secret.id type (w.redactIndex type' filename').searchIndex body =
      telltale E secret.id type (w.redactIndex type filename).searchIndex body :=
    congrArg SearchHit.score heq
  simp only [telltale, get_redactIndex hsecret, Option.any_some] at hscore
  cases htells : tells E type body (secret.redact type filename) <;>
    cases htells' : tells E type body (secret.redact type' filename') <;>
    simp [htells, htells'] at hscore ⊢

theorem countP_lt_countP {α : Type} {p q : α → Bool} {l : List α} (hpq : ∀ a ∈ l, p a → q a)
    {a : α} (ha : a ∈ l) (hq : q a) (hp : ¬ p a) : l.countP p < l.countP q := by
  obtain ⟨before, after, rfl⟩ := List.append_of_mem ha
  have hbefore := List.countP_mono_left fun b hb => hpq b (List.mem_append_left _ hb)
  have hafter := List.countP_mono_left fun b hb =>
    hpq b (List.mem_append_right _ (List.mem_cons_of_mem _ hb))
  rw [List.countP_append, List.countP_append, List.countP_cons_of_pos hq,
    List.countP_cons_of_neg hp]
  omega

theorem mayFind_of_selects_redact {entry : SearchDocument} {type filename : String}
    (htakes : P.dialect.takes 255 type)
    (h : (SearchService.searchBody tenantId query page pageSize classification contentType).selects
      tokens (entry.redact type filename)) :
    MayFind P tenantId classification contentType tokens entry := by
  obtain ⟨ht, hclass, htype⟩ := selects_redact_iff.mp h
  refine ⟨ht, hclass, ?_⟩
  split_ifs at htype ⊢
  · exact ⟨type, htakes, htype⟩
  · exact htype

open Classical in
/-- Past the end the total tells whether the Protected B documents are found. -/
theorem not_lost_past_found (keeps : String → Bool)
    (h : IndexAnswersAlike P inp tokens tenantId query page pageSize classification contentType w)
    (hwindow : (page - 1) * pageSize + pageSize ≤ resultWindow) (hsize : 1 ≤ pageSize)
    (hpast : w.searchIndex.rows.countP (MayFind P tenantId classification contentType tokens ·) ≤
      ((page - 1) * pageSize).toNat)
    {type type' filename filename' : String}
    (htype : P.dialect.takes 255 type) (htype' : P.dialect.takes 255 type')
    (hname : P.dialect.takes 1024 filename) (hname' : P.dialect.takes 1024 filename')
    {entry : SearchDocument} (hentry : entry ∈ w.searchIndex.rows)
    (hpb : entry.classification = .protectedB)
    (hfound : (nameEngine tokens keeps).isMatch (SearchService.searchBody tenantId query page
      pageSize classification contentType) (entry.redact type filename)) :
    ∃ entry ∈ w.searchIndex.rows, entry.classification = .protectedB ∧
      (nameEngine tokens keeps).isMatch (SearchService.searchBody tenantId query page pageSize
        classification contentType) (entry.redact type' filename') := by
  by_contra hlost
  set body := SearchService.searchBody tenantId query page pageSize classification contentType
    with hbody
  set E := nameEngine tokens keeps
  have hlt : w.searchIndex.rows.countP (fun e => E.isMatch body (e.redact type' filename')) <
      w.searchIndex.rows.countP fun e => E.isMatch body (e.redact type filename) := by
    refine countP_lt_countP (fun e he hf => ?_) hentry hfound fun hf =>
      hlost ⟨entry, hentry, hpb, hf⟩
    have hother : e.classification ≠ .protectedB := fun hp => hlost ⟨e, he, hp, hf⟩
    simpa only [SearchDocument.redact, if_neg hother] using hf
  have hle : w.searchIndex.rows.countP (fun e => E.isMatch body (e.redact type filename)) ≤
      ((page - 1) * pageSize).toNat :=
    (List.countP_mono_left fun e _ hf => decide_eq_true
      (mayFind_of_selects_redact htype (isMatch_nameEngine.mp hf).1)).trans hpast
  have hanswers := h _ _ (answersQueries_scoredAnswer E entry.id type) type type' filename
    filename' htype htype' hname hname'
  rw [searchAnswer_scoredAnswer hwindow, searchAnswer_scoredAnswer hwindow] at hanswers
  have htotal := congrArg SearchResponse.total (Option.some.inj hanswers)
  have hcount : ∀ type filename,
      ((w.redactIndex type filename).searchIndex.rows.filter (E.isMatch body)).length =
        w.searchIndex.rows.countP fun e => E.isMatch body (e.redact type filename) := fun _ _ =>
    List.countP_eq_length_filter.symm.trans (List.countP_map ..)
  simp only [← hbody, hcount, SearchEngine.countedHits] at htotal
  simp only [resultWindow] at hwindow
  omega

theorem view_contentType {c : String} (hgiven : DocumentRepository.given contentType = some c)
    (entry : SearchDocument) :
    ((SearchService.searchBody tenantId query page pageSize classification contentType).view
      entry).2 "content_type" = some entry.contentType := by
  simp [SearchBody.view, SearchService.searchBody, hgiven, SearchDocument.fieldValue]

variable (P tokens contentType) in
theorem exists_found_type : ∃ type, P.dialect.takes 255 type ∧ (finds tokens contentType type ↔
    ∃ value, P.dialect.takes 255 value ∧ finds tokens contentType value) := by
  by_cases hex : ∃ value, P.dialect.takes 255 value ∧ finds tokens contentType value
  · obtain ⟨value, htakes, hfinds⟩ := hex
    exact ⟨value, htakes, iff_of_true hfinds ⟨value, htakes, hfinds⟩⟩
  · exact ⟨"a", takes_a.2, iff_of_false (fun hfinds => hex ⟨"a", takes_a.2, hfinds⟩) hex⟩

theorem isMatch_redact {keeps : String → Bool} {entry : SearchDocument} {type filename : String}
    (htype : finds tokens contentType type ↔
      ∃ value, P.dialect.takes 255 value ∧ finds tokens contentType value)
    (hmay : MayFind P tenantId classification contentType tokens entry)
    (hkeeps : keeps (entry.redact type filename).filename) :
    (nameEngine tokens keeps).isMatch (SearchService.searchBody tenantId query page pageSize
      classification contentType) (entry.redact type filename) :=
  isMatch_nameEngine.mpr ⟨selects_redact_iff.mpr (by rwa [htype]), fun _ => hkeeps⟩

open Classical in
/-- Past the end the total tells nothing of a Protected B document that may be found only
where every filename and content type is. -/
theorem open_of_past
    (h : IndexAnswersAlike P inp tokens tenantId query page pageSize classification contentType w)
    (hwindow : (page - 1) * pageSize + pageSize ≤ resultWindow) (hsize : 1 ≤ pageSize)
    (hpast : w.searchIndex.rows.countP (MayFind P tenantId classification contentType tokens ·) ≤
      ((page - 1) * pageSize).toNat)
    {entry : SearchDocument} (hentry : entry ∈ w.searchIndex.rows)
    (hmay : MayFind P tenantId classification contentType tokens entry)
    (hpb : entry.classification = .protectedB) :
    query.isEmpty ∧ ∀ value, P.dialect.takes 255 value → finds tokens contentType value := by
  obtain ⟨type, htakes, htype⟩ := exists_found_type P tokens contentType
  refine ⟨?_, fun value hvalue => ?_⟩
  · -- one filename is kept, the other is not
    by_contra hquery
    obtain ⟨other, -, hother, hfound⟩ := not_lost_past_found (· ≠ "b") h hwindow hsize hpast
      htakes htakes takes_a.1 takes_b.1 hentry hpb
      (isMatch_redact htype hmay (by simp [SearchDocument.redact, hpb]))
    have hkept := (isMatch_nameEngine.mp hfound).2 (by simp [hasText_searchBody, hquery])
    simp [SearchDocument.redact, hother] at hkept
  · obtain ⟨other, -, hother, hfound⟩ := not_lost_past_found (fun _ => true) h hwindow hsize hpast
      htakes hvalue takes_a.1 takes_a.1 hentry hpb (isMatch_redact htype hmay rfl)
    have hfinds := (selects_redact_iff.mp (isMatch_nameEngine.mp hfound).1).2.2
    rwa [if_pos hother] at hfinds

open Classical in
/-- Before the end the scores tell of every document that may be found, and of the others
what the query and the filter of content types read. -/
theorem open_of_shown
    (h : IndexAnswersAlike P inp tokens tenantId query page pageSize classification contentType w)
    (hwindow : (page - 1) * pageSize + pageSize ≤ resultWindow) (hsize : 1 ≤ pageSize)
    (hshown : ((page - 1) * pageSize).toNat <
      w.searchIndex.rows.countP (MayFind P tenantId classification contentType tokens ·))
    {secret : SearchDocument} (hsecret : secret ∈ w.searchIndex.rows)
    (hpb : secret.classification = .protectedB) :
    ¬ MayFind P tenantId classification contentType tokens secret ∧ query.isEmpty ∧
      DocumentRepository.given contentType = none := by
  obtain ⟨type, htakes, htype⟩ := exists_found_type P tokens contentType
  rw [← countP_redactIndex htype "a"] at hshown
  have htells := fun {type'} (htakes' : P.dialect.takes 255 type') {filename'}
      (hname' : P.dialect.takes 1024 filename') =>
    tells_alike h hwindow hsize (fun _ => true) hsecret htakes htakes' takes_a.1 hname' hshown
  have hunfound : ¬ MayFind P tenantId classification contentType tokens secret := by
    intro hmay
    have hname := htells htakes takes_b.1
    rw [tells, tells, isMatch_redact htype hmay rfl, isMatch_redact htype hmay rfl, Bool.or_true,
      if_pos rfl, if_pos rfl] at hname
    simp [SearchDocument.redact, hpb] at hname
  have hquery : query.isEmpty := by
    by_contra hquery
    have hname := htells htakes takes_b.1
    rw [tells, tells, hasText_searchBody, eq_false_of_ne_true hquery, Bool.not_false, Bool.true_or,
      if_pos rfl, Bool.true_or, if_pos rfl] at hname
    simp [SearchDocument.redact, hpb] at hname
  refine ⟨hunfound, hquery, ?_⟩
  cases hgiven : DocumentRepository.given contentType with
  | none => rfl
  | some c =>
    have hother : ∀ type filename, P.dialect.takes 255 type → ¬ (nameEngine tokens
        fun _ => true).isMatch (SearchService.searchBody tenantId query page pageSize
          classification contentType) (secret.redact type filename) := fun type filename htype hm =>
      hunfound (mayFind_of_selects_redact htype (isMatch_nameEngine.mp hm).1)
    obtain ⟨type', htakes', hne⟩ : ∃ type', P.dialect.takes 255 type' ∧ type' ≠ type := by
      by_cases ha : type = "a"
      · exact ⟨"b", takes_b.2, ha ▸ by decide⟩
      · exact ⟨"a", takes_a.2, Ne.symm ha⟩
    have hread := htells htakes' takes_a.1
    simp only [tells, hasText_searchBody, hquery, hother _ _ htakes, hother _ _ htakes',
      view_contentType hgiven, Bool.not_true, Bool.or_self, Bool.false_eq_true, if_false] at hread
    simp [SearchDocument.redact, hpb, hne] at hread

variable (inp) in
theorem indexOpen_of_answers
    (h : IndexAnswersAlike P inp tokens tenantId query page pageSize classification contentType w)
    (hsize : 1 ≤ pageSize) :
    IndexOpen P tenantId query page pageSize classification contentType tokens w.searchIndex := by
  classical
  refine or_iff_not_imp_left.mpr fun hwindow => or_iff_not_imp_left.mpr fun hsecret => ?_
  simp only [not_lt] at hwindow
  simp only [not_forall, not_not] at hsecret
  by_cases hpast : w.searchIndex.rows.countP
      (MayFind P tenantId classification contentType tokens ·) ≤ ((page - 1) * pageSize).toNat
  · by_cases hunfound : ∀ entry ∈ w.searchIndex.rows,
        MayFind P tenantId classification contentType tokens entry →
          entry.classification ≠ .protectedB
    · exact Or.inl ⟨hunfound, Or.inl hpast⟩
    · simp only [not_forall, not_not] at hunfound
      obtain ⟨entry, hentry, hmay, hpb⟩ := hunfound
      exact Or.inr ⟨hpast, open_of_past h hwindow hsize hpast hentry hmay hpb⟩
  · obtain ⟨secret, hsecret, hpb⟩ := hsecret
    have hopen := fun {entry} (hentry : entry ∈ w.searchIndex.rows) =>
      open_of_shown h hwindow hsize (not_le.mp hpast) hentry
    exact Or.inl ⟨fun entry hentry hmay hpb => (hopen hentry hpb).1 hmay,
      Or.inr (hopen hsecret hpb).2⟩

end Needed

end GoAnalyze
