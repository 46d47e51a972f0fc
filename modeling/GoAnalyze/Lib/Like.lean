import GoAnalyze.Lib.Sql

/-! What a `LIKE` pattern with `%` on both ends of a text matches: the strings that
contain the text, where every character of it is literal, and a string that does not
contain it otherwise. -/

namespace Sql

variable {escape : Option Char} {p : List LikeToken} {c : Char} {q s : List Char}

/-! ## Patterns of literal characters -/

/-- The character stands for itself in a pattern. -/
def isLiteral (escape : Option Char) (c : Char) : Bool := c ≠ '%' && c ≠ '_' && some c ≠ escape

theorem isLiteral_iff : isLiteral escape c ↔ c ≠ '%' ∧ c ≠ '_' ∧ some c ≠ escape := by
  simp only [isLiteral, Bool.and_eq_true, decide_eq_true_eq, and_assoc]

theorem likeMatch_anyString_iff :
    likeMatch (.anyString :: p) s ↔ ∃ u v, s = u ++ v ∧ likeMatch p v := by
  simp only [likeMatch, List.any_eq_true, List.mem_tails]
  constructor
  · rintro ⟨v, ⟨u, rfl⟩, hv⟩
    exact ⟨u, v, rfl, hv⟩
  · rintro ⟨u, v, rfl, hv⟩
    exact ⟨v, List.suffix_append u v, hv⟩

theorem likeMatch_anyString_nil : likeMatch [.anyString] s :=
  likeMatch_anyString_iff.mpr ⟨s, [], (List.append_nil s).symm, rfl⟩

theorem likeMatch_chars_iff :
    likeMatch (q.map .char ++ p) s ↔ ∃ v, s = q ++ v ∧ likeMatch p v := by
  induction q generalizing s with
  | nil => simp
  | cons c q ih =>
    cases s with
    | nil => simp [likeMatch]
    | cons d s =>
      simp only [List.map_cons, List.cons_append, likeMatch, Bool.and_eq_true, decide_eq_true_eq,
        ih, List.cons.injEq]
      constructor
      · rintro ⟨rfl, v, rfl, hv⟩
        exact ⟨v, ⟨rfl, rfl⟩, hv⟩
      · rintro ⟨v, ⟨rfl, rfl⟩, hv⟩
        exact ⟨rfl, v, rfl, hv⟩

theorem likeTokens_cons_literal (hc : isLiteral escape c) (q : List Char) :
    likeTokens escape (c :: q) = .char c :: likeTokens escape q := by
  obtain ⟨hpercent, hunderscore, hescape⟩ := isLiteral_iff.mp hc
  cases q with
  | nil => simp [likeTokens, hpercent, hunderscore]
  | cons d q => simp [likeTokens, hpercent, hunderscore, hescape]

theorem likeTokens_cons_percent (hescape : escape ≠ some '%') (q : List Char) :
    likeTokens escape ('%' :: q) = .anyString :: likeTokens escape q := by
  cases q with
  | nil => rfl
  | cons d q => simp [likeTokens, hescape.symm]

theorem likeTokens_append_literal (hq : ∀ c ∈ q, isLiteral escape c) (q' : List Char) :
    likeTokens escape (q ++ q') = q.map .char ++ likeTokens escape q' := by
  induction q with
  | nil => rfl
  | cons c q ih =>
    rw [List.cons_append, likeTokens_cons_literal (hq c List.mem_cons_self),
      ih fun d hd => hq d (List.mem_cons_of_mem c hd)]
    rfl

/-- Around a text of literal characters the pattern is the test for a substring. -/
theorem like_contains_iff (hescape : escape ≠ some '%') (hq : ∀ c ∈ q, isLiteral escape c) :
    like escape ('%' :: q ++ ['%']) s ↔ q <:+: s := by
  rw [like, List.cons_append, likeTokens_cons_percent hescape, likeTokens_append_literal hq,
    likeMatch_anyString_iff]
  constructor
  · rintro ⟨u, v, rfl, hv⟩
    obtain ⟨t, rfl, -⟩ := likeMatch_chars_iff.mp hv
    exact ⟨u, t, List.append_assoc u q t⟩
  · rintro ⟨u, t, rfl⟩
    exact ⟨u, q ++ t, List.append_assoc u q t,
      likeMatch_chars_iff.mpr ⟨t, rfl, likeMatch_anyString_nil⟩⟩

/-! ## A string that a pattern matches -/

/-- What `q ++ "%"` matches with `x` for every wildcard; an escape at the end of `q`
makes the `%` behind it literal. -/
def sample (escape : Option Char) : List Char → List Char
  | [] => []
  | [c] => if some c = escape then ['%'] else if c = '%' ∨ c = '_' then ['x'] else [c]
  | c :: d :: q =>
    if some c = escape then d :: sample escape q
    else (if c = '%' ∨ c = '_' then 'x' else c) :: sample escape (d :: q)

theorem likeMatch_wildcard_cons (h : likeMatch p s) :
    likeMatch ((if c = '%' then .anyString else if c = '_' then .anyChar else .char c) :: p)
      ((if c = '%' ∨ c = '_' then 'x' else c) :: s) := by
  by_cases hpercent : c = '%'
  · simp only [hpercent, if_true, true_or]
    exact likeMatch_anyString_iff.mpr ⟨['x'], s, rfl, h⟩
  · by_cases hunderscore : c = '_'
    · simpa [hpercent, hunderscore, likeMatch] using h
    · simpa [hpercent, hunderscore, likeMatch] using h

theorem likeMatch_sample (escape : Option Char) (q : List Char) :
    likeMatch (likeTokens escape (q ++ ['%'])) (sample escape q) := by
  induction q using sample.induct escape with
  | case1 => rfl
  | case2 c hc => simp [likeTokens, sample, hc, likeMatch]
  | case3 c hc hwild =>
    have := likeMatch_wildcard_cons (c := c) (likeMatch_anyString_nil (s := []))
    simpa [likeTokens, sample, hc, hwild] using this
  | case4 c hc hwild =>
    have := likeMatch_wildcard_cons (c := c) (likeMatch_anyString_nil (s := []))
    simpa [likeTokens, sample, hc, hwild] using this
  | case5 c d q hc ih => simpa [likeTokens, sample, hc, likeMatch] using ih
  | case6 c d q hc ih =>
    have := likeMatch_wildcard_cons (c := c) ih
    simpa [likeTokens, sample, hc] using this

theorem like_sample (hescape : escape ≠ some '%') (q : List Char) :
    like escape ('%' :: q ++ ['%']) (sample escape q) := by
  rw [like, List.cons_append, likeTokens_cons_percent hescape]
  exact likeMatch_anyString_iff.mpr ⟨[], _, rfl, likeMatch_sample escape q⟩

theorem length_sample_le (escape : Option Char) (q : List Char) :
    (sample escape q).length ≤ q.length := by
  induction q using sample.induct escape with
  | case1 => exact le_rfl
  | case2 c hc => simp [sample, hc]
  | case3 c hc hwild => simp [sample, hc, hwild]
  | case4 c hc hwild => simp [sample, hc, hwild]
  | case5 c d q hc ih =>
    simp only [sample, hc, if_true, List.length_cons]
    omega
  | case6 c d q hc ih => simpa [sample, hc] using ih

theorem sample_all {motive : Char → Prop} (hx : motive 'x') (hpercent : motive '%')
    (hq : ∀ c ∈ q, motive c) : ∀ c ∈ sample escape q, motive c := by
  induction q using sample.induct escape with
  | case1 => exact hq
  | case2 c hc => simp [sample, hc, hpercent]
  | case3 c hc hwild => simp [sample, hc, hwild, hx]
  | case4 c hc hwild => simpa [sample, hc, hwild] using hq
  | case5 c d q hc ih =>
    simp only [sample, hc, if_true, List.forall_mem_cons] at hq ⊢
    exact ⟨hq.2.1, ih hq.2.2⟩
  | case6 c d q hc ih =>
    simp only [sample, hc, if_false]
    refine List.forall_mem_cons.mpr ⟨?_, ih (List.forall_mem_cons.mp hq).2⟩
    split_ifs
    · exact hx
    · exact (List.forall_mem_cons.mp hq).1

/-- Only a text of literal characters is its own sample. -/
theorem isLiteral_of_sample_eq (hescape : escape ≠ some '%') (h : sample escape q = q) :
    ∀ c ∈ q, isLiteral escape c := by
  induction q using sample.induct escape with
  | case1 => simp
  | case2 c hc =>
    simp only [sample, hc, if_true, List.cons.injEq, and_true] at h
    exact absurd (hc.symm.trans (congrArg some h.symm)) hescape
  | case3 c hc hwild =>
    simp only [sample, hc, hwild, if_true, if_false, List.cons.injEq, and_true] at h
    exact absurd (h ▸ hwild) (by decide)
  | case4 c hc hwild =>
    simpa [isLiteral_iff, hc] using not_or.mp hwild
  | case5 c d q hc ih =>
    have hle := length_sample_le escape q
    have hlen := congrArg List.length h
    simp only [sample, hc, if_true, List.length_cons] at hlen
    omega
  | case6 c d q hc ih =>
    simp only [sample, hc, if_false, List.cons.injEq] at h
    obtain ⟨hhead, htail⟩ := h
    have hwild : ¬ (c = '%' ∨ c = '_') := by
      intro hwild
      rw [if_pos hwild] at hhead
      exact absurd (hhead ▸ hwild) (by decide)
    exact List.forall_mem_cons.mpr
      ⟨isLiteral_iff.mpr ⟨(not_or.mp hwild).1, (not_or.mp hwild).2, hc⟩, ih htail⟩

/-- Where a text is in its own sample, every character of it is literal. -/
theorem isLiteral_of_infix_sample (hescape : escape ≠ some '%') (h : q <:+: sample escape q) :
    ∀ c ∈ q, isLiteral escape c :=
  isLiteral_of_sample_eq hescape (h.eq_of_length_le (length_sample_le escape q)).symm

example : sample (some '\\') "a\\_b_\\".toList = "a_bx%".toList := by decide

end Sql
