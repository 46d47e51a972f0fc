import GoAnalyze.Proofs.KeyStaleness

/-! Which exceptions leave `verify_bearer_token`, for every cache and every answer of the
key endpoint, and when a refresh falls back to the cached keys. -/

namespace GoAnalyze

open EventLoop JsonText Security

/-! ## Answers and keys -/

instance : Nonempty KeyAnswer := ⟨.transportError⟩

/-- `httpx` raises one of its errors. -/
def KeyAnswer.httpError : KeyAnswer → Bool
  | .transportError => true
  | .response status _ => ¬(200 ≤ status ∧ status < 300)
  | _ => false

/-- What `_fetch_jwks` takes from the body, where there is something to take. -/
def KeyAnswer.keys : KeyAnswer → Option Json
  | .response status (some (.obj members)) =>
    if 200 ≤ status ∧ status < 300 then some ((lookup "keys" members).getD (.arr [])) else none
  | _ => none

theorem KeyAnswer.keys_of_httpError {answer : KeyAnswer} (h : answer.httpError) :
    answer.keys = none := by
  unfold KeyAnswer.keys
  split
  · exact if_neg (of_decide_eq_true h)
  · rfl

/-- The body has a list of objects under `keys`. -/
def KeyAnswer.Usable (answer : KeyAnswer) : Prop :=
  ∃ status members keys, answer = .response status (some (.obj members)) ∧
    (200 ≤ status ∧ status < 300) ∧ lookup "keys" members = some (.arr keys) ∧
    ∀ key ∈ keys, ∃ key', key = .obj key'

/-- What a loop over a JSON value goes through. -/
def elements : Json → Option (List Json)
  | .arr keys => some keys
  | .str s => some (s.toList.map fun c => .str (String.singleton c))
  | .obj members => some (members.map fun member => .str member.1)
  | _ => none

def fits (kid : Option String) : Json → Bool
  | .obj members => hasKid kid members
  | _ => false

def isObject : Json → Bool
  | .obj _ => true
  | _ => false

/-- The keys can be gone through, and those before the first that fits are objects. -/
def Searchable (kid : Option String) (keys : Json) : Prop :=
  ∃ list, elements keys = some list ∧ ∀ key ∈ list.takeWhile fun key => !fits kid key, isObject key

def HasKey (kid : Option String) (keys : Json) : Prop :=
  ∃ list, elements keys = some list ∧ ∃ key ∈ list, fits kid key

theorem firstKey_cases (kid : Option String) (list : List Json) :
    ((∀ key ∈ list.takeWhile fun key => !fits kid key, isObject key) ∧
      ((∃ key ∈ list, fits kid key) ∧ (∃ key, firstKey kid list = .ok (some key)) ∨
        (¬∃ key ∈ list, fits kid key) ∧ firstKey kid list = .ok none)) ∨
    ((¬∀ key ∈ list.takeWhile fun key => !fits kid key, isObject key) ∧
      firstKey kid list = .error .other) := by
  induction list with
  | nil => exact Or.inl ⟨by simp, Or.inr ⟨by simp, rfl⟩⟩
  | cons key list ih =>
    cases key with
    | obj members =>
      by_cases hkid : hasKid kid members
      · refine Or.inl ⟨by simp [fits, hkid], Or.inl ⟨⟨_, List.mem_cons_self, hkid⟩, members, ?_⟩⟩
        rw [firstKey, if_pos hkid]
      · have hnext : firstKey kid (.obj members :: list) = firstKey kid list := by
          rw [firstKey, if_neg hkid]
        simpa [hnext, fits, isObject, hkid] using ih
    | null | bool | num | str | arr => exact Or.inr ⟨by simp [fits, isObject], rfl⟩

theorem nextKey_cases (kid : Option String) (keys : Json) :
    (Searchable kid keys ∧ (HasKey kid keys ∧ (∃ key, nextKey kid keys = .ok (some key)) ∨
      ¬HasKey kid keys ∧ nextKey kid keys = .ok none)) ∨
    (¬Searchable kid keys ∧ nextKey kid keys = .error .other) := by
  unfold Searchable HasKey
  cases keys with
  | arr list => simpa [elements, nextKey] using firstKey_cases kid list
  | str s =>
    by_cases hs : s = ""
    · subst hs
      exact Or.inl ⟨⟨[], rfl, by simp⟩, Or.inr ⟨by simp [elements], rfl⟩⟩
    · have hne : s.toList ≠ [] := fun hnil => hs (String.toList_eq_nil_iff.mp hnil)
      obtain ⟨c, cs, hcs⟩ := List.exists_cons_of_ne_nil hne
      exact Or.inr ⟨by simp [elements, hcs, fits, isObject], if_neg hs⟩
  | obj members =>
    cases members with
    | nil => exact Or.inl ⟨⟨[], rfl, by simp⟩, Or.inr ⟨by simp [elements], rfl⟩⟩
    | cons member members => exact Or.inr ⟨by simp [elements, fits, isObject], rfl⟩
  | null | bool | num => exact Or.inr ⟨by simp [elements], rfl⟩

section Calls

variable {T : Type} [Field T] [LinearOrder T] (script : Async.Script (KeyProcess T) KeyRequest
  fun _ => KeyAnswer) (n : ℕ) (s : KeyProcess T)

/-! ## One lookup -/

/-- What decides a call of `_get_jwks`: whether the entry is fresh enough to be served,
the cached keys, and the answer where it fetches. -/
structure KeyLookup where
  served : Bool
  cached : Option Json
  answer : KeyAnswer

namespace KeyLookup

/-- The keys that it gives. -/
def keys (l : KeyLookup) : Option Json :=
  if l.served then l.cached else l.answer.keys.or (if l.answer.httpError then l.cached else none)

/-- No keys, as `httpx` raises and none are cached. -/
def unreachable (l : KeyLookup) : Bool := !l.served && l.answer.httpError && l.cached.isNone

theorem unreachable_of_keys {l : KeyLookup} {given : Json} (h : l.keys = some given) :
    l.unreachable = false := by
  by_contra hunreachable
  simp only [unreachable, Bool.not_eq_false, Bool.and_eq_true, Bool.not_eq_true',
    Option.isNone_iff_eq_none] at hunreachable
  obtain ⟨⟨hserved, herror⟩, hcached⟩ := hunreachable
  rw [KeyLookup.keys, if_neg (by simp [hserved]), KeyAnswer.keys_of_httpError herror, hcached,
    ite_self] at h
  cases h

end KeyLookup

omit [Field T] [LinearOrder T] in
theorem play_fetchJwks (call : ℕ) (uri : String) :
    let answer := (script n ⟨uri⟩).1
    let left := (script n ⟨uri⟩).2
    (∃ keys, answer.keys = some keys ∧ answer.httpError = false ∧ ∃ fetches,
      (fetchJwks call uri).run.play script n s =
        (.ok keys, n + 1, { left with fetches := fetches })) ∨
    (answer.keys = none ∧ answer.httpError = true ∧
      (fetchJwks call uri).run.play script n s = (.error .httpError, n + 1, left)) ∨
    (answer.keys = none ∧ answer.httpError = false ∧
      ∃ e, e ≠ FetchError.httpError ∧
        (fetchJwks call uri).run.play script n s = (.error e, n + 1, left)) := by
  unfold fetchJwks
  simp only [Async.play_bindExcept, Async.play_get, Async.play_lift, Async.play_wait]
  generalize script n ⟨uri⟩ = reply
  obtain ⟨answer, left⟩ := reply
  cases answer with
  | transportError => exact Or.inr (Or.inl ⟨rfl, rfl, rfl⟩)
  | other => exact Or.inr (Or.inr ⟨rfl, rfl, .other, by simp, rfl⟩)
  | cancelled => exact Or.inr (Or.inr ⟨rfl, rfl, .cancelled, by simp, rfl⟩)
  | response status body =>
    by_cases hstatus : 200 ≤ status ∧ status < 300
    · cases body with
      | none =>
        exact Or.inr (Or.inr ⟨rfl, by simp [KeyAnswer.httpError, hstatus], .other, by simp, by
          simp only [hstatus]; rfl⟩)
      | some body =>
        cases body with
        | obj members =>
          exact Or.inl ⟨_, if_pos hstatus, by simp [KeyAnswer.httpError, hstatus], _, by
            simp only [hstatus]; rfl⟩
        | null | bool | num | str | arr =>
          exact Or.inr (Or.inr ⟨rfl, by simp [KeyAnswer.httpError, hstatus], .other, by simp, by
            simp only [hstatus]; rfl⟩)
    · have hkeys : (KeyAnswer.response status body).keys = none := by
        unfold KeyAnswer.keys
        split
        · next h =>
          cases h
          exact if_neg hstatus
        · rfl
      exact Or.inr (Or.inl ⟨hkeys, by simp [KeyAnswer.httpError, hstatus], by
        simp only [hstatus]; rfl⟩)

/-- The lookup that a call of `_get_jwks` makes, whose fetch is await `n`. -/
def lookupOf (uri : String) (forceRefresh : Bool) : KeyLookup where
  served := ((s.jwksCache uri).filter fun c =>
    !forceRefresh && decide (s.now - c.1 < jwksCacheTtlSeconds)).isSome
  cached := (s.jwksCache uri).map (·.2)
  answer := (script n ⟨uri⟩).1

/-- The cache entry that the lookup leaves behind, where it gives keys. -/
def entryAfter (uri : String) (forceRefresh : Bool) : Option (T × Json) :=
  if (lookupOf script n s uri forceRefresh).served then s.jwksCache uri
  else ((script n ⟨uri⟩).1.keys.map (s.now, ·)).or ((script n ⟨uri⟩).2.jwksCache uri)

theorem play_getJwks_served {uri : String} {forceRefresh : Bool}
    (hserved : (lookupOf script n s uri forceRefresh).served) :
    ∃ keys s', (lookupOf script n s uri forceRefresh).keys = some keys ∧
      (getJwks uri forceRefresh : Verifier T Json).run.play script n s = (.ok keys, n, s') ∧
      s'.jwksCache = s.jwksCache := by
  have hkeys : (lookupOf script n s uri forceRefresh).keys = (s.jwksCache uri).map (·.2) :=
    if_pos hserved
  obtain ⟨⟨stamp, keys⟩, hfresh⟩ := Option.isSome_iff_exists.mp hserved
  refine ⟨keys, ?_⟩
  rw [hkeys, (Option.filter_eq_some_iff.mp hfresh).1]
  unfold getJwks
  simp only [Async.play_bindExcept, Async.play_get, Async.play_modify, hfresh, Async.play_pure]
  exact ⟨_, rfl, rfl, rfl⟩

theorem play_getJwks_fetched {uri : String} {forceRefresh : Bool}
    (hserved : ¬(lookupOf script n s uri forceRefresh).served) :
    let l := lookupOf script n s uri forceRefresh
    (∃ keys s', l.keys = some keys ∧
      (getJwks uri forceRefresh : Verifier T Json).run.play script n s = (.ok keys, n + 1, s') ∧
      s'.jwksCache uri = entryAfter script n s uri forceRefresh) ∨
    (l.unreachable ∧ ∃ s', (getJwks uri forceRefresh : Verifier T Json).run.play script n s =
      (.error (.http ⟨503, "identity_provider_unreachable"⟩ []), n + 1, s')) ∨
    (l.keys = none ∧ l.unreachable = false ∧ ∃ e s', (∀ h headers, e ≠ Raised.http h headers) ∧
      (getJwks uri forceRefresh : Verifier T Json).run.play script n s = (.error e, n + 1, s')) := by
  intro l
  have hstale : (s.jwksCache uri).filter (fun c =>
      !forceRefresh && decide (s.now - c.1 < jwksCacheTtlSeconds)) = none :=
    Option.not_isSome_iff_eq_none.mp hserved
  have hkeys : l.keys = (script n ⟨uri⟩).1.keys.or
      (if (script n ⟨uri⟩).1.httpError then (s.jwksCache uri).map (·.2) else none) := if_neg hserved
  have hunreachable : l.unreachable =
      ((script n ⟨uri⟩).1.httpError && ((s.jwksCache uri).map (·.2)).isNone) := by
    rw [KeyLookup.unreachable, Bool.eq_false_iff.mpr hserved]
    rfl
  have hentry : entryAfter script n s uri forceRefresh = ((script n ⟨uri⟩).1.keys.map (s.now, ·)).or
      ((script n ⟨uri⟩).2.jwksCache uri) := if_neg hserved
  rw [hkeys, hunreachable, hentry]
  unfold getJwks
  simp only [Async.play_bindExcept, Async.play_get, Async.play_modify, hstale, Async.play_lift]
  obtain ⟨keys, hgiven, herror, fetches, hfetch⟩ | ⟨hgiven, herror, hfetch⟩ |
      ⟨hgiven, herror, e, he, hfetch⟩ :=
    play_fetchJwks script n { s with calls := s.calls + 1 } s.calls uri
  · rw [hfetch, hgiven, herror]
    refine Or.inl ⟨keys, _, rfl, rfl, ?_⟩
    simp
  · rw [hfetch, hgiven, herror]
    cases hcached : s.jwksCache uri with
    | none => exact Or.inr (Or.inl ⟨rfl, _, rfl⟩)
    | some entry => exact Or.inl ⟨entry.2, _, rfl, rfl, rfl⟩
  · rw [hfetch, hgiven, herror]
    refine Or.inr (Or.inr ⟨rfl, rfl, ?_⟩)
    cases e with
    | httpError => exact absurd rfl he
    | other => exact ⟨.other, _, by simp, rfl⟩
    | cancelled => exact ⟨.cancelled, _, by simp, rfl⟩

theorem play_getJwks (uri : String) (forceRefresh : Bool) :
    let l := lookupOf script n s uri forceRefresh
    (∃ keys s', l.keys = some keys ∧ (getJwks uri forceRefresh : Verifier T Json).run.play script n s
        = (.ok keys, if l.served then n else n + 1, s') ∧
      s'.jwksCache uri = entryAfter script n s uri forceRefresh) ∨
    (l.unreachable ∧ ∃ s', (getJwks uri forceRefresh : Verifier T Json).run.play script n s =
      (.error (.http ⟨503, "identity_provider_unreachable"⟩ []), n + 1, s')) ∨
    (l.keys = none ∧ l.unreachable = false ∧ ∃ e s', (∀ h headers, e ≠ Raised.http h headers) ∧
      (getJwks uri forceRefresh : Verifier T Json).run.play script n s = (.error e, n + 1, s')) := by
  intro l
  by_cases hserved : l.served
  · obtain ⟨keys, s', hkeys, hplay, hcache⟩ := play_getJwks_served script n s hserved
    refine Or.inl ⟨keys, s', hkeys, ?_, ?_⟩
    · rw [hplay, if_pos hserved]
    · rw [hcache, entryAfter, if_pos hserved]
  · rw [if_neg hserved]
    exact play_getJwks_fetched script n s hserved

/-! ## A verification -/

variable (jwt : PyJwt) (settings : KeycloakSettings) (token : String)

/-- The call returns claims, or raises an `HTTPException` of status 401 or 503. -/
def Declared (outcome : Except Raised Dict) : Prop :=
  (∃ claims, outcome = .ok claims) ∨ ∃ status detail headers,
    outcome = .error (.http ⟨status, detail⟩ headers) ∧ (status = 401 ∨ status = 503)

theorem declared_unauthorized (detail : String) : Declared (.error (unauthorized detail)) :=
  Or.inr ⟨401, detail, [], rfl, Or.inl rfl⟩

theorem not_declared {e : Raised} (he : ∀ h headers, e ≠ .http h headers) : ¬Declared (.error e) := by
  rintro (⟨claims, hclaims⟩ | ⟨status, detail, headers, heq, -⟩)
  · cases hclaims
  · exact he _ _ (Except.error.inj heq)

theorem declared_claimsOf (hjwt : ∀ key, jwt.decode token key ≠ .error .notPyJwtError)
    (key : Option Dict) : Declared (claimsOf jwt token key) := by
  unfold claimsOf
  cases key with
  | none => exact declared_unauthorized _
  | some key =>
    dsimp only
    cases hdecode : jwt.decode token key with
    | ok claims =>
      change Declared (if _ then _ else _)
      split_ifs
      · exact declared_unauthorized _
      · exact declared_unauthorized _
      · exact declared_unauthorized _
      · exact Or.inl ⟨claims, rfl⟩
    | error e =>
      cases e with
      | expired => exact declared_unauthorized _
      | invalidClaims text => exact declared_unauthorized _
      | otherPyJwtError => exact declared_unauthorized _
      | notPyJwtError => exact absurd hdecode (hjwt key)

/-- The lookup after a search that found no key. -/
def secondLookup (uri : String) : KeyLookup where
  served := false
  cached := (entryAfter script 0 s uri false).map (·.2)
  answer := (script (if (lookupOf script 0 s uri false).served then 0 else 1) ⟨uri⟩).1

/-- The keys that are looked up can be searched. -/
def KeysReadable (uri : String) (kid : Option String) : Prop :=
  (lookupOf script 0 s uri false).unreachable ∨
    ∃ keys, (lookupOf script 0 s uri false).keys = some keys ∧ Searchable kid keys ∧
      (HasKey kid keys ∨ (secondLookup script s uri).unreachable ∨
        ∃ keys', (secondLookup script s uri).keys = some keys' ∧ Searchable kid keys')

theorem lookupOf_forced (uri : String) {n : ℕ} {s' : KeyProcess T}
    (hn : n = if (lookupOf script 0 s uri false).served then 0 else 1)
    (hcache : s'.jwksCache uri = entryAfter script 0 s uri false) :
    lookupOf script n s' uri true = secondLookup script s uri := by
  subst hn
  simp [lookupOf, secondLookup, hcache]

theorem declared_refresh_iff (hjwt : ∀ key, jwt.decode token key ≠ .error .notPyJwtError)
    (uri : String) (kid : Option String) :
    Declared ((do
        let keys ← getJwks uri true
        let key ← (nextKey kid keys : Except Raised (Option Dict))
        (claimsOf jwt token key : Except Raised Dict) : Verifier T Dict).run.play script n s).1 ↔
      (lookupOf script n s uri true).unreachable ∨
        ∃ keys, (lookupOf script n s uri true).keys = some keys ∧ Searchable kid keys := by
  simp only [Async.play_bindExcept]
  obtain ⟨keys, s', hkeys, hplay, -⟩ | ⟨hunreachable, s', hplay⟩ |
    ⟨hkeys, hunreachable, e, s', he, hplay⟩ := play_getJwks script n s uri true
  · have hreachable : (lookupOf script n s uri true).unreachable = false :=
      KeyLookup.unreachable_of_keys hkeys
    rw [hplay, hkeys, hreachable]
    simp only [Async.play_liftExcept]
    obtain ⟨hsearch, hfound⟩ | ⟨hsearch, hnext⟩ := nextKey_cases kid keys
    · have hnext : ∃ key, nextKey kid keys = .ok key := by
        rcases hfound with ⟨-, key, hnext⟩ | ⟨-, hnext⟩
        · exact ⟨_, hnext⟩
        · exact ⟨_, hnext⟩
      obtain ⟨key, hnext⟩ := hnext
      rw [hnext]
      exact iff_of_true (declared_claimsOf jwt token hjwt key) (Or.inr ⟨keys, rfl, hsearch⟩)
    · rw [hnext]
      refine iff_of_false (not_declared (by simp)) ?_
      rintro (hcontra | ⟨keys', hkeys', hsearch'⟩)
      · cases hcontra
      · cases hkeys'
        exact hsearch hsearch'
  · rw [hplay]
    exact iff_of_true (Or.inr ⟨503, _, _, rfl, Or.inr rfl⟩) (Or.inl hunreachable)
  · rw [hplay, hkeys, hunreachable]
    exact iff_of_false (not_declared he) (by simp)

theorem declared_iff (hjwt : ∀ key, jwt.decode token key ≠ .error .notPyJwtError) :
    Declared ((verifyBearerToken jwt settings token : Verifier T Dict).run.play script 0 s).1 ↔
      ∀ kid, jwt.unverifiedKid token = some kid → KeysReadable script s (jwksUri settings) kid := by
  unfold verifyBearerToken
  cases hkid : jwt.unverifiedKid token with
  | none => exact iff_of_true (declared_unauthorized _) (by simp)
  | some kid =>
    simp only [Option.some.injEq, forall_eq']
    generalize jwksUri settings = uri
    unfold KeysReadable
    rw [Async.play_bindExcept]
    obtain ⟨keys, s', hkeys, hplay, hcache⟩ | ⟨hunreachable, s', hplay⟩ |
      ⟨hkeys, hunreachable, e, s', he, hplay⟩ := play_getJwks script 0 s uri false
    · have hreachable : (lookupOf script 0 s uri false).unreachable = false :=
        KeyLookup.unreachable_of_keys hkeys
      rw [hplay, hkeys, hreachable]
      simp only [Bool.false_eq_true, false_or, Option.some.injEq, exists_eq_left']
      rw [Async.play_bindExcept, Async.play_liftExcept]
      obtain ⟨hsearch, ⟨hkey, key, hnext⟩ | ⟨hkey, hnext⟩⟩ | ⟨hsearch, hnext⟩ :=
        nextKey_cases kid keys
      · rw [hnext]
        exact iff_of_true (declared_claimsOf jwt token hjwt (some key)) ⟨hsearch, Or.inl hkey⟩
      · -- no key fits: the second lookup decides
        rw [hnext, and_iff_right hsearch, or_iff_right hkey,
          ← lookupOf_forced script s uri rfl hcache]
        exact declared_refresh_iff script _ s' jwt token hjwt uri kid
      · rw [hnext]
        exact iff_of_false (not_declared (by simp)) fun h => hsearch h.1
    · rw [hplay]
      exact iff_of_true (Or.inr ⟨503, _, _, rfl, Or.inr rfl⟩) (Or.inl hunreachable)
    · rw [hplay, hkeys, hunreachable]
      exact iff_of_false (not_declared he) (by simp)

/-! ## Refreshes -/

/-- Refreshed without a usable key list, the call returns the cached keys. -/
def FallsBack (uri : String) (forceRefresh : Bool) (cached : Json) : Prop :=
  ¬(script n ⟨uri⟩).1.Usable →
    ((getJwks uri forceRefresh : Verifier T Json).run.play script n s).1 = .ok cached

theorem fallsBack_iff {uri : String} {forceRefresh : Bool} {stamp : T} {cached : Json}
    (hcached : s.jwksCache uri = some (stamp, cached))
    (hrefresh : ¬(lookupOf script n s uri forceRefresh).served) :
    FallsBack script n s uri forceRefresh cached ↔
      (script n ⟨uri⟩).1.Usable ∨ (script n ⟨uri⟩).1.httpError ∨
        (script n ⟨uri⟩).1.keys = some cached := by
  have hkeys : (lookupOf script n s uri forceRefresh).keys = (script n ⟨uri⟩).1.keys.or
      (if (script n ⟨uri⟩).1.httpError then some cached else none) := by
    rw [KeyLookup.keys, if_neg hrefresh, lookupOf, hcached]
    rfl
  unfold FallsBack
  rw [or_iff_not_imp_left]
  refine imp_congr_right fun _ => ?_
  obtain ⟨keys, s', hgiven, hplay, -⟩ | ⟨hunreachable, -⟩ | ⟨hgiven, -, e, s', he, hplay⟩ :=
    play_getJwks_fetched script n s hrefresh
  · rw [hplay]
    rw [hgiven] at hkeys
    cases herror : (script n ⟨uri⟩).1.httpError with
    | true =>
      rw [KeyAnswer.keys_of_httpError herror, herror, Option.none_or, if_pos rfl] at hkeys
      cases hkeys
      exact iff_of_true rfl (Or.inl rfl)
    | false =>
      rw [herror, if_neg Bool.false_ne_true, Option.or_none] at hkeys
      rw [← hkeys]
      simp
  · simp [KeyLookup.unreachable, lookupOf, hcached] at hunreachable
  · rw [hplay]
    rw [hgiven, eq_comm, Option.or_eq_none_iff] at hkeys
    rw [hkeys.1]
    simpa using hkeys.2

/-- Where the token library raises only errors of its own, a verification ends as declared
exactly where the keys that it looks up can be searched; and a refresh falls back to the
cached keys exactly on the errors of `httpx`, on a usable list and on the cached keys. -/
theorem token_errors_declared_iff
    (hjwt : ∀ token key, jwt.decode token key ≠ .error .notPyJwtError) :
    (Declared ((verifyBearerToken jwt settings token : Verifier T Dict).run.play script 0 s).1 ↔
      ∀ kid, jwt.unverifiedKid token = some kid → KeysReadable script s (jwksUri settings) kid) ∧
    ∀ uri (forceRefresh : Bool) stamp cached, s.jwksCache uri = some (stamp, cached) →
      (forceRefresh ∨ jwksCacheTtlSeconds ≤ s.now - stamp) →
        (FallsBack script n s uri forceRefresh cached ↔
          (script n ⟨uri⟩).1.Usable ∨ (script n ⟨uri⟩).1.httpError ∨
            (script n ⟨uri⟩).1.keys = some cached) := by
  refine ⟨declared_iff script s jwt settings token (hjwt token), ?_⟩
  intro uri forceRefresh stamp cached hcached hrefresh
  refine fallsBack_iff script n s hcached ?_
  rcases hrefresh with hforce | hage
  · simp [lookupOf, hforce]
  · simp [lookupOf, hcached, hage]

/-- A verification among others in one process ends as it does alone, with some answers
and with what the others leave in the cache. -/
theorem verification_play [IsStrictOrderedRing T] {ι : Type} [DecidableEq ι] {tokens : ι → String}
    {t₀ : T} {as : List (Label ι KeyAnswer T)}
    {s : Loop ι (KeyProcess T) KeyRequest (fun _ => KeyAnswer) (Except Raised Dict)}
    (h : VerificationsReach jwt settings tokens t₀ as s) {i : ι} {outcome : Except Raised Dict}
    (hresult : s.result i = some outcome) :
    ∃ script s₀, ((verifyBearerToken jwt settings (tokens i) : Verifier T Dict).run.play
      script 0 s₀).1 = outcome :=
  exists_script h hresult

end Calls

def exampleSettings : KeycloakSettings := ⟨"http://keycloak", some "http://keycloak/certs"⟩

def exampleKeyList : Json := .arr [.obj [("kid", .str "key-1")]]

/-- A process whose keys are 400 seconds old. -/
def exampleStale : KeyProcess ℚ :=
  { KeyProcess.start 400 with jwksCache := fun _ => some (0, exampleKeyList) }

/-- Every fetch is answered so. -/
def answered (answer : KeyAnswer) : Async.Script (KeyProcess ℚ) KeyRequest fun _ => KeyAnswer :=
  fun _ _ => (answer, exampleStale)

/-- The provider is down: the cached keys verify the token. -/
theorem token_errors_declared_transport :
    Declared ((verifyBearerToken exampleJwt exampleSettings "token" : Verifier ℚ Dict).run.play
      (answered .transportError) 0 exampleStale).1 ∧
    FallsBack (answered .transportError) 0 exampleStale "http://keycloak/certs" true
      exampleKeyList := by
  have h := token_errors_declared_iff (answered .transportError) 0 exampleStale exampleJwt
    exampleSettings "token" fun token key => by simp [exampleJwt]
  refine ⟨h.1.mpr ?_, (h.2 _ true 0 _ rfl (Or.inl rfl)).mpr (Or.inr (Or.inl rfl))⟩
  intro kid hkid
  cases hkid
  refine Or.inr ⟨exampleKeyList, ?_, ⟨_, rfl, by decide +kernel⟩, Or.inl ⟨_, rfl, ?_⟩⟩
  · exact (if_neg (by decide +kernel)).trans rfl
  · exact ⟨_, List.mem_singleton_self _, by decide +kernel⟩

/-- A page in place of the key set, with status 200: another exception leaves the call,
and the cached keys are not used. -/
theorem token_errors_page :
    ¬Declared ((verifyBearerToken exampleJwt exampleSettings "token" : Verifier ℚ Dict).run.play
      (answered (.response 200 none)) 0 exampleStale).1 ∧
    ¬FallsBack (answered (.response 200 none)) 0 exampleStale "http://keycloak/certs" true
      exampleKeyList := by
  have hstale : ¬(lookupOf (answered (.response 200 none)) 0 exampleStale
      (jwksUri exampleSettings) false).served := by decide +kernel
  have hkeys : (lookupOf (answered (.response 200 none)) 0 exampleStale
      (jwksUri exampleSettings) false).keys = none := (if_neg hstale).trans rfl
  constructor
  · intro hdeclared
    have hjwt : ∀ key, exampleJwt.decode "token" key ≠ .error .notPyJwtError := by simp [exampleJwt]
    obtain hunreachable | ⟨keys, hgiven, -⟩ :=
      (declared_iff _ _ _ _ _ hjwt).mp hdeclared (some "key-1") rfl
    · exact absurd hunreachable (by decide +kernel)
    · rw [hkeys] at hgiven
      cases hgiven
  · intro hfalls
    obtain ⟨status, members, keys, hanswer, -⟩ | herror | hsame :=
      (fallsBack_iff _ _ _ rfl (by decide +kernel)).mp hfalls
    · cases hanswer
    · cases herror
    · cases hsame

end GoAnalyze
