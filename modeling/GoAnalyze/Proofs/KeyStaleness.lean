import GoAnalyze.Spec.SigningKeys

/-! How old signing keys may be. A cache entry is stamped with the time its call began,
which is no later than its fetch, however long that takes and whatever overtakes it. -/

namespace GoAnalyze

open EventLoop JsonText Security

variable {ι T : Type} [Field T] [LinearOrder T]

/-- The keys were fetched: for that call, or less than the cache lifetime before it. -/
def FreshKeys (s : KeyProcess T) (r : KeyReturn T) : Prop :=
  (∃ f ∈ s.fetches, f.uri = r.uri ∧ f.keys = r.keys ∧ r.started - jwksCacheTtlSeconds < f.began) ∧
    (r.forceRefresh → ∃ f ∈ s.fetches, f.call = r.call ∧ f.uri = r.uri ∧ f.keys = r.keys ∧
      r.started ≤ f.began)

/-- Cached and returned keys come from fetches, and no stamp is later than its fetch. -/
structure Traced (s : KeyProcess T) : Prop where
  cached : ∀ uri stamp keys, s.jwksCache uri = some (stamp, keys) →
    ∃ f ∈ s.fetches, f.uri = uri ∧ f.keys = keys ∧ stamp ≤ f.began
  returned : ∀ r ∈ s.returns, r.fetchFailed = false → FreshKeys s r

variable {s s' : KeyProcess T}

theorem FreshKeys.mono {r : KeyReturn T} (h : FreshKeys s r) (hf : s.fetches ⊆ s'.fetches) :
    FreshKeys s' r := by
  obtain ⟨⟨f, hfm, hfresh⟩, hforce⟩ := h
  refine ⟨⟨f, hf hfm, hfresh⟩, fun hr => ?_⟩
  obtain ⟨g, hg, hown⟩ := hforce hr
  exact ⟨g, hf hg, hown⟩

theorem Traced.of_eq (h : Traced s) (hcache : s'.jwksCache = s.jwksCache)
    (hfetches : s'.fetches = s.fetches) (hreturns : s'.returns = s.returns) : Traced s' := by
  refine ⟨?_, ?_⟩
  · rw [hcache, hfetches]
    exact h.cached
  · rw [hreturns]
    intro r hr hok
    exact (h.returned r hr hok).mono (by rw [hfetches]; exact fun _ hx => hx)

theorem Traced.addFetch (h : Traced s) (f : KeyFetch T) :
    Traced { s with fetches := s.fetches ++ [f] } := by
  have hsub : s.fetches ⊆ s.fetches ++ [f] := List.subset_append_left _ _
  refine ⟨fun uri stamp keys hc => ?_, fun r hr hok => (h.returned r hr hok).mono hsub⟩
  obtain ⟨g, hg, hkeys⟩ := h.cached uri stamp keys hc
  exact ⟨g, hsub hg, hkeys⟩

theorem Traced.addReturn (h : Traced s) {r : KeyReturn T} (hr : r.fetchFailed = false → FreshKeys s r) :
    Traced { s with returns := s.returns ++ [r] } := by
  refine ⟨h.cached, fun r' hr' hok => ?_⟩
  rcases List.mem_append.mp hr' with hr' | hr'
  · exact (h.returned r' hr' hok).mono fun _ hx => hx
  · obtain rfl := List.mem_singleton.mp hr'
    exact (hr hok).mono fun _ hx => hx

theorem Traced.store (h : Traced s) {f : KeyFetch T} (hf : f ∈ s.fetches) {stamp : T}
    (hstamp : stamp ≤ f.began) :
    Traced { s with jwksCache := Function.update s.jwksCache f.uri (some (stamp, f.keys)) } := by
  refine ⟨fun uri stamp' keys hc => ?_, fun r hr hok =>
    (h.returned r hr hok).mono fun _ hx => hx⟩
  by_cases huri : uri = f.uri
  · subst huri
    obtain ⟨rfl, rfl⟩ : stamp = stamp' ∧ f.keys = keys := by simpa using hc
    exact ⟨f, hf, rfl, rfl, hstamp⟩
  · exact h.cached uri stamp' keys (by simpa [huri] using hc)

/-! ## The functions -/

theorem wp_fetchJwks {s₀ s : KeyProcess T} (hs : Traced s) (call : ℕ) (uri : String)
    {Q : Except FetchError Json → KeyProcess T → KeyProcess T → Prop}
    (herror : ∀ e s', Traced s' → Q (.error e) s' s')
    (hok : ∀ keys s₀ s', Traced s' → ⟨call, uri, s.now, keys⟩ ∈ s'.fetches → Q (.ok keys) s₀ s') :
    (fetchJwks call uri).run.wp Traced AnyChange Q s₀ s := by
  unfold fetchJwks
  simp only [Async.wp_bindExcept, Async.wp_get, Async.wp_lift, Async.wp_wait]
  refine ⟨hs, trivial, fun answer s' _ hs' => ?_⟩
  cases answer with
  | transportError => exact herror _ s' hs'
  | other => exact herror _ s' hs'
  | cancelled => exact herror _ s' hs'
  | response status body =>
    dsimp only
    split
    · simp only [Async.wp_bindExcept, Async.wp_throw]
      exact herror _ s' hs'
    · split
      · next members =>
        simp only [Async.wp_bindExcept, Async.wp_modify, Async.wp_pure]
        exact hok _ s' _ (hs'.addFetch _) (List.mem_append_right _ (List.mem_singleton_self _))
      · exact herror _ s' hs'

theorem wp_getJwks [IsStrictOrderedRing T] (uri : String) (forceRefresh : Bool)
    {Q : Except Raised Json → KeyProcess T → KeyProcess T → Prop}
    (hQ : ∀ r s₀ s, Traced s → Q r s₀ s) {s₀ s : KeyProcess T} (hs : Traced s) :
    (getJwks uri forceRefresh : Verifier T Json).run.wp Traced AnyChange Q s₀ s := by
  unfold getJwks
  simp only [Async.wp_bindExcept, Async.wp_get, Async.wp_modify]
  have hbegun : Traced { s with calls := s.calls + 1 } := hs.of_eq rfl rfl rfl
  split
  · next stamp keys hcached =>
    -- the cached keys, whose stamp is less than the lifetime old
    obtain ⟨hc, hfresh⟩ := Option.filter_eq_some_iff.mp hcached
    simp only [Bool.and_eq_true, Bool.not_eq_true', decide_eq_true_eq] at hfresh
    obtain ⟨f, hf, huri, hkeys, hstamp⟩ := hs.cached uri stamp keys hc
    simp only [Async.wp_bindExcept, Async.wp_modify, Async.wp_pure]
    refine hQ _ _ _ (hbegun.addReturn fun _ => ⟨⟨f, hf, huri, hkeys, ?_⟩, fun hforce => ?_⟩)
    · exact lt_of_lt_of_le (by linarith [hfresh.2]) hstamp
    · simp [hfresh.1] at hforce
  · simp only [Async.wp_bindExcept, Async.wp_lift]
    refine wp_fetchJwks hbegun s.calls uri (fun e s' hs' => ?_) fun keys s₀ s' hs' hf => ?_
    · cases e with
      | other => exact hQ _ _ _ hs'
      | cancelled => exact hQ _ _ _ hs'
      | httpError =>
        dsimp only
        split
        · simp only [Async.wp_bindExcept, Async.wp_modify, Async.wp_pure]
          exact hQ _ _ _ (hs'.addReturn fun hfailed => by simp at hfailed)
        · exact hQ _ _ _ hs'
    · simp only [Async.wp_bindExcept, Async.wp_modify, Async.wp_pure]
      refine hQ _ _ _ ((hs'.store hf (le_refl _)).addReturn fun _ =>
        ⟨⟨_, hf, rfl, rfl, ?_⟩, fun _ => ⟨_, hf, rfl, rfl, rfl, le_refl _⟩⟩)
      exact sub_lt_self _ (by norm_num [jwksCacheTtlSeconds])

variable [IsStrictOrderedRing T] (jwt : PyJwt) (settings : KeycloakSettings)

theorem wp_verifyBearerToken (token : String)
    {Q : Except Raised Dict → KeyProcess T → KeyProcess T → Prop}
    (hQ : ∀ r s₀ s, Traced s → Q r s₀ s) {s₀ s : KeyProcess T} (hs : Traced s) :
    (verifyBearerToken jwt settings token : Verifier T Dict).run.wp Traced AnyChange
      Q s₀ s := by
  unfold verifyBearerToken
  split
  · exact hQ _ _ _ hs
  · next kid _ =>
    simp only [Async.wp_bindExcept]
    refine wp_getJwks _ _ (fun r s₀ s hs => ?_) hs
    cases r with
    | error e => exact hQ _ _ _ hs
    | ok keys =>
      simp only [Async.wp_liftExcept]
      cases nextKey kid keys with
      | error e => exact hQ _ _ _ hs
      | ok key =>
        dsimp only
        split
        · -- no such key: refresh once
          simp only [Async.wp_bindExcept]
          refine wp_getJwks _ _ (fun r s₀ s hs => ?_) hs
          cases r with
          | error e => exact hQ _ _ _ hs
          | ok keys =>
            simp only [Async.wp_liftExcept]
            cases nextKey kid keys with
            | error e => exact hQ _ _ _ hs
            | ok key => exact hQ _ _ _ hs
        · exact hQ _ _ _ hs

/-- The states that some interleaving of the calls reaches. -/
def VerificationsReach (tokens : ι → String) [DecidableEq ι] (t₀ : T)
    (as : List (Label ι KeyAnswer T))
    (s : Loop ι (KeyProcess T) KeyRequest (fun _ => KeyAnswer) (Except Raised Dict)) : Prop :=
  Runs.Run (verifications jwt settings tokens).Step (Loop.init (KeyProcess.start t₀)) as s

/-- Keys that `_get_jwks` returns come from a fetch that began less than 300 seconds
before the call, unless the fetch of that call failed, and with `force_refresh` from the
call's own fetch; a key that no fetch finds from some time on is not returned by the
calls that start 300 seconds later. -/
theorem bounded_staleness [DecidableEq ι] (tokens : ι → String) {t₀ : T}
    {as : List (Label ι KeyAnswer T)}
    {s : Loop ι (KeyProcess T) KeyRequest (fun _ => KeyAnswer) (Except Raised Dict)}
    (h : VerificationsReach jwt settings tokens t₀ as s) :
    (∀ r ∈ s.memory.returns, r.fetchFailed = false → FreshKeys s.memory r) ∧
    ∀ (withdrawn : T) (accepts : Json → Prop),
      (∀ f ∈ s.memory.fetches, withdrawn ≤ f.began → ¬accepts f.keys) →
      ∀ r ∈ s.memory.returns, r.fetchFailed = false → withdrawn + 300 ≤ r.started →
        ¬accepts r.keys := by
  have htraced : Traced s.memory := by
    refine invariant_of_wp (R := AnyChange) ⟨by simp [KeyProcess.start],
      by simp [KeyProcess.start]⟩ (fun i m hm => ?_) ?_ ?_ h
    · exact wp_verifyBearerToken jwt settings (tokens i) (fun _ _ _ hs => ⟨hs, trivial⟩) hm
    · intro i op c m r m' hm hanswer
      cases hanswer
      exact ⟨hm, trivial⟩
    · intro d m m' hm hd
      simp only [verifications, KeyProcess.tick] at hd
      split_ifs at hd
      cases hd
      exact ⟨hm.of_eq rfl rfl rfl, trivial⟩
  refine ⟨htraced.returned, fun withdrawn accepts hwithdrawn r hr hok hstarted => ?_⟩
  obtain ⟨⟨f, hf, -, hkeys, hbegan⟩, -⟩ := htraced.returned r hr hok
  rw [← hkeys]
  refine hwithdrawn f hf ?_
  have hage : r.started - 300 < f.began := by simpa [jwksCacheTtlSeconds] using hbegan
  linarith

def exampleJwt : PyJwt where
  unverifiedKid _ := some (some "key-1")
  decode _ _ := .ok [("tenant_id", .str "ministry-a"), ("sub", .str "user-123")]

def exampleKeys : Json := .obj [("keys", .arr [.obj [("kid", .str "key-1")]])]

/-- The second call finds the keys of the first in the cache. -/
def exampleVerifications : List (Label ℕ KeyAnswer ℚ) :=
  [.call 0, .event 2, .answer 0 (.response 200 (some exampleKeys)), .event 100, .call 1]

theorem bounded_staleness_example :
    ∃ s, VerificationsReach exampleJwt ⟨"http://keycloak", some "http://keycloak/certs"⟩
        (fun _ : ℕ => "token") (0 : ℚ) exampleVerifications s ∧
      s.memory.returns.map KeyReturn.started = [0, 102] ∧
      ∀ r ∈ s.memory.returns, r.fetchFailed = false → FreshKeys s.memory r := by
  have hrun : ∃ s, VerificationsReach exampleJwt ⟨"http://keycloak", some "http://keycloak/certs"⟩
      (fun _ : ℕ => "token") (0 : ℚ) exampleVerifications s ∧
      s.memory.returns.map KeyReturn.started = [0, 102] :=
    ⟨_, Runs.run_of_exec rfl, by decide +kernel⟩
  obtain ⟨s, hs, hreturns⟩ := hrun
  exact ⟨s, hs, hreturns, (bounded_staleness _ _ _ hs).1⟩

/-- No key has the token's `kid`, and the refresh meets an outage. -/
def exampleOutage : List (Label ℕ KeyAnswer ℚ) :=
  [.call 0, .event 2, .answer 0 (.response 200 (some (.obj [("keys", .arr [])]))),
    .event 5, .answer 0 .transportError]

/-- The call with `force_refresh` returns, and the only fetch is not its own. -/
theorem forced_refresh_serves_older_keys :
    ∃ s, VerificationsReach exampleJwt ⟨"http://keycloak", some "http://keycloak/certs"⟩
        (fun _ : ℕ => "token") (0 : ℚ) exampleOutage s ∧
      ∃ r ∈ s.memory.returns, r.forceRefresh ∧
        ∀ f ∈ s.memory.fetches, f.call ≠ r.call ∧ f.began < r.started :=
  ⟨_, Runs.run_of_exec rfl, by decide +kernel⟩

end GoAnalyze
