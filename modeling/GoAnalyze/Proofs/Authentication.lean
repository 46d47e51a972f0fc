import GoAnalyze.Proofs.KeyStaleness
import GoAnalyze.Proofs.Programs
import GoAnalyze.Proofs.RateLimitBound
import GoAnalyze.Proofs.SignInRace
import GoAnalyze.Spec.Authentication

/-! Whom a process takes its callers for. In every interleaving a context is that of a token
that decodes with a key the provider has handed out, and only such tokens are counted
against limits or leave values in `users`. -/

namespace GoAnalyze

open EventLoop JsonText ReadCommitted Security

variable {ι T : Type}

/-! ## Verified tokens -/

/-- The claims of a token that decodes with a key of its `kid` out of a fetch of the
configured key set, and name a tenant and a subject. -/
def Verified (jwt : PyJwt) (settings : KeycloakSettings) (keys : KeyProcess T) (token : String)
    (claims : Dict) : Prop :=
  ∃ f ∈ keys.fetches, f.uri = jwksUri settings ∧ ∃ set kid key, f.keys = .arr set ∧
    .obj key ∈ set ∧ jwt.unverifiedKid token = some kid ∧ hasKid kid key ∧
    jwt.decode token key = .ok claims ∧ (lookup "tenant_id" claims).any isTruthy ∧
    (lookup "sub" claims).any isTruthy

theorem Verified.mono {jwt : PyJwt} {settings : KeycloakSettings} {s t : KeyProcess T}
    {token : String} {claims : Dict} (h : Verified jwt settings s token claims)
    (hst : s.fetches ⊆ t.fetches) : Verified jwt settings t token claims := by
  obtain ⟨f, hf, hrest⟩ := h
  exact ⟨f, hst hf, hrest⟩

def CacheFetched (s : KeyProcess T) : Prop :=
  ∀ uri stamp keys, s.jwksCache uri = some (stamp, keys) →
    ∃ f ∈ s.fetches, f.uri = uri ∧ f.keys = keys

/-- The calls that fetch `uri` only. -/
def fetchesOf (uri : String) : RelyGuarantee (KeyProcess T) KeyRequest fun _ => KeyAnswer where
  inv := CacheFetched
  guar s t := s.fetches ⊆ t.fetches
  rely s t := s.fetches ⊆ t.fetches
  asks request _ := request.uri = uri
  replies _ _ _ := True
  guar_refl _ := List.Subset.refl _
  guar_trans := List.Subset.trans
  rely_trans := List.Subset.trans
  asks_rely h _ := h

def Fetched (uri : String) (keys : Json) (s : KeyProcess T) : Prop :=
  ∃ f ∈ s.fetches, f.uri = uri ∧ f.keys = keys

variable {uri : String}

theorem stable_fetched (keys : Json) :
    (fetchesOf uri : RelyGuarantee (KeyProcess T) _ _).Stable (Fetched uri keys) where
  guar := fun ⟨f, hf, h⟩ hst => ⟨f, hst hf, h⟩
  rely := fun ⟨f, hf, h⟩ hst => ⟨f, hst hf, h⟩

theorem CacheFetched.mono {s t : KeyProcess T} (h : CacheFetched s)
    (hcache : t.jwksCache = s.jwksCache) (hst : s.fetches ⊆ t.fetches) : CacheFetched t := by
  intro uri stamp keys hc
  obtain ⟨f, hf, hkeys⟩ := h uri stamp keys (hcache ▸ hc)
  exact ⟨f, hst hf, hkeys⟩

theorem CacheFetched.store {s : KeyProcess T} (h : CacheFetched s) {keys : Json} (stamp : T)
    (hkeys : Fetched uri keys s) :
    CacheFetched { s with jwksCache := Function.update s.jwksCache uri (some (stamp, keys)) } := by
  intro uri' stamp' keys' hc
  by_cases huri : uri' = uri
  · subst huri
    obtain ⟨-, rfl⟩ : stamp = stamp' ∧ keys = keys' := by simpa using hc
    exact hkeys
  · exact h uri' stamp' keys' (by simpa [huri] using hc)

theorem triple_fetchJwks (call : ℕ) :
    Triple (fetchesOf uri) (fun _ => True)
      (fetchJwks call uri : ExceptT FetchError (KeyTask T) Json).run (Returned (Fetched uri)) := by
  unfold fetchJwks
  refine Triple.bindGet fun t => Triple.bindWait (fun _ _ => rfl) fun answer => ?_
  cases answer with
  | transportError => exact Triple.throw
  | other => exact Triple.throw
  | cancelled => exact Triple.throw
  | response status body =>
    dsimp only
    split
    · exact Triple.throw
    · split
      · next members =>
        refine Triple.bindModify (q := Fetched uri ((lookup "keys" members).getD (.arr []))) ?_
          (Triple.value fun _ _ h => h)
        intro s hs _
        exact ⟨⟨_, List.mem_append_right _ (List.mem_singleton_self _), rfl, rfl⟩,
          hs.mono rfl (List.subset_append_left _ _), List.subset_append_left _ _⟩
      · exact Triple.throw

variable [Field T] [LinearOrder T] in
/-- Whether from the cache, from a fetch, or from the cache as that fails: the keys that
`_get_jwks` returns were fetched. -/
theorem triple_getJwks (forceRefresh : Bool) :
    Triple (fetchesOf uri) (fun _ => True) (getJwks uri forceRefresh : Verifier T Json).run
      (Returned (Fetched uri)) := by
  unfold getJwks
  -- what the history records does not matter here
  have hreturned : ∀ (r : KeyReturn T), Triple (fetchesOf uri) (Fetched uri r.keys)
      (do modifyThe (KeyProcess T) fun s => { s with returns := s.returns ++ [r] }
          return r.keys : Verifier T Json).run (Returned (Fetched uri)) := fun r =>
    Triple.bindModify (q := Fetched uri r.keys)
      (fun s hs h => ⟨h, hs.mono rfl fun _ h => h, fun _ h => h⟩) (Triple.value fun _ _ h => h)
  refine Triple.bindGet fun t₁ => Triple.bindGet fun t₂ => Triple.bindGet fun t₃ => ?_
  refine Triple.bindModify (q := fun s => ∀ c, t₂.jwksCache uri = some c → Fetched uri c.2 s) ?_ ?_
  · rintro s hs ⟨-, rfl, -⟩
    exact ⟨fun c hc => hs uri c.1 c.2 hc, hs.mono rfl fun _ h => h, fun _ h => h⟩
  · dsimp only
    split
    · next stamp keys hcached =>
      obtain ⟨hc, -⟩ := Option.filter_eq_some_iff.mp hcached
      exact (hreturned ⟨_, uri, _, _, _, keys⟩).consequence (fun s h => h _ hc) fun _ _ h => h
    · refine Triple.bindReturned (q := fun r s => Returned (Fetched uri) r s ∧
        ∀ c, t₂.jwksCache uri = some c → Fetched uri c.2 s) ?_ fun r => ?_
      · have hstable : (fetchesOf uri : RelyGuarantee (KeyProcess T) _ _).Stable
            fun s => ∀ c, t₂.jwksCache uri = some c → Fetched uri c.2 s :=
          ⟨fun h hst c hc => (stable_fetched c.2).guar (h c hc) hst,
            fun h hst c hc => (stable_fetched c.2).rely (h c hc) hst⟩
        exact Triple.lift (((triple_fetchJwks _).frame hstable).consequence
          (fun _ h => ⟨trivial, h⟩) fun _ _ h => h)
      · cases r with
        | ok keys =>
          refine Triple.bindModify (q := Fetched uri keys) (fun s hs h => ?_)
            (hreturned ⟨_, uri, _, _, _, keys⟩)
          exact ⟨h.1, hs.store _ h.1, fun _ h => h⟩
        | error e =>
          cases e with
          | other => exact Triple.throw
          | cancelled => exact Triple.throw
          | httpError =>
            dsimp only
            split
            · next stamp keys hc =>
              exact (hreturned ⟨_, uri, _, _, _, keys⟩).consequence (fun s h => h.2 _ hc)
                fun _ _ h => h
            · exact Triple.throw

theorem firstKey_some {kid : Option String} {set : List Json} {key : Dict}
    (h : firstKey kid set = .ok (some key)) : .obj key ∈ set ∧ hasKid kid key := by
  induction set with
  | nil => cases h
  | cons k set ih =>
    cases k with
    | obj members =>
      rw [firstKey] at h
      split_ifs at h with hkid
      · cases h
        exact ⟨List.mem_cons_self, hkid⟩
      · obtain ⟨hmem, hkey⟩ := ih h
        exact ⟨List.mem_cons_of_mem _ hmem, hkey⟩
    | _ => cases h

theorem nextKey_some {kid : Option String} {keys : Json} {key : Dict}
    (h : nextKey kid keys = .ok (some key)) :
    ∃ set, keys = .arr set ∧ .obj key ∈ set ∧ hasKid kid key := by
  cases keys with
  | arr set => exact ⟨set, rfl, firstKey_some h⟩
  | str s =>
    rw [nextKey] at h
    split_ifs at h
    cases h
  | obj members =>
    rw [nextKey] at h
    split_ifs at h
    cases h
  | _ => cases h

theorem claimsOf_ok {jwt : PyJwt} {token : String} {key : Option Dict} {claims : Dict}
    (h : claimsOf jwt token key = .ok claims) :
    ∃ k, key = some k ∧ jwt.decode token k = .ok claims ∧
      (lookup "tenant_id" claims).any isTruthy ∧ (lookup "sub" claims).any isTruthy := by
  cases key with
  | none => cases h
  | some k =>
    refine ⟨k, rfl, ?_⟩
    rw [claimsOf] at h
    cases hd : jwt.decode token k with
    | error e =>
      rw [hd] at h
      cases h
    | ok decoded =>
      rw [hd] at h
      by_cases htenant : (lookup "tenant_id" decoded).any isTruthy
      · by_cases hsub : (lookup "sub" decoded).any isTruthy
        · obtain rfl : decoded = claims := by
            simpa [Except.mapError, bind, Except.bind, pure, Except.pure, htenant, hsub] using h
          exact ⟨rfl, htenant, hsub⟩
        · simp [Except.mapError, bind, Except.bind, throw, throwThe, MonadExceptOf.throw,
            htenant, hsub] at h
      · simp [Except.mapError, bind, Except.bind, throw, throwThe, MonadExceptOf.throw,
          htenant] at h

variable [Field T] [LinearOrder T] in
theorem triple_verifyBearerToken (jwt : PyJwt) (settings : KeycloakSettings) (token : String) :
    Triple (fetchesOf (jwksUri settings)) (fun _ => True)
      (verifyBearerToken jwt settings token : Verifier T Dict).run
      (Returned fun claims s => Verified jwt settings s token claims) := by
  unfold verifyBearerToken
  split
  · exact Triple.throw
  · next kid hkid =>
    -- the key, whichever keys it comes from
    have hclaims : ∀ keys key, nextKey kid keys = .ok key →
        Triple (fetchesOf (jwksUri settings)) (Fetched (jwksUri settings) keys)
          (liftM (claimsOf jwt token key) : Verifier T Dict).run
          (Returned fun claims s => Verified jwt settings s token claims) := by
      refine fun keys key hkey => Triple.ofExcept fun claims hok s _ hf => ?_
      obtain ⟨k, rfl, hdecode, htenant, hsub⟩ := claimsOf_ok hok
      obtain ⟨f, hf, huri, rfl⟩ := hf
      obtain ⟨set, hset, hmem, hhas⟩ := nextKey_some hkey
      exact ⟨f, hf, huri, set, kid, k, hset, hmem, hkid, hhas, hdecode, htenant, hsub⟩
    refine Triple.bindReturned (triple_getJwks false) fun keys => ?_
    refine Triple.bindOk fun key hkey => ?_
    split
    · -- no such key: the keys are fetched once more
      refine Triple.bindReturned ((triple_getJwks true).consequence (fun _ _ => trivial)
        fun _ _ h => h) fun keys => ?_
      exact Triple.bindOk fun key hkey => hclaims keys key hkey
    · exact hclaims keys key hkey

/-! ## Limits and rows -/

def RedisCommand.key : RedisCommand → String
  | .incr key | .expire key _ | .ttl key => key

/-- The calls that send commands on these keys. -/
def commandsOn (keys : List String) : RelyGuarantee (Redis ι T) RedisCommand RedisReply :=
  .readOnly (fun _ => True) (fun command => command.key ∈ keys) fun _ _ => True

section Commands

variable {keys : List String} {key : String} (hkey : key ∈ keys)

include hkey

theorem triple_check (limit windowSeconds : ℤ) :
    Triple (commandsOn keys) (fun _ => True)
      (RateLimit.check key limit windowSeconds : Limiter ι T (Bool × ℤ)).run
      (Returned fun _ _ => True) := by
  unfold RateLimit.check
  have hsend : ∀ command : RedisCommand, command.key ∈ keys → Triple (commandsOn keys)
      (fun _ => True) (RateLimit.redis command : Limiter ι T ℤ).run (Returned fun _ _ => True) :=
    fun command hc => (Triple.wait fun _ _ => hc).consequence (fun _ h => h) fun r _ _ => by
      cases r <;> trivial
  have hverdict : ∀ current : ℤ, Triple (commandsOn keys) (fun _ => True)
      (verdict ⟨key, limit, windowSeconds⟩ current : Limiter ι T (Bool × ℤ)).run
      (Returned fun _ _ => True) := by
    intro current
    unfold verdict
    split
    · exact Triple.bindReturned (hsend (.ttl key) hkey) fun ttl => Triple.value fun _ _ _ => trivial
    · exact Triple.value fun _ _ _ => trivial
  have hcounted : ∀ current : ℤ, Triple (commandsOn keys) (fun _ => True)
      (counted ⟨key, limit, windowSeconds⟩ current : Limiter ι T (Bool × ℤ)).run
      (Returned fun _ _ => True) := by
    intro current
    unfold counted
    split
    · exact Triple.bindReturned (hsend (.expire key windowSeconds) hkey) fun _ => hverdict current
    · exact hverdict current
  exact Triple.bindReturned (hsend (.incr key) hkey) hcounted

theorem triple_enforce (limit : ℤ) :
    Triple (commandsOn keys) (fun _ => True) (RateLimit.enforce key limit : Limiter ι T Unit).run
      (Returned fun _ _ => True) := by
  unfold RateLimit.enforce
  refine Triple.bindReturned (triple_check hkey limit 60) fun answer => ?_
  dsimp only
  split
  · exact Triple.throw
  · exact Triple.value fun _ _ _ => trivial

end Commands

def identityKeys (tenantId subject : String) : List String :=
  ["ratelimit:user:" ++ subject, "ratelimit:tenant:" ++ tenantId]

theorem triple_enforceIdentityRateLimits (settings : RateLimit.Settings)
    (tenantId subject : String) :
    Triple (commandsOn (identityKeys tenantId subject)) (fun _ => True)
      (RateLimit.enforceIdentityRateLimits settings tenantId subject : Limiter ι T Unit).run
      (Returned fun _ _ => True) := by
  unfold RateLimit.enforceIdentityRateLimits
  split
  · exact Triple.value fun _ _ _ => trivial
  · refine Triple.tryCatch (q := Returned fun _ _ => True) ?_ (fun _ _ _ => trivial) fun e => ?_
    · exact Triple.bindReturned (triple_enforce (by simp [identityKeys]) _) fun _ =>
        triple_enforce (by simp [identityKeys]) _
    · cases e with
      | http e headers => exact Triple.throw
      | other => exact Triple.value fun _ _ _ => trivial
      | cancelled => exact Triple.throw

/-- The statement reads the row of this subject, or writes these values to it. -/
def UserStatement.Upserts (subject : String) (row : UserORM) : UserStatement → Prop
  | .select s => s = subject
  | .insert s r | .update s _ r | .commit s _ r => s = subject ∧ r = row

def upsertsOf (subject : String) (row : UserORM) :
    RelyGuarantee (UserTables ι) UserStatement UserReply :=
  .readOnly (fun _ => True) (fun statement => statement.Upserts subject row) fun _ _ => True

theorem triple_upsertFromToken (subject : String) (row : UserORM) :
    Triple (upsertsOf subject row) (fun _ => True)
      (UserRepository.upsertFromToken subject row : UserSession ι Unit).run
      (Returned fun _ _ => True) := by
  have hsend : ∀ statement : UserStatement, statement.Upserts subject row →
      Triple (upsertsOf subject row) (fun _ => True)
        (UserSession.send statement : UserSession ι (UserReplyValue statement)).run
        (Returned fun _ _ => True) :=
    fun statement hs => (Triple.wait fun _ _ => hs).consequence (fun _ h => h) fun r _ _ => by
      cases r <;> trivial
  have hcommit : ∀ loaded, Triple (upsertsOf subject row) (fun _ => True)
      (UserSession.commit subject loaded row : UserSession ι Unit).run
      (Returned fun _ _ => True) := fun loaded => hsend (.commit subject loaded row) ⟨rfl, rfl⟩
  unfold UserRepository.upsertFromToken
  refine Triple.bindReturned (hsend (.select subject) rfl) fun loaded => ?_
  cases loaded with
  | none =>
    exact Triple.bindReturned (hsend (.insert subject row) ⟨rfl, rfl⟩) fun _ => hcommit none
  | some old =>
    dsimp only
    split
    · exact Triple.bindReturned (hsend (.update subject old row) ⟨rfl, rfl⟩) fun _ =>
        hcommit (some old)
    · exact hcommit (some old)

theorem triple_contextAfterUpsert (subject : String) (row : UserORM)
    (context : Except Raised TenantContext) :
    Triple (upsertsOf subject row) (fun _ => True)
      (contextAfterUpsert subject row context : UserSession ι TenantContext).run
      (Returned fun c _ => context = .ok c) :=
  Triple.bindReturned (triple_upsertFromToken subject row) fun _ =>
    Triple.ofExcept fun _ hok _ _ _ => hok

/-! ## Requests -/

section Requests

variable (P : Platform) (jwt : PyJwt) (settings : AuthSettings)

/-- The request brings a verified token with these claims. -/
def Presents (keys : KeyProcess T) (request : ContextRequest) (claims : Dict) : Prop :=
  ∃ token, request.credentials = some token ∧ Verified jwt settings.keycloak keys token claims

/-- What a context may come from. -/
inductive Authenticated (keys : KeyProcess T) (request : ContextRequest) :
    TenantContext → Prop where
  | token {claims : Dict} {context : TenantContext} : Presents jwt settings keys request claims →
      tokenContext P claims = .ok context → Authenticated keys request context
  | headers {context : TenantContext} : request.credentials = none →
      settings.environment = "development" → settings.allowInsecureDevAuth →
      developmentContext request = some context → Authenticated keys request context

/-- What a request may wait for: the configured key set, and once its token is verified the
limits and the row of the token. -/
def Warranted (request : ContextRequest) : ContextOp → ContextMemory ι T → Prop
  | .keys fetch, _ => request.credentials.isSome ∧ fetch.uri = jwksUri settings.keycloak
  | .redis command, t => ∃ claims, Presents jwt settings t.keys request claims ∧
      command.key ∈ identityKeys (claimText P "tenant_id" claims) (claimText P "sub" claims)
  | .users statement, t => ∃ claims row, Presents jwt settings t.keys request claims ∧
      tokenRow P claims = .ok row ∧ statement.Upserts (claimText P "sub" claims) row

variable (requests : ι → ContextRequest) (users : String → Option UserORM)

/-- The row was there, or a verified token for the subject has its values. -/
def RowOrigin (keys : KeyProcess T) (subject : String) (row : UserORM) : Prop :=
  users subject = some row ∨ ∃ i claims, Presents jwt settings keys (requests i) claims ∧
    tokenRow P claims = .ok row ∧ subject = claimText P "sub" claims

/-- Every column of the row has its value from some origin. -/
structure Traceable (origin : UserORM → Prop) (row : UserORM) : Prop where
  tenantId : ∃ o, origin o ∧ row.tenantId = o.tenantId
  ministry : ∃ o, origin o ∧ row.ministry = o.ministry
  email : ∃ o, origin o ∧ row.email = o.email
  roles : ∃ o, origin o ∧ row.roles = o.roles

/-- Increments and rows are those of verified tokens. -/
structure Accounted (t : ContextMemory ι T) : Prop where
  cache : CacheFetched t.keys
  counted : ∀ r ∈ t.redis.increments, ∃ claims,
    Presents jwt settings t.keys (requests r.caller) claims ∧
      r.key ∈ identityKeys (claimText P "tenant_id" claims) (claimText P "sub" claims)
  rows : Images (fun subject => Traceable (RowOrigin P jwt settings requests users t.keys subject))
    t.users.db

variable {P jwt settings requests users} {request : ContextRequest} {s t : ContextMemory ι T}
  {claims : Dict}

theorem Presents.mono {keys keys' : KeyProcess T} (h : Presents jwt settings keys request claims)
    (hkeys : keys.fetches ⊆ keys'.fetches) : Presents jwt settings keys' request claims := by
  obtain ⟨token, htoken, hverified⟩ := h
  exact ⟨token, htoken, hverified.mono hkeys⟩

theorem Authenticated.mono {keys keys' : KeyProcess T} {context : TenantContext}
    (h : Authenticated P jwt settings keys request context)
    (hkeys : keys.fetches ⊆ keys'.fetches) :
    Authenticated P jwt settings keys' request context := by
  cases h with
  | token hclaims hcontext => exact .token (hclaims.mono hkeys) hcontext
  | headers hnone henv hdev hcontext => exact .headers hnone henv hdev hcontext

theorem Warranted.mono {op : ContextOp} (h : Warranted P jwt settings request op s)
    (hst : s.keys.fetches ⊆ t.keys.fetches) : Warranted P jwt settings request op t := by
  cases op with
  | keys fetch => exact h
  | redis command =>
    obtain ⟨claims, hclaims, hkey⟩ := h
    exact ⟨claims, hclaims.mono hst, hkey⟩
  | users statement =>
    obtain ⟨claims, row, hclaims, hrow⟩ := h
    exact ⟨claims, row, hclaims.mono hst, hrow⟩

theorem Traceable.mono {origin origin' : UserORM → Prop} {row : UserORM} (h : Traceable origin row)
    (ho : ∀ o, origin o → origin' o) : Traceable origin' row := by
  obtain ⟨⟨a, ha, hta⟩, ⟨b, hb, hmb⟩, ⟨c, hc, hec⟩, ⟨d, hd, hrd⟩⟩ := h
  exact ⟨⟨a, ho a ha, hta⟩, ⟨b, ho b hb, hmb⟩, ⟨c, ho c hc, hec⟩, ⟨d, ho d hd, hrd⟩⟩

theorem traceable_origin {origin : UserORM → Prop} {row : UserORM} (h : origin row) :
    Traceable origin row :=
  ⟨⟨row, h, rfl⟩, ⟨row, h, rfl⟩, ⟨row, h, rfl⟩, ⟨row, h, rfl⟩⟩

theorem Traceable.update {origin : UserORM → Prop} {row current : UserORM} (loaded : UserORM)
    (hrow : origin row) (h : Traceable origin current) :
    Traceable origin (UserORM.update loaded row current) := by
  unfold UserORM.update
  refine ⟨?_, ?_, ?_, ?_⟩
  all_goals dsimp only
  all_goals split
  · exact h.tenantId
  · exact ⟨row, hrow, rfl⟩
  · exact h.ministry
  · exact ⟨row, hrow, rfl⟩
  · exact h.email
  · exact ⟨row, hrow, rfl⟩
  · exact h.roles
  · exact ⟨row, hrow, rfl⟩

theorem RowOrigin.mono {keys keys' : KeyProcess T} {subject : String} {row : UserORM}
    (h : RowOrigin P jwt settings requests users keys subject row)
    (hkeys : keys.fetches ⊆ keys'.fetches) :
    RowOrigin P jwt settings requests users keys' subject row := by
  rcases h with h | ⟨i, claims, hclaims, hrest⟩
  · exact Or.inl h
  · exact Or.inr ⟨i, claims, hclaims.mono hkeys, hrest⟩

theorem Accounted.withKeys (h : Accounted P jwt settings requests users t) {keys : KeyProcess T}
    (hcache : CacheFetched keys) (hkeys : t.keys.fetches ⊆ keys.fetches) :
    Accounted P jwt settings requests users { t with keys := keys } := by
  refine ⟨hcache, fun r hr => ?_, h.rows.mono fun subject row hrow => ?_⟩
  · obtain ⟨claims, hclaims, hkey⟩ := h.counted r hr
    exact ⟨claims, hclaims.mono hkeys, hkey⟩
  · exact hrow.mono fun o ho => ho.mono hkeys

theorem Accounted.withIncrements (h : Accounted P jwt settings requests users t) {redis : Redis ι T}
    (hredis : ∀ r ∈ redis.increments, r ∈ t.redis.increments ∨ ∃ claims,
      Presents jwt settings t.keys (requests r.caller) claims ∧
        r.key ∈ identityKeys (claimText P "tenant_id" claims) (claimText P "sub" claims)) :
    Accounted P jwt settings requests users { t with redis := redis } := by
  refine ⟨h.cache, fun r hr => ?_, h.rows⟩
  rcases hredis r hr with hr | hr
  · exact h.counted r hr
  · exact hr

variable (P jwt settings requests users) in
def vouching (request : ContextRequest) :
    RelyGuarantee (ContextMemory ι T) ContextOp ContextReply where
  inv := Accounted P jwt settings requests users
  guar s t := s.keys.fetches ⊆ t.keys.fetches
  rely s t := s.keys.fetches ⊆ t.keys.fetches
  asks op t := Warranted P jwt settings request op t
  replies _ _ _ := True
  guar_refl _ := List.Subset.refl _
  guar_trans := List.Subset.trans
  rely_trans := List.Subset.trans
  asks_rely := Warranted.mono

/-! ### The parts -/

theorem fits_keys (h : request.credentials.isSome) :
    Fits (fetchesOf (jwksUri settings.keycloak) : RelyGuarantee (KeyProcess T) _ _)
      (vouching P jwt settings requests users request) ContextMemory.keysPart .keys
      (fun _ reply => reply) fun _ => True where
  stable := ⟨fun _ _ => trivial, fun _ _ => trivial⟩
  inv _ ht := ht.cache
  rely ht := ht
  put _ _ ht hs hst := ⟨ht.withKeys hs hst, hst⟩
  asks _ _ _ hfetch := ⟨h, hfetch⟩
  replies _ _ _ _ := trivial

theorem fits_redis (claims : Dict) :
    Fits (commandsOn (identityKeys (claimText P "tenant_id" claims) (claimText P "sub" claims)) :
        RelyGuarantee (Redis ι T) _ _)
      (vouching P jwt settings requests users request) ContextMemory.redisPart .redis
      (fun _ reply => reply) fun t => Presents jwt settings t.keys request claims where
  stable := ⟨fun h hst => h.mono hst, fun h hst => h.mono hst⟩
  inv _ _ := trivial
  rely _ := trivial
  put t s ht _ hst := by
    obtain rfl : t.redis = s := hst
    exact ⟨ht, List.Subset.refl _⟩
  asks _ _ ht hkey := ⟨claims, ht, hkey⟩
  replies _ _ _ _ := trivial

theorem fits_users {row : UserORM} (hrow : tokenRow P claims = .ok row) :
    Fits (upsertsOf (claimText P "sub" claims) row : RelyGuarantee (UserTables ι) _ _)
      (vouching P jwt settings requests users request) ContextMemory.usersPart .users
      (fun _ reply => reply)
      fun (t : ContextMemory ι T) => Presents jwt settings t.keys request claims where
  stable := ⟨fun h hst => h.mono hst, fun h hst => h.mono hst⟩
  inv _ _ := trivial
  rely _ := trivial
  put t s ht _ hst := by
    obtain rfl : t.users = s := hst
    exact ⟨ht, List.Subset.refl _⟩
  asks _ _ ht hs := ⟨claims, row, ht, hrow, hs⟩
  replies _ _ _ _ := trivial

theorem triple_keys {α : Type} {m : Verifier T α} {q : α → KeyProcess T → Prop}
    (h : request.credentials.isSome)
    (hm : Triple (fetchesOf (jwksUri settings.keycloak)) (fun _ => True) m.run (Returned q)) :
    Triple (vouching P jwt settings requests users request) (fun _ => True)
      (Authenticator.keys m : Authenticator ι T α).run (Returned fun a t => q a t.keys) :=
  (hm.focus (fits_keys h)).consequence (fun _ _ => ⟨trivial, trivial⟩) fun r _ hr => by
    cases r with
    | ok a => exact hr.1
    | error e => trivial

theorem triple_redis {α : Type} {m : Limiter ι T α} (claims : Dict)
    (hm : Triple (commandsOn (identityKeys (claimText P "tenant_id" claims)
      (claimText P "sub" claims))) (fun _ => True) m.run (Returned fun _ _ => True)) :
    Triple (vouching P jwt settings requests users request)
      (fun t => Presents jwt settings t.keys request claims)
      (Authenticator.redis m : Authenticator ι T α).run
      (Returned fun _ t => Presents jwt settings t.keys request claims) :=
  (hm.focus (fits_redis claims)).consequence (fun _ h => ⟨trivial, h⟩) fun r _ hr => by
    cases r with
    | ok a => exact hr.2
    | error e => trivial

theorem triple_users {row : UserORM} (hrow : tokenRow P claims = .ok row) :
    Triple (vouching P jwt settings requests users request)
      (fun t => Presents jwt settings t.keys request claims)
      (Authenticator.users (contextAfterUpsert (claimText P "sub" claims) row (tokenContext P claims)) :
        Authenticator ι T TenantContext).run
      (Returned fun context t => Authenticated P jwt settings t.keys request context) :=
  ((triple_contextAfterUpsert _ row _).focus (fits_users hrow)).consequence
    (fun _ h => ⟨trivial, h⟩) fun r t hr => by
      cases r with
      | ok context => exact .token hr.2 hr.1
      | error e => trivial

variable [Field T] [LinearOrder T] in
theorem triple_authenticate (request : ContextRequest) :
    Triple (vouching P jwt settings requests users request) (fun _ => True)
      (Security.getCurrentContext P jwt settings request : Authenticator ι T TenantContext).run
      (Returned fun context t => Authenticated P jwt settings t.keys request context) := by
  unfold Security.getCurrentContext
  split
  · next token htoken =>
    refine Triple.bindReturned (q := fun claims t => Presents jwt settings t.keys request claims)
      ((triple_keys (by simp [htoken])
        (triple_verifyBearerToken jwt settings.keycloak token)).consequence (fun _ h => h)
        fun r t hr => ?_) fun claims => ?_
    · cases r with
      | ok claims => exact ⟨token, htoken, hr⟩
      | error e => trivial
    · dsimp only
      split
      · exact Triple.throw
      · exact Triple.bindReturned (triple_redis claims
          (triple_enforceIdentityRateLimits settings.rateLimit _ _)) fun _ =>
          Triple.bindOk fun row hrow => triple_users hrow
  · next hnone =>
    split
    · next hsettings =>
      split
      · next context hcontext =>
        exact Triple.value fun _ _ _ => .headers hnone hsettings.1 hsettings.2 hcontext
      · exact Triple.throw
    · exact Triple.throw

/-! ### Answers -/

section Answers

variable [Field T] [LinearOrder T] [DecidableEq ι] [FloorRing T] {i : ι}

omit [DecidableEq ι] in
theorem increment_of_execute {m : Redis ι T} {command : RedisCommand} {r : Increment ι T}
    (hr : r ∈ (m.execute i command).2.increments) :
    r ∈ m.increments ∨ r.key = command.key ∧ r.caller = i := by
  cases command with
  | incr key =>
    obtain ⟨life, c, heq, -⟩ := incr_cases m i key
    simp only [Redis.execute, heq] at hr
    rcases List.mem_append.mp hr with hr | hr
    · exact Or.inl hr
    · obtain rfl := List.mem_singleton.mp hr
      exact Or.inr ⟨rfl, rfl⟩
  | expire key seconds =>
    simp only [Redis.execute, increments_expire] at hr
    exact Or.inl hr
  | ttl key => exact Or.inl hr

theorem images_execute {origin : String → UserORM → Prop} {m m' : UserTables ι}
    (h : Images (fun subject => Traceable (origin subject)) m.db) {subject : String} {row : UserORM}
    (hrow : origin subject row) {statement : UserStatement}
    (hs : statement.Upserts subject row) {r : UserReply statement}
    (hrun : m.execute i statement = some (r, m')) :
    Images (fun subject => Traceable (origin subject)) m'.db := by
  cases statement with
  | select subject =>
    cases hrun
    exact h
  | insert subject row =>
    obtain ⟨rfl, rfl⟩ := hs
    simp only [UserTables.execute] at hrun
    split_ifs at hrun
    · obtain ⟨inserted, hinsert, heq⟩ := Option.map_eq_some_iff.mp hrun
      cases inserted with
      | some db =>
        cases heq
        exact images_insertRow h hinsert (traceable_origin hrow)
      | none =>
        cases heq
        exact images_abort h i
    · cases hrun
      exact images_abort h i
  | update subject loaded row =>
    obtain ⟨rfl, rfl⟩ := hs
    simp only [UserTables.execute] at hrun
    split_ifs at hrun
    · obtain ⟨updated, hmodify, heq⟩ := Option.map_eq_some_iff.mp hrun
      cases updated with
      | some db =>
        cases heq
        exact images_modifyRow h hmodify fun _ hv => hv.update loaded hrow
      | none =>
        cases heq
        exact images_abort h i
    · cases hrun
      exact images_abort h i
  | commit subject loaded row =>
    cases hrun
    exact images_commit h i

theorem accounted_answer {m m' : ContextMemory ι T} {op : ContextOp} {fate : ContextFate}
    {r : ContextReply op} (h : Accounted P jwt settings requests users m)
    (hop : Warranted P jwt settings (requests i) op m)
    (hanswer : m.answer i op fate = some (r, m')) :
    Accounted P jwt settings requests users m' ∧ m.keys.fetches ⊆ m'.keys.fetches := by
  cases op with
  | keys fetch =>
    cases fate with
    | keys reply =>
      cases hanswer
      exact ⟨h, List.Subset.refl _⟩
    | redis fate => cases hanswer
    | users failure => cases hanswer
  | redis command =>
    obtain ⟨claims, hclaims, hkey⟩ := hop
    have hexecuted : Accounted P jwt settings requests users
        { m with redis := (m.redis.execute i command).2 } := by
      refine h.withIncrements fun r hr => ?_
      rcases increment_of_execute hr with hr | ⟨hrkey, hrcaller⟩
      · exact Or.inl hr
      · exact Or.inr ⟨claims, hrcaller ▸ hclaims, hrkey ▸ hkey⟩
    cases fate with
    | redis fate =>
      cases fate with
      | replied =>
        cases hanswer
        exact ⟨hexecuted, List.Subset.refl _⟩
      | raised executed =>
        cases hanswer
        cases executed with
        | true => exact ⟨hexecuted, List.Subset.refl _⟩
        | false => exact ⟨h, List.Subset.refl _⟩
      | cancelled executed =>
        cases hanswer
        cases executed with
        | true => exact ⟨hexecuted, List.Subset.refl _⟩
        | false => exact ⟨h, List.Subset.refl _⟩
    | keys reply => cases hanswer
    | users failure => cases hanswer
  | users statement =>
    obtain ⟨claims, row, hclaims, hrow, hs⟩ := hop
    cases fate with
    | users failure =>
      cases failure with
      | none =>
        obtain ⟨⟨reply, tables⟩, hrun, heq⟩ := Option.map_eq_some_iff.mp hanswer
        cases heq
        refine ⟨⟨h.cache, h.counted, ?_⟩, List.Subset.refl _⟩
        exact images_execute h.rows (Or.inr ⟨i, claims, hclaims, hrow, rfl⟩) hs hrun
      | some e =>
        cases hanswer
        exact ⟨⟨h.cache, h.counted, images_abort h.rows i⟩, List.Subset.refl _⟩
    | keys reply => cases hanswer
    | redis fate => cases hanswer

omit [DecidableEq ι] [FloorRing T] in
theorem accounted_tick {m m' : ContextMemory ι T} {d : T}
    (h : Accounted P jwt settings requests users m) (htick : m.tick d = some m') :
    Accounted P jwt settings requests users m' ∧ m.keys.fetches ⊆ m'.keys.fetches := by
  obtain ⟨keys, hkeys, hrest⟩ := Option.bind_eq_some_iff.mp htick
  obtain ⟨redis, hredis, heq⟩ := Option.bind_eq_some_iff.mp hrest
  cases heq
  obtain ⟨-, rfl⟩ := tick_cases hredis
  unfold KeyProcess.tick at hkeys
  split_ifs at hkeys
  cases hkeys
  exact ⟨⟨h.cache, h.counted, h.rows⟩, List.Subset.refl _⟩

omit [Field T] [LinearOrder T] [DecidableEq ι] [FloorRing T] in
theorem accounted_start (t₀ : T) :
    Accounted P jwt settings requests users (ContextMemory.start t₀ users) := by
  refine ⟨fun uri stamp keys hc => ?_, fun r hr => ?_, ⟨fun subject row hrow => ?_,
    fun subject row hrow => ?_⟩⟩
  · cases hc
  · cases hr
  · exact traceable_origin (Or.inl hrow)
  · cases hrow

end Answers

variable [Field T] [LinearOrder T]

/-- The states that some interleaving of requests to one process reaches. -/
def AuthenticationsReach [DecidableEq ι] [FloorRing T] (P : Platform) (jwt : PyJwt)
    (settings : AuthSettings) (requests : ι → ContextRequest) (t₀ : T)
    (users : String → Option UserORM) (as : List (Label ι ContextFate T))
    (s : Loop ι (ContextMemory ι T) ContextOp ContextReply (Except Raised TenantContext)) : Prop :=
  Runs.Run (authentications P jwt settings requests).Step
    (Loop.init (ContextMemory.start t₀ users)) as s

/-- However the requests interleave and whatever fails, a context is that of a token that
decodes with a fetched key of the configured provider, or of the headers in a development
deployment that allows it; a request that waits for a limit or for `users` has verified its
token; and what is counted, or stored in any column of a row, is of verified tokens only. -/
theorem contexts_are_vouched_for [DecidableEq ι] [FloorRing T] (P : Platform) (jwt : PyJwt)
    (settings : AuthSettings) (requests : ι → ContextRequest) {t₀ : T}
    {users : String → Option UserORM} {as : List (Label ι ContextFate T)}
    {s : Loop ι (ContextMemory ι T) ContextOp ContextReply (Except Raised TenantContext)}
    (h : AuthenticationsReach P jwt settings requests t₀ users as s) :
    (∀ i context, s.result i = some (.ok context) →
      Authenticated P jwt settings s.memory.keys (requests i) context) ∧
    (∀ i op, s.pending i = some op → Warranted P jwt settings (requests i) op s.memory) ∧
    (∀ r ∈ s.memory.redis.increments, ∃ claims,
      Presents jwt settings s.memory.keys (requests r.caller) claims ∧
        r.key ∈ identityKeys (claimText P "tenant_id" claims) (claimText P "sub" claims)) ∧
    ∀ subject row, s.memory.users.db.rows subject = some row →
      Traceable (RowOrigin P jwt settings requests users s.memory.keys subject) row := by
  obtain ⟨hinv, hcalls⟩ := EventLoop.of_run
    (C := fun i => vouching P jwt settings requests users (requests i)) (fun _ => rfl)
    (fun _ => rfl) (fun _ {_ _} hst => hst)
    (Q := fun i => Returned fun context t =>
      Authenticated P jwt settings t.keys (requests i) context)
    (fun {_ r _ _} hr hst => by
      cases r with
      | ok context => exact hr.mono hst
      | error e => trivial)
    (accounted_start t₀) (fun i => triple_authenticate (requests i))
    (fun i op fate m r m' hm hop hanswer => by
      obtain ⟨hm', hfetches⟩ := accounted_answer hm hop hanswer
      exact ⟨hm', hfetches, trivial⟩)
    (fun d m m' hm htick => accounted_tick hm htick) h
  exact ⟨fun i context hi => (hcalls i).2 _ hi, fun i op hop => (hcalls i).1 op hop, hinv.counted,
    hinv.rows.rows⟩

end Requests

def exampleAuthSettings : AuthSettings where
  keycloak := ⟨"http://keycloak", some "http://keycloak/certs"⟩

def exampleRequests (_ : ℕ) : ContextRequest where
  credentials := some "token"
  xTenantId := some "ministry-b"
  xRoles := some "platform-admin"
  xMinistry := none

/-- The keys are fetched, both counters are made, and the row is inserted. -/
def firstAuthentication : List (Label ℕ ContextFate ℚ) :=
  [.call 0, .answer 0 (.keys (.response 200 (some exampleKeys))), .answer 0 (.redis .replied),
    .answer 0 (.redis .replied), .answer 0 (.redis .replied), .answer 0 (.redis .replied),
    .answer 0 (.users none), .answer 0 (.users none), .answer 0 (.users none)]

theorem contexts_are_vouched_for_example :
    ∃ s, AuthenticationsReach examplePlatform exampleJwt exampleAuthSettings exampleRequests (0 : ℚ)
        (fun _ => none) firstAuthentication s ∧
      s.result 0 = some (.ok ⟨"ministry-a", "ministry-a", [], some "user-123"⟩) ∧
      Authenticated examplePlatform exampleJwt exampleAuthSettings s.memory.keys (exampleRequests 0)
        ⟨"ministry-a", "ministry-a", [], some "user-123"⟩ := by
  have hrun : ∃ s, AuthenticationsReach examplePlatform exampleJwt exampleAuthSettings
      exampleRequests (0 : ℚ) (fun _ => none) firstAuthentication s ∧
      s.result 0 = some (.ok ⟨"ministry-a", "ministry-a", [], some "user-123"⟩) :=
    ⟨_, Runs.run_of_exec rfl, rfl⟩
  obtain ⟨s, hs, hresult⟩ := hrun
  exact ⟨s, hs, hresult, (contexts_are_vouched_for _ _ _ _ hs).1 0 _ hresult⟩

end GoAnalyze
