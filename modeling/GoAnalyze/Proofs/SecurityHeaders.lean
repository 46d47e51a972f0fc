import GoAnalyze.Proofs.RateLimitBound
import GoAnalyze.Spec.Middleware

/-! Which responses carry the headers of `security_headers`: those that pass it on their
way out. The limiter's refusals and the answer to an unexpected exception are made
outside of it. -/

namespace GoAnalyze

open EventLoop JsonText RateLimit Middleware

/-! ## Headers -/

theorem getHeader_cons (name : String) (header : String × String) (headers : HeaderList) :
    getHeader name (header :: headers) =
      if header.1 = name then some header.2 else getHeader name headers := by
  unfold getHeader
  rw [List.find?_cons]
  by_cases h : header.1 = name <;> simp [h]

theorem getHeader_filter_of_ne {name other : String} (hne : other ≠ name) (headers : HeaderList) :
    getHeader other (headers.filter (·.1 ≠ name)) = getHeader other headers := by
  induction headers with
  | nil => rfl
  | cons header headers ih =>
    by_cases h : header.1 = name
    · rw [List.filter_cons_of_neg (by simpa using h), ih, getHeader_cons, if_neg (h ▸ hne.symm)]
    · rw [List.filter_cons_of_pos (by simpa using h), getHeader_cons, getHeader_cons, ih]

theorem getHeader_setHeader (name value : String) (headers : HeaderList) :
    getHeader name (setHeader name value headers) = some value := by
  induction headers with
  | nil => exact (getHeader_cons _ _ _).trans (if_pos rfl)
  | cons header headers ih =>
    unfold setHeader
    split_ifs with h
    · rw [getHeader_cons, if_pos rfl]
    · rw [getHeader_cons, if_neg h, ih]

theorem getHeader_setHeader_of_ne {name other : String} (hne : other ≠ name) (value : String)
    (headers : HeaderList) :
    getHeader other (setHeader name value headers) = getHeader other headers := by
  induction headers with
  | nil => exact (getHeader_cons _ _ _).trans (if_neg hne.symm)
  | cons header headers ih =>
    unfold setHeader
    split_ifs with h
    · rw [getHeader_cons, getHeader_cons, if_neg hne.symm, if_neg (h ▸ hne.symm),
        getHeader_filter_of_ne hne]
    · rw [getHeader_cons, getHeader_cons, ih]

theorem getHeader_setHeaders_of_notMem {name : String} {values : HeaderList}
    (h : name ∉ values.map Prod.fst) (headers : HeaderList) :
    getHeader name (setHeaders values headers) = getHeader name headers := by
  induction values generalizing headers with
  | nil => rfl
  | cons header values ih =>
    rw [List.map_cons, List.mem_cons, not_or] at h
    exact (ih h.2 _).trans (getHeader_setHeader_of_ne h.1 _ _)

theorem getHeader_setHeaders {values : HeaderList} (hnd : (values.map Prod.fst).Nodup)
    (headers : HeaderList) :
    ∀ header ∈ values, getHeader header.1 (setHeaders values headers) = some header.2 := by
  induction values generalizing headers with
  | nil => simp
  | cons header values ih =>
    rw [List.map_cons, List.nodup_cons] at hnd
    intro header' hheader
    rcases List.mem_cons.mp hheader with rfl | hheader
    · exact (getHeader_setHeaders_of_notMem hnd.1 _).trans (getHeader_setHeader _ _ _)
    · exact ih hnd.2 _ _ hheader

/-- The response has the security headers, with the values that `security_headers` sets. -/
def CarriesHeaders (environment : String) (response : HttpResponse) : Prop :=
  ∀ header ∈ securityHeaderValues environment,
    getHeader header.1 response.headers = some header.2

theorem nodup_securityHeaderValues (environment : String) :
    ((securityHeaderValues environment).map Prod.fst).Nodup := by
  unfold securityHeaderValues
  split_ifs <;> decide

theorem not_carriesHeaders {environment : String} {response : HttpResponse}
    (h : getHeader "x-frame-options" response.headers = none) :
    ¬CarriesHeaders environment response := by
  intro hcarries
  have hframe := hcarries ("x-frame-options", "DENY") (by simp [securityHeaderValues])
  rw [h] at hframe
  cases hframe

theorem getHeader_refusal (content : Json) (retryAfter : String) :
    getHeader "x-frame-options"
      (jsonResponse 429 content [("Retry-After", retryAfter)]).headers = none := by
  have hname : "Retry-After".toLower = "retry-after" := by decide +kernel
  simp [jsonResponse, initHeaders, getHeader, hname]

section Stack

variable {ι T : Type} (script : Async.Script (Redis ι T) RedisCommand RedisReply) (n : ℕ)
  (s : Redis ι T)

/-! ## The limiter -/

/-- Redis answers its clients with values, or they raise something else than an
`HTTPException`. -/
def RaisesNoHttp : Prop := ∀ n command e headers, (script n command).1 ≠ .error (.http e headers)

/-- The `INCR` is answered with a count past the limit, and the commands after it are
answered, too. -/
def Exceeded (key : String) (limit : ℤ) : Prop :=
  ∃ current, (script n (.incr key)).1 = .ok current ∧ limit < current ∧
    (current = 1 → ∃ set, (script (n + 1) (.expire key 60)).1 = .ok set) ∧
    ∃ ttl, (script (if current = 1 then n + 2 else n + 1) (.ttl key)).1 = .ok ttl

/-- What a limiter ends with: it refuses, it allows, or a command has raised. -/
inductive Limited (refused : Prop) : Except Raised Unit → Prop where
  | refused (retryAfter : ℤ) : refused → Limited refused
      (.error (.http ⟨429, "rate_limit_exceeded"⟩ [("Retry-After", toString retryAfter)]))
  | allowed : ¬refused → Limited refused (.ok ())
  | raised {m : ℕ} {command : RedisCommand} {e : Raised} : ¬refused →
      (script m command).1 = .error e → Limited refused (.error e)

theorem play_redis (command : RedisCommand) :
    (redis command : Limiter ι T ℤ).run.play script n s =
      ((script n command).1, n + 1, (script n command).2) := rfl

theorem play_verdict (c : Check) (current : ℤ) :
    ((verdict c current : Limiter ι T (Bool × ℤ)).run.play script n s).1 =
      if c.limit < current then (script n (.ttl c.key)).1.map fun ttl => (false, max ttl 1)
      else .ok (true, 0) := by
  unfold verdict
  split_ifs with hlimit
  · rw [Async.play_bindExcept, play_redis]
    cases (script n (.ttl c.key)).1 <;> rfl
  · rfl

def enforced : Except Raised (Bool × ℤ) → Except Raised Unit
  | .ok (true, _) => .ok ()
  | .ok (false, retryAfter) =>
    .error (.http ⟨429, "rate_limit_exceeded"⟩ [("Retry-After", toString retryAfter)])
  | .error e => .error e

theorem play_enforce (key : String) (limit : ℤ) :
    ((enforce key limit : Limiter ι T Unit).run.play script n s).1 =
      enforced ((check key limit 60 : Limiter ι T (Bool × ℤ)).run.play script n s).1 := by
  unfold enforce
  rw [Async.play_bindExcept]
  rcases (check key limit 60 : Limiter ι T (Bool × ℤ)).run.play script n s with
    ⟨_ | ⟨_ | _, _⟩, _, _⟩ <;> rfl

theorem limited_verdict {key : String} {limit current : ℤ} {refused : Prop}
    (h : refused ↔ limit < current ∧ ∃ ttl, (script n (.ttl key)).1 = .ok ttl) :
    Limited script refused
      (enforced ((verdict ⟨key, limit, 60⟩ current : Limiter ι T (Bool × ℤ)).run.play
        script n s).1) := by
  rw [play_verdict]
  by_cases hlimit : limit < current
  · rw [if_pos hlimit]
    cases httl : (script n (.ttl key)).1 with
    | ok ttl => exact .refused _ (h.mpr ⟨hlimit, ttl, httl⟩)
    | error e =>
      refine .raised (fun hrefused => ?_) httl
      obtain ⟨-, ttl, hok⟩ := h.mp hrefused
      rw [httl] at hok
      cases hok
  · rw [if_neg hlimit]
    exact .allowed fun hrefused => hlimit (h.mp hrefused).1

theorem limited_enforce (key : String) (limit : ℤ) :
    Limited script (Exceeded script n key limit)
      ((enforce key limit : Limiter ι T Unit).run.play script n s).1 := by
  have hcheck : (check key limit 60 : Limiter ι T (Bool × ℤ)) =
      redis (.incr key) >>= counted ⟨key, limit, 60⟩ := rfl
  rw [play_enforce, hcheck, Async.play_bindExcept, play_redis]
  unfold Exceeded
  cases hincr : (script n (.incr key)).1 with
  | error e => exact .raised (by simp) hincr
  | ok current =>
    dsimp only
    unfold counted
    by_cases hone : current = 1
    · rw [if_pos hone, Async.play_bindExcept, play_redis]
      cases hexpire : (script (n + 1) (.expire key 60)).1 with
      | error e =>
        refine .raised ?_ hexpire
        rintro ⟨current', hcurrent, -, hset, -⟩
        cases hcurrent
        obtain ⟨set, hok⟩ := hset hone
        cases hok
      | ok set =>
        refine limited_verdict script (n + 2) _ ?_
        simp [hone]
    · rw [if_neg hone]
      refine limited_verdict script (n + 1) _ ?_
      simp [hone]

variable (settings : WebSettings) (cors : Cors) (routes : Asgi ι T) (request : HttpRequest)

def IpExceeded : Prop :=
  settings.rateLimit.rateLimitEnabled ∧
    Exceeded script 0 ("ratelimit:ip:" ++ request.clientHost.getD "unknown")
      settings.rateLimit.rateLimitPerIpPerMinute

theorem enforceIpRateLimit_cases (hredis : RaisesNoHttp script) :
    let outcome := ((enforceIpRateLimit settings.rateLimit request.clientHost :
      Limiter ι T Unit).run.play script 0 s).1
    (IpExceeded script settings request ∧ ∃ retryAfter, outcome =
      .error (.http ⟨429, "rate_limit_exceeded"⟩ [("Retry-After", toString (retryAfter : ℤ))])) ∨
    (¬IpExceeded script settings request ∧ (outcome = .ok () ∨ outcome = .error .cancelled)) := by
  unfold IpExceeded
  cases henabled : settings.rateLimit.rateLimitEnabled with
  | false =>
    refine Or.inr ⟨by simp, Or.inl ?_⟩
    unfold enforceIpRateLimit
    rw [henabled]
    rfl
  | true =>
    have hrun : (enforceIpRateLimit settings.rateLimit request.clientHost : Limiter ι T Unit) =
        tryCatch (enforce ("ratelimit:ip:" ++ request.clientHost.getD "unknown")
          settings.rateLimit.rateLimitPerIpPerMinute) failOpen := by
      unfold enforceIpRateLimit
      rw [henabled]
      rfl
    have hlimited := limited_enforce script 0 s
      ("ratelimit:ip:" ++ request.clientHost.getD "unknown")
      settings.rateLimit.rateLimitPerIpPerMinute
    rw [hrun, Async.play_tryCatch, and_iff_right rfl]
    generalize (enforce ("ratelimit:ip:" ++ request.clientHost.getD "unknown")
      settings.rateLimit.rateLimitPerIpPerMinute : Limiter ι T Unit).run.play script 0 s = played
      at hlimited ⊢
    obtain ⟨outcome, n', s'⟩ := played
    cases hlimited with
    | refused retryAfter hexceeded => exact Or.inl ⟨hexceeded, _, rfl⟩
    | allowed hwithin => exact Or.inr ⟨hwithin, Or.inl rfl⟩
    | @raised m command e hwithin hraised =>
      refine Or.inr ⟨hwithin, ?_⟩
      cases e with
      | http e headers => exact absurd hraised (hredis m command e headers)
      | other => exact Or.inl rfl
      | cancelled => exact Or.inr rfl

/-! ## The layers -/

/-- The routes are called, and raise an exception that is no `HTTPException`. -/
def RoutesRaise (n : ℕ) (s : Redis ι T) : Prop :=
  cors.preflight request = none ∧ ((routes request).run.play script n s).1 = .error .other

theorem exceptionMiddleware_cases :
    let outcome := ((exceptionMiddleware routes request).run.play script n s).1
    ((routes request).run.play script n s).1 ≠ .error .other ∧
        ((∃ response, outcome = .ok response) ∨ outcome = .error .cancelled) ∨
      ((routes request).run.play script n s).1 = .error .other ∧ outcome = .error .other := by
  unfold exceptionMiddleware
  rw [Async.play_tryCatch]
  rcases (routes request).run.play script n s with ⟨(_ | _ | _) | response, n', s'⟩
  · exact Or.inl ⟨by simp, Or.inl ⟨_, rfl⟩⟩
  · exact Or.inr ⟨rfl, rfl⟩
  · exact Or.inl ⟨by simp, Or.inr rfl⟩
  · exact Or.inl ⟨by simp, Or.inl ⟨_, rfl⟩⟩

theorem securityHeaders_cases :
    let outcome := ((securityHeaders settings.environment (corsMiddleware cors
      (exceptionMiddleware routes)) request).run.play script n s).1
    ¬RoutesRaise script cors routes request n s ∧ ((∃ response, outcome = .ok response ∧
        CarriesHeaders settings.environment response) ∨ outcome = .error .cancelled) ∨
      RoutesRaise script cors routes request n s ∧ outcome = .error .other := by
  unfold RoutesRaise securityHeaders corsMiddleware
  rw [Async.play_bindExcept]
  cases cors.preflight request with
  | some response =>
    exact Or.inl ⟨by simp, Or.inl ⟨_, rfl, getHeader_setHeaders (nodup_securityHeaderValues _) _⟩⟩
  | none =>
    dsimp only
    rw [Async.play_bindExcept]
    have hinner := exceptionMiddleware_cases script n s routes request
    rcases hplay : (exceptionMiddleware routes request).run.play script n s with
      ⟨e | response, n', s'⟩
    · rw [hplay] at hinner
      obtain ⟨hroutes, ⟨response, hok⟩ | hcancelled⟩ | ⟨hroutes, hother⟩ := hinner
      · cases hok
      · exact Or.inl ⟨fun h => hroutes h.2, Or.inr hcancelled⟩
      · exact Or.inr ⟨⟨rfl, hroutes⟩, hother⟩
    · rw [hplay] at hinner
      obtain ⟨hroutes, -⟩ | ⟨-, hother⟩ := hinner
      · exact Or.inl ⟨fun h => hroutes h.2, Or.inl ⟨_, rfl,
          getHeader_setHeaders (nodup_securityHeaderValues _) _⟩⟩
      · cases hother

/-- The limiter lets the request through: the middleware inside it begins at await `n`, in
the state `s'`. -/
def LetsThrough (n : ℕ) (s' : Redis ι T) : Prop :=
  request.path ∈ exemptPaths ∧ (n, s') = (0, s) ∨ request.path ∉ exemptPaths ∧
    (enforceIpRateLimit settings.rateLimit request.clientHost : Limiter ι T Unit).run.play script 0 s =
      (.ok (), n, s')

def Refuses : Prop := request.path ∉ exemptPaths ∧ IpExceeded script settings request

theorem ipRateLimit_cases (hredis : RaisesNoHttp script) (callNext : Asgi ι T) :
    let outcome := ((ipRateLimit settings.rateLimit callNext request).run.play script 0 s).1
    (Refuses script settings request ∧ ∃ retryAfter : ℤ, outcome = .ok (jsonResponse 429
      (.obj [("detail", .str "rate_limit_exceeded")]) [("Retry-After", toString retryAfter)])) ∨
    (¬Refuses script settings request ∧ ∃ n' s', LetsThrough script s settings request n' s' ∧
      outcome = ((callNext request).run.play script n' s').1) ∨
    (¬Refuses script settings request ∧ (∀ n' s', ¬LetsThrough script s settings request n' s') ∧
      outcome = .error .cancelled) := by
  unfold ipRateLimit Refuses LetsThrough
  by_cases hexempt : request.path ∈ exemptPaths
  · rw [if_neg (not_not.mpr hexempt)]
    exact Or.inr (Or.inl ⟨fun h => h.1 hexempt, 0, s, Or.inl ⟨hexempt, rfl⟩, rfl⟩)
  · rw [if_pos hexempt, and_iff_right hexempt, Async.play_bindExcept, Async.play_tryCatch,
      Async.play_bindExcept]
    have hlimiter := enforceIpRateLimit_cases script s settings request hredis
    rcases hplay : (enforceIpRateLimit settings.rateLimit request.clientHost :
      Limiter ι T Unit).run.play script 0 s with ⟨outcome, n', s'⟩
    rw [hplay] at hlimiter
    obtain ⟨hexceeded, retryAfter, hrefused⟩ | ⟨hwithin, hok | hcancelled⟩ := hlimiter
    · dsimp only at hrefused
      subst hrefused
      exact Or.inl ⟨hexceeded, retryAfter, rfl⟩
    · dsimp only at hok
      subst hok
      exact Or.inr (Or.inl ⟨hwithin, n', s', Or.inr ⟨hexempt, rfl⟩, rfl⟩)
    · dsimp only at hcancelled
      subst hcancelled
      refine Or.inr (Or.inr ⟨hwithin, fun n s' h => ?_, rfl⟩)
      obtain ⟨hpath, -⟩ | ⟨-, hthrough⟩ := h
      · exact hexempt hpath
      · cases hthrough

variable {script s settings request} in
theorem LetsThrough.unique {n₁ n₂ : ℕ} {s₁ s₂ : Redis ι T}
    (h₁ : LetsThrough script s settings request n₁ s₁)
    (h₂ : LetsThrough script s settings request n₂ s₂) : (n₁, s₁) = (n₂, s₂) := by
  obtain ⟨hexempt, h₁⟩ | ⟨hpath, h₁⟩ := h₁
  · obtain ⟨-, h₂⟩ | ⟨hpath, -⟩ := h₂
    · rw [h₁, h₂]
    · exact absurd hexempt hpath
  · obtain ⟨hexempt, -⟩ | ⟨-, h₂⟩ := h₂
    · exact absurd hexempt hpath
    · rw [h₁] at h₂
      cases h₂
      rfl

/-- The stack as it is built: what the middleware inside gives, `ServerErrorMiddleware`
turns into a response, unless the request is cancelled. -/
theorem play_app :
    ((app settings cors routes request).run.play script 0 s).1 =
      match ((ipRateLimit settings.rateLimit (securityHeaders settings.environment
        (corsMiddleware cors (exceptionMiddleware routes))) request).run.play script 0 s).1 with
      | .ok response => .ok response
      | .error (.http e headers) => .ok (httpExceptionHandler e headers)
      | .error .other => .ok ⟨500, [("content-type", "application/json")],
          .text "\x7b\"detail\":\"internal_server_error\"\x7d"⟩
      | .error .cancelled => .error .cancelled := by
  have hstack : app settings cors routes request = tryCatch
      (ipRateLimit settings.rateLimit (securityHeaders settings.environment
        (corsMiddleware cors (exceptionMiddleware routes))) request) unhandledExceptionHandler := rfl
  rw [hstack, Async.play_tryCatch]
  rcases (ipRateLimit settings.rateLimit (securityHeaders settings.environment
    (corsMiddleware cors (exceptionMiddleware routes))) request).run.play script 0 s with
    ⟨(_ | _ | _) | _, n', s'⟩ <;> rfl

/-- Every response to the request carries the security headers. -/
def AlwaysCarries : Prop :=
  ∀ response, ((app settings cors routes request).run.play script 0 s).1 = .ok response →
    CarriesHeaders settings.environment response

section Responses

variable {script s settings cors routes request}

theorem not_alwaysCarries_of_refuses (hredis : RaisesNoHttp script)
    (h : Refuses script settings request) :
    ¬AlwaysCarries script s settings cors routes request := by
  unfold AlwaysCarries
  rw [play_app]
  obtain ⟨-, retryAfter, houtcome⟩ | ⟨hlimit, -⟩ | ⟨hlimit, -⟩ :=
    ipRateLimit_cases script s settings request hredis
      (securityHeaders settings.environment (corsMiddleware cors (exceptionMiddleware routes)))
  · rw [houtcome]
    exact fun hcarries => not_carriesHeaders (getHeader_refusal _ _) (hcarries _ rfl)
  · exact absurd h hlimit
  · exact absurd h hlimit

theorem alwaysCarries_iff_of_letsThrough (hredis : RaisesNoHttp script) {n : ℕ} {s' : Redis ι T}
    (h : LetsThrough script s settings request n s') (hlimit : ¬Refuses script settings request) :
    AlwaysCarries script s settings cors routes request ↔
      ¬RoutesRaise script cors routes request n s' := by
  unfold AlwaysCarries
  rw [play_app]
  obtain ⟨hrefuses, -⟩ | ⟨-, n₂, s₂, h₂, houtcome⟩ | ⟨-, hnot, -⟩ :=
    ipRateLimit_cases script s settings request hredis
      (securityHeaders settings.environment (corsMiddleware cors (exceptionMiddleware routes)))
  · exact absurd hrefuses hlimit
  · cases h₂.unique h
    rw [houtcome]
    obtain ⟨hroutes, ⟨response, hok, hcarries⟩ | hcancelled⟩ | ⟨hroutes, hother⟩ :=
      securityHeaders_cases script n s' settings cors routes request
    · rw [hok]
      refine iff_of_true (fun response' heq => ?_) hroutes
      cases heq
      exact hcarries
    · rw [hcancelled]
      refine iff_of_true (fun response' heq => ?_) hroutes
      cases heq
    · -- the exception passes every middleware
      rw [hother]
      exact iff_of_false (fun hcarries => not_carriesHeaders rfl (hcarries _ rfl))
        (not_not.mpr hroutes)
  · exact absurd h (hnot n s')

end Responses

/-- Every response carries the headers, except for the refusals of the limiter and the
answers to exceptions of the routes other than `HTTPException`. -/
theorem security_headers_iff (hredis : RaisesNoHttp script) :
    AlwaysCarries script s settings cors routes request ↔
      ¬Refuses script settings request ∧ ∀ n s', LetsThrough script s settings request n s' →
        ¬RoutesRaise script cors routes request n s' := by
  by_cases hlimit : Refuses script settings request
  · exact iff_of_false (not_alwaysCarries_of_refuses hredis hlimit) fun h => h.1 hlimit
  rw [and_iff_right hlimit]
  constructor
  · exact fun hcarries n s' h => (alwaysCarries_iff_of_letsThrough hredis h hlimit).mp hcarries
  · intro hroutes
    by_cases hthrough : ∃ n s', LetsThrough script s settings request n s'
    · obtain ⟨n, s', h⟩ := hthrough
      exact (alwaysCarries_iff_of_letsThrough hredis h hlimit).mpr (hroutes n s' h)
    · -- the request is cancelled in the limiter, and gets no response
      unfold AlwaysCarries
      rw [play_app]
      obtain ⟨hrefuses, -⟩ | ⟨-, n, s', h, -⟩ | ⟨-, -, houtcome⟩ :=
        ipRateLimit_cases script s settings request hredis
          (securityHeaders settings.environment (corsMiddleware cors (exceptionMiddleware routes)))
      · exact absurd hrefuses hlimit
      · exact absurd ⟨n, s', h⟩ hthrough
      · rw [houtcome]
        intro response heq
        cases heq

end Stack

/-! ## A request -/

def exampleGet : HttpRequest := ⟨"GET", "/v1/documents/7", some "10.0.0.7", []⟩

/-- A Redis server that counts this many requests of the window, with 30 seconds left. -/
def counting (current : ℤ) : Async.Script (Redis ℕ ℚ) RedisCommand RedisReply
  | _, .incr _ => (.ok current, Redis.empty 0)
  | _, .expire _ _ => (.ok 1, Redis.empty 0)
  | _, .ttl _ => (.ok 30, Redis.empty 0)

/-- No request is a preflight request, and no header is added. -/
def exampleCors : Cors := ⟨fun _ => none, fun _ response => response⟩

def exampleRoutes : Asgi ℕ ℚ := fun _ => pure (jsonResponse 200 (.obj []) [])

def exampleSettingsOf (environment : String) : WebSettings := { environment := environment }

theorem raisesNoHttp_counting (current : ℤ) : RaisesNoHttp (counting current) := by
  rintro n (_ | _ | _) e headers h
  all_goals cases h

theorem ipExceeded_counting_iff {current : ℤ} {environment : String} :
    IpExceeded (counting current) (exampleSettingsOf environment) exampleGet ↔ 120 < current := by
  constructor
  · rintro ⟨-, current', hcurrent, hlimit, -⟩
    cases hcurrent
    exact hlimit
  · intro hlimit
    exact ⟨rfl, current, rfl, hlimit, fun _ => ⟨1, rfl⟩, 30, rfl⟩

/-- The first request of a window, answered in production. -/
theorem security_headers_production :
    AlwaysCarries (counting 1) (Redis.empty 0) (exampleSettingsOf "production") exampleCors
      exampleRoutes exampleGet := by
  refine (security_headers_iff (counting 1) _ _ _ _ _ (raisesNoHttp_counting 1)).mpr
    ⟨fun h => ?_, fun n s' _ h => ?_⟩
  · exact absurd (ipExceeded_counting_iff.mp h.2) (by decide)
  · cases h.2

/-- Neither the 121st request of a minute nor one whose route fails is answered with the
headers. -/
theorem security_headers_missing :
    ¬AlwaysCarries (counting 121) (Redis.empty 0) (exampleSettingsOf "production") exampleCors
        exampleRoutes exampleGet ∧
      ¬AlwaysCarries (counting 1) (Redis.empty 0) (exampleSettingsOf "production") exampleCors
        (fun _ => throw .other) exampleGet := by
  constructor
  · exact not_alwaysCarries_of_refuses (raisesNoHttp_counting 121)
      ⟨by decide, ipExceeded_counting_iff.mpr (by decide)⟩
  · have hlimit : ¬Refuses (counting 1) (exampleSettingsOf "production") exampleGet :=
      fun h => absurd (ipExceeded_counting_iff.mp h.2) (by decide)
    refine mt (alwaysCarries_iff_of_letsThrough (raisesNoHttp_counting 1)
      (Or.inr ⟨by decide, rfl⟩) hlimit).mp (not_not.mpr ⟨rfl, rfl⟩)

end GoAnalyze
