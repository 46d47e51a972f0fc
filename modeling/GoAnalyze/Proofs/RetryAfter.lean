import GoAnalyze.Lib.AsyncTriples
import GoAnalyze.Proofs.CounterExpiry

/-! What the limiters tell a caller. Whatever fails, and whichever key has lost its time to
live, a refusal names a time to wait within the window, and no failure of Redis is raised. -/

namespace GoAnalyze

open EventLoop RateLimit

variable {ι T : Type} [Field T] [LinearOrder T] [IsStrictOrderedRing T] [FloorRing T]

theorem ttl_le {s : Redis ι T} (h : Bounded s) (key : String) : s.ttl key ≤ 60 := by
  unfold Redis.ttl
  split
  · next v e hget =>
    have he := h.expiry key v e (counters_of_get hget)
    refine Int.lt_add_one_iff.mp (Int.floor_lt.mpr ?_)
    push_cast
    linarith
  · decide
  · decide

/-- A command fails or is cancelled, or is answered; a remaining time is within the window. -/
structure Replied (command : RedisCommand) (reply : Except Raised ℤ) : Prop where
  failure : ∀ e, reply = .error e → e = .other ∨ e = .cancelled
  remaining : ∀ key value, command = .ttl key → reply = .ok value → value ≤ 60

/-- The calls that set times to live of the window only. -/
def windowed : RelyGuarantee (Redis ι T) RedisCommand RedisReply :=
  .readOnly Bounded (fun command => ∀ key seconds, command = .expire key seconds → seconds = 60)
    Replied

/-- What `_check` ends with: a refusal says how long to wait. -/
inductive Measured : Except Raised (Bool × ℤ) → Prop where
  | failed {e : Raised} : e = .other ∨ e = .cancelled → Measured (.error e)
  | allowed {retryAfter : ℤ} : Measured (.ok (true, retryAfter))
  | refused {retryAfter : ℤ} : 1 ≤ retryAfter → retryAfter ≤ 60 → Measured (.ok (false, retryAfter))

/-- What a call of a limiter ends with. -/
inductive Advised : Except Raised Unit → Prop where
  | admitted : Advised (.ok ())
  | cancelled : Advised (.error .cancelled)
  | refused {seconds : ℤ} : 1 ≤ seconds → seconds ≤ 60 →
      Advised (.error (.http ⟨429, "rate_limit_exceeded"⟩ [("Retry-After", toString seconds)]))

omit [IsStrictOrderedRing T] [FloorRing T] in
theorem triple_command (command : RedisCommand)
    (h : ∀ key seconds, command = .expire key seconds → seconds = 60) :
    Triple windowed (fun _ => True) (redis command : Limiter ι T ℤ).run
      fun r _ => Replied command r :=
  Triple.wait fun _ _ => h

omit [IsStrictOrderedRing T] [FloorRing T] in
theorem triple_measured (key : String) (limit : ℤ) :
    Triple windowed (fun _ => True) (check key limit 60 : Limiter ι T (Bool × ℤ)).run
      fun r _ => Measured r := by
  set c : Check := ⟨key, limit, 60⟩
  have hverdict : ∀ current : ℤ, Triple windowed (fun _ => True)
      (verdict c current : Limiter ι T (Bool × ℤ)).run fun r _ => Measured r := by
    intro current
    unfold verdict
    split
    · refine (triple_command (.ttl key) (by simp)).bindExcept (fun ttl => Triple.pure
        fun _ _ hr => ?_) fun e _ hr => .failed (hr.failure e rfl)
      exact .refused (le_max_right _ _) (max_le (hr.remaining key ttl rfl rfl) (by decide))
    · exact Triple.pure fun _ _ _ => .allowed
  have hcounted : ∀ current : ℤ, Triple windowed (fun _ => True)
      (counted c current : Limiter ι T (Bool × ℤ)).run fun r _ => Measured r := by
    intro current
    unfold counted
    split
    · refine (triple_command (.expire key 60) (by simp)).bindExcept (fun _ =>
        (hverdict current).of_true) fun e _ hr => .failed (hr.failure e rfl)
    · exact hverdict current
  exact (triple_command (.incr key) (by simp)).bindExcept (fun current =>
    (hcounted current).of_true) fun e _ hr => .failed (hr.failure e rfl)

omit [IsStrictOrderedRing T] [FloorRing T] in
theorem triple_attempted (key : String) (limit : ℤ) :
    Triple windowed (fun _ => True) (enforce key limit : Limiter ι T Unit).run
      fun r _ => r = .error .other ∨ Advised r := by
  unfold enforce
  refine (triple_measured key limit).bindExcept (fun answer s hs hr => ?_) fun e _ hr => ?_
  · cases hr with
    | allowed => exact ⟨Or.inr .admitted, hs, rfl⟩
    | refused hlow hhigh =>
      exact ⟨Or.inr (.refused hlow hhigh), hs, rfl⟩
  · cases hr with
    | failed he =>
      rcases he with rfl | rfl
      · exact Or.inl rfl
      · exact Or.inr .cancelled

omit [IsStrictOrderedRing T] [FloorRing T] in
theorem triple_swallowed {m : Limiter ι T Unit}
    (h : Triple windowed (fun _ => True) m.run fun r _ => r = .error .other ∨ Advised r) :
    Triple windowed (fun _ => True) (tryCatch m failOpen : Limiter ι T Unit).run
      fun r _ => Advised r := by
  refine h.tryCatch (fun a s hr => hr.resolve_left (by simp)) fun e => ?_
  cases e with
  | http e headers => exact Triple.pure fun _ _ hr => hr.resolve_left (by simp)
  | other => exact Triple.pure fun _ _ _ => .admitted
  | cancelled => exact Triple.pure fun _ _ _ => .cancelled

omit [IsStrictOrderedRing T] in
theorem triple_limiter (settings : RateLimit.Settings) (calls : ι → Enforcement) (i : ι) :
    Triple windowed (fun _ => True)
      ((enforcements settings calls : System ι (Redis ι T) _ _ _ _ _).program i)
      fun r _ => Advised r := by
  unfold enforcements
  dsimp only
  split
  · unfold enforceIpRateLimit
    split
    · exact Triple.pure fun _ _ _ => .admitted
    · exact triple_swallowed (triple_attempted _ _)
  · unfold enforceIdentityRateLimits
    split
    · exact Triple.pure fun _ _ _ => .admitted
    · refine triple_swallowed ((triple_attempted _ _).bindExcept (fun _ =>
        (triple_attempted _ _).of_true) fun e _ hr => ?_)
      rcases hr with hr | hr
      · cases hr
        exact Or.inl rfl
      · cases hr with
        | cancelled => exact Or.inr .cancelled
        | refused hlow hhigh => exact Or.inr (.refused hlow hhigh)

omit [IsStrictOrderedRing T] in
theorem bounded_after [DecidableEq ι] {m : Redis ι T} (h : Bounded m) (i : ι)
    {command : RedisCommand} (hc : ∀ key seconds, command = .expire key seconds → seconds = 60)
    (fate : CommandFate) : Bounded (m.after i command fate) := by
  unfold Redis.after
  split_ifs
  · cases command with
    | incr key => exact bounded_incr h i key
    | expire key seconds =>
      obtain rfl := hc key seconds rfl
      exact bounded_expire h key
    | ttl key => exact h
  · exact h

theorem replied_reply {m : Redis ι T} (h : Bounded m) (i : ι) (command : RedisCommand)
    (fate : CommandFate) : Replied command (fate.reply (m.execute i command).1) := by
  refine ⟨fun e he => ?_, ?_⟩
  · cases fate with
    | replied => cases he
    | raised executed =>
      cases he
      exact Or.inl rfl
    | cancelled executed =>
      cases he
      exact Or.inr rfl
  · rintro key value rfl hv
    obtain ⟨-, rfl⟩ := reply_eq_ok.mp hv
    exact ttl_le h key

/-- In every interleaving, with every command free to fail, a limiter admits its caller or
refuses it with a `Retry-After` of one second to the whole window; it raises nothing else,
unless its own task is cancelled. -/
theorem refusals_say_when [DecidableEq ι] (settings : RateLimit.Settings) (calls : ι → Enforcement)
    {t₀ : T} {as : List (Label ι CommandFate T)} {s : EnforceLoop ι T}
    (h : EnforcementsReach settings calls t₀ as s) {i : ι} {r : Except Raised Unit}
    (hr : s.result i = some r) : Advised r := by
  have hrun := EventLoop.of_run (C := fun _ => windowed) (fun _ => rfl) (fun _ => rfl)
    (fun _ {_ _} _ => trivial) (Q := fun _ r _ => Advised r) (fun hr _ => hr) ?_
    (triple_limiter settings calls) ?_ ?_ h
  · exact (hrun.2 i).2 r hr
  · exact (tidy_init : Tidy (Loop.init (Redis.empty t₀) : EnforceLoop ι T)).bounded
  · intro i command fate m reply m' hm hc hanswer
    rw [answer_eq] at hanswer
    cases hanswer
    exact ⟨bounded_after hm i hc fate, trivial, replied_reply hm i command fate⟩
  · intro d m m' hm hd
    obtain ⟨hnonneg, rfl⟩ := tick_cases hd
    refine ⟨⟨hm.positive, fun key v e hc => (hm.expiry key v e hc).trans ?_⟩, trivial⟩
    simpa using hnonneg

/-- Two requests of one client. The `EXPIRE` of the first fails, and the second finds a key
without time to live. -/
def exampleClient (_ : ℕ) : Enforcement := .ip (some "203.0.113.7")

def refusedWithoutExpiry : List (Label ℕ CommandFate ℚ) :=
  [.call 0, .answer 0 .replied, .answer 0 (.raised false), .call 1, .answer 1 .replied,
    .answer 1 .replied]

theorem refusals_say_when_example :
    ∃ s, EnforcementsReach { rateLimitPerIpPerMinute := 0 } exampleClient (0 : ℚ)
        refusedWithoutExpiry s ∧ s.result 0 = some (.ok ()) ∧
      s.result 1 = some (.error (.http ⟨429, "rate_limit_exceeded"⟩ [("Retry-After", "1")])) ∧
      Advised (.error (.http ⟨429, "rate_limit_exceeded"⟩ [("Retry-After", "1")])) := by
  have hrun : ∃ s, EnforcementsReach { rateLimitPerIpPerMinute := 0 } exampleClient (0 : ℚ)
      refusedWithoutExpiry s ∧ s.result 0 = some (.ok ()) ∧
      s.result 1 = some (.error (.http ⟨429, "rate_limit_exceeded"⟩ [("Retry-After", "1")])) :=
    ⟨_, Runs.run_of_exec rfl, rfl, rfl⟩
  obtain ⟨s, hs, hfirst, hsecond⟩ := hrun
  exact ⟨s, hs, hfirst, hsecond, refusals_say_when _ _ hs hsecond⟩

end GoAnalyze
