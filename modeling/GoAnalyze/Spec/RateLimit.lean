import GoAnalyze.Lib.EventLoop
import GoAnalyze.Spec.Database
import Mathlib.Algebra.Order.Floor.Ring

/-! `rate_limit.py` against a Redis server. Every command is one await of the call
that sends it; the server runs commands one at a time, and other calls may come in
between any two of them. -/

namespace GoAnalyze

open EventLoop

/-! ## Redis -/

inductive RedisCommand where
  | incr (key : String)
  | expire (key : String) (seconds : ℤ)
  | ttl (key : String)
deriving DecidableEq

/-- An integer key. `expiresAt` is its time to live, as the server keeps it. -/
structure Counter (T : Type) where
  value : ℤ
  expiresAt : Option T

/-- An `INCR` that was run: in which life of the key, when, and for which call. -/
structure Increment (ι T : Type) where
  key : String
  life : ℕ
  time : T
  caller : ι

/-- The server. `lives` counts how often a key was made, and `increments` are the
`INCR` commands in the order they were run: history, which no command reads. -/
structure Redis (ι T : Type) where
  now : T
  counters : String → Option (Counter T)
  lives : String → ℕ
  increments : List (Increment ι T)

section Server

variable {ι T : Type} [Field T] [LinearOrder T]

def Redis.empty (now : T) : Redis ι T := ⟨now, fun _ => none, fun _ => 0, []⟩

/-- The key, unless its time is over. -/
def Redis.get (s : Redis ι T) (key : String) : Option (Counter T) :=
  (s.counters key).filter fun c => c.expiresAt.all fun e => s.now < e

def Redis.put (s : Redis ι T) (key : String) (c : Counter T) : Redis ι T :=
  { s with counters := Function.update s.counters key (some c) }

def Redis.incr (s : Redis ι T) (caller : ι) (key : String) : ℤ × Redis ι T :=
  match s.get key with
  | some c =>
    (c.value + 1, { s.put key { c with value := c.value + 1 } with
      increments := s.increments ++ [⟨key, s.lives key, s.now, caller⟩] })
  | none =>
    (1, { s.put key ⟨1, none⟩ with
      lives := Function.update s.lives key (s.lives key + 1)
      increments := s.increments ++ [⟨key, s.lives key + 1, s.now, caller⟩] })

def Redis.expire (s : Redis ι T) (key : String) (seconds : ℤ) : ℤ × Redis ι T :=
  match s.get key with
  | some c => (1, s.put key { c with expiresAt := some (s.now + seconds) })
  | none => (0, s)

/-- The remaining time in seconds, rounded. -/
def Redis.ttl [FloorRing T] (s : Redis ι T) (key : String) : ℤ :=
  match s.get key with
  | some ⟨_, some e⟩ => ⌊e - s.now + 1 / 2⌋
  | some ⟨_, none⟩ => -1
  | none => -2

def Redis.execute [FloorRing T] (s : Redis ι T) (caller : ι) : RedisCommand → ℤ × Redis ι T
  | .incr key => s.incr caller key
  | .expire key seconds => s.expire key seconds
  | .ttl key => (s.ttl key, s)

/-- Time passes. -/
def Redis.tick (d : T) (s : Redis ι T) : Option (Redis ι T) :=
  if 0 ≤ d then some { s with now := s.now + d } else none

end Server

/-! ## The limiter -/

abbrev RedisReply : RedisCommand → Type := fun _ => Except Raised ℤ

abbrev RedisCall (ι T : Type) := Async (Redis ι T) RedisCommand RedisReply

abbrev Limiter (ι T : Type) := ExceptT Raised (RedisCall ι T)

namespace RateLimit

variable {ι T : Type}

def redis (command : RedisCommand) : Limiter ι T ℤ :=
  (Async.wait command : RedisCall ι T (RedisReply command))

/-- `_check`: whether the call is allowed, and after how long to retry. -/
def check (key : String) (limit windowSeconds : ℤ) : Limiter ι T (Bool × ℤ) := do
  let current ← redis (.incr key)
  if current = 1 then
    let _ ← redis (.expire key windowSeconds)
  if current > limit then
    let ttl ← redis (.ttl key)
    return (false, max ttl 1)
  return (true, 0)

/-- `_enforce`, with the default window of 60 seconds. -/
def enforce (key : String) (limit : ℤ) (windowSeconds : ℤ := 60) : Limiter ι T Unit := do
  let (allowed, retryAfter) ← check key limit windowSeconds
  if !allowed then
    throw (.http ⟨429, "rate_limit_exceeded"⟩ [("Retry-After", toString retryAfter)])

/-- `except HTTPException: raise` and `except Exception:` with a warning. -/
def failOpen : Raised → Limiter ι T Unit
  | .http e headers => throw (.http e headers)
  | .other => pure ()
  | .cancelled => throw .cancelled

structure Settings where
  rateLimitEnabled : Bool := true
  rateLimitPerIpPerMinute : ℤ := 120
  rateLimitPerUserPerMinute : ℤ := 300
  rateLimitPerTenantPerMinute : ℤ := 1000

def enforceIpRateLimit (settings : Settings) (clientHost : Option String) : Limiter ι T Unit := do
  if !settings.rateLimitEnabled then
    return
  let clientIp := clientHost.getD "unknown"
  tryCatch (enforce ("ratelimit:ip:" ++ clientIp) settings.rateLimitPerIpPerMinute) failOpen

def enforceIdentityRateLimits (settings : Settings) (tenantId subject : String) :
    Limiter ι T Unit := do
  if !settings.rateLimitEnabled then
    return
  tryCatch (do
    enforce ("ratelimit:user:" ++ subject) settings.rateLimitPerUserPerMinute
    enforce ("ratelimit:tenant:" ++ tenantId) settings.rateLimitPerTenantPerMinute) failOpen

end RateLimit

/-! ## Concurrent calls -/

/-- What becomes of a command: its reply comes back; it raises, or its task is
cancelled while it waits, and in both cases the server may have run it or not. -/
inductive CommandFate where
  | replied
  | raised (executed : Bool)
  | cancelled (executed : Bool)
deriving DecidableEq

def CommandFate.executed : CommandFate → Bool
  | .replied => true
  | .raised executed | .cancelled executed => executed

/-- The arguments of `_check`. -/
structure Check where
  key : String
  limit : ℤ
  windowSeconds : ℤ

inductive Enforcement where
  | ip (clientHost : Option String)
  | identity (tenantId subject : String)

section Systems

variable {ι T : Type} [Field T] [LinearOrder T] [FloorRing T]

/-- Concurrent `_check` calls, whose commands all succeed. -/
def checks (calls : ι → Check) :
    System ι (Redis ι T) RedisCommand RedisReply (Except Raised (Bool × ℤ)) Unit T where
  program i := RateLimit.check (calls i).key (calls i).limit (calls i).windowSeconds
  answer i command _ s := some ((s.execute i command).map .ok id)
  event := Redis.tick

/-- Concurrent calls of the two limiters, where any command may fail. -/
def enforcements (settings : RateLimit.Settings) (calls : ι → Enforcement) :
    System ι (Redis ι T) RedisCommand RedisReply (Except Raised Unit) CommandFate T where
  program i :=
    match calls i with
    | .ip clientHost => RateLimit.enforceIpRateLimit settings clientHost
    | .identity tenantId subject => RateLimit.enforceIdentityRateLimits settings tenantId subject
  answer i command fate s :=
    let (value, s') := s.execute i command
    match fate with
    | .replied => some (.ok value, s')
    | .raised executed => some (.error .other, if executed then s' else s)
    | .cancelled executed => some (.error .cancelled, if executed then s' else s)
  event := Redis.tick

end Systems

end GoAnalyze
