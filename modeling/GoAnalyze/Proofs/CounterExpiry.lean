import GoAnalyze.Proofs.RateLimitBound

/-! When the limiter's keys expire, with commands that fail and tasks that are
cancelled. A key without a time to live is in the care of the one call that made it,
until that call's `EXPIRE`. A key that loses this call keeps its count for ever. -/

namespace GoAnalyze

open EventLoop RateLimit

variable {ι T : Type}

/-! ## The programs -/

section Programs

variable {α β : Type}

/-- The call is between the `INCR` that made a key and its `EXPIRE`. -/
def Expiring (m : RedisCall ι T α) (key : String) : Prop :=
  ∃ seconds, m.pending = some (.expire key seconds)

/-- The call sends `EXPIRE` with the window of 60 seconds where it has just read `1`
from that key, and nowhere else. -/
def Orderly : RedisCall ι T α → Prop
  | .done _ => True
  | .act _ _ => False
  | .await (.incr key) k =>
    (k (.ok 1)).pending = some (.expire key 60) ∧
      (∀ r, r ≠ .ok 1 → ∀ key', ¬Expiring (k r) key') ∧ ∀ r, Orderly (k r)
  | .await (.expire _ _) k => (∀ r key', ¬Expiring (k r) key') ∧ ∀ r, Orderly (k r)
  | .await (.ttl _) k => (∀ r key', ¬Expiring (k r) key') ∧ ∀ r, Orderly (k r)

theorem Orderly.settle_eq {m : RedisCall ι T α} (h : Orderly m) (s : Redis ι T) :
    m.settle s = (m, s) := by
  cases m with
  | done a => rfl
  | act f k => cases h
  | await command k => rfl

theorem pending_bind {m : RedisCall ι T α} {g : α → RedisCall ι T β} {command : RedisCommand}
    (h : m.pending = some command) : (m.bind g).pending = some command := by
  cases m with
  | done a => cases h
  | act f k => cases h
  | await command' k => exact h

theorem expiring_bind {m : RedisCall ι T α} {g : α → RedisCall ι T β} {key : String}
    (hg : ∀ a, ¬Expiring (g a) key) (h : Expiring (m.bind g) key) : Expiring m key := by
  cases m with
  | done a => exact absurd h (hg a)
  | act f k => exact h
  | await command k => exact h

/-- An orderly call that is not about to send `EXPIRE`. -/
def Calm (m : RedisCall ι T α) : Prop := Orderly m ∧ ∀ key, ¬Expiring m key

theorem calm_done (a : α) : Calm (.done a : RedisCall ι T α) := by
  refine ⟨trivial, fun key => ?_⟩
  rintro ⟨seconds, h⟩
  cases h

theorem Orderly.bind {m : RedisCall ι T α} {g : α → RedisCall ι T β} (hm : Orderly m)
    (hg : ∀ a, Calm (g a)) : Orderly (m.bind g) := by
  have hnot : ∀ {m : RedisCall ι T α}, (∀ key, ¬Expiring m key) →
      ∀ key, ¬Expiring (m.bind g) key :=
    fun h key hexp => h key (expiring_bind (fun a => (hg a).2 key) hexp)
  induction m with
  | done a => exact (hg a).1
  | act f k => cases hm
  | await command k ih =>
    cases command with
    | incr key =>
      exact ⟨pending_bind hm.1, fun r hr => hnot (hm.2.1 r hr), fun r => ih r (hm.2.2 r)⟩
    | expire key seconds => exact ⟨fun r => hnot (hm.1 r), fun r => ih r (hm.2 r)⟩
    | ttl key => exact ⟨fun r => hnot (hm.1 r), fun r => ih r (hm.2 r)⟩

theorem Calm.bind {m : RedisCall ι T α} {g : α → RedisCall ι T β} (hm : Calm m)
    (hg : ∀ a, Calm (g a)) : Calm (m.bind g) :=
  ⟨hm.1.bind hg, fun key hexp => hm.2 key (expiring_bind (fun a => (hg a).2 key) hexp)⟩

theorem Orderly.bindExcept {m : Limiter ι T α} {g : α → Limiter ι T β} (hm : Orderly m.run)
    (hg : ∀ a, Calm (g a).run) : Orderly (m >>= g).run := by
  refine Orderly.bind hm fun r => ?_
  cases r with
  | error e => exact calm_done _
  | ok a => exact hg a

theorem Calm.bindExcept {m : Limiter ι T α} {g : α → Limiter ι T β} (hm : Calm m.run)
    (hg : ∀ a, Calm (g a).run) : Calm (m >>= g).run := by
  refine Calm.bind hm fun r => ?_
  cases r with
  | error e => exact calm_done _
  | ok a => exact hg a

theorem orderly_expire (key : String) (seconds : ℤ) :
    Orderly (redis (.expire key seconds) : Limiter ι T ℤ).run :=
  ⟨fun r => (calm_done r).2, fun _ => trivial⟩

theorem calm_ttl (key : String) : Calm (redis (.ttl key) : Limiter ι T ℤ).run := by
  refine ⟨⟨fun r => (calm_done r).2, fun _ => trivial⟩, ?_⟩
  rintro key' ⟨seconds, h⟩
  cases h

theorem calm_verdict (c : Check) (current : ℤ) :
    Calm (verdict c current : Limiter ι T (Bool × ℤ)).run := by
  unfold verdict
  split_ifs
  · exact (calm_ttl _).bindExcept fun _ => calm_done _
  · exact calm_done _

theorem calm_check (key : String) (limit : ℤ) :
    Calm (check key limit 60 : Limiter ι T (Bool × ℤ)).run := by
  set c : Check := ⟨key, limit, 60⟩
  have hone : Orderly (counted c 1 : Limiter ι T (Bool × ℤ)).run :=
    (orderly_expire key 60).bindExcept fun _ => calm_verdict c 1
  have hother : ∀ r, r ≠ .ok 1 →
      Calm (ExceptT.bindCont (counted c) r : Limiter ι T (Bool × ℤ)) := by
    intro r hr
    cases r with
    | error e => exact calm_done _
    | ok v =>
      have hv : v ≠ 1 := fun h => hr (h ▸ rfl)
      show Calm (counted c v : Limiter ι T (Bool × ℤ)).run
      rw [counted, if_neg hv]
      exact calm_verdict c v
  refine ⟨⟨rfl, fun r hr => (hother r hr).2, fun r => ?_⟩, ?_⟩
  · by_cases hr : r = .ok 1
    · subst hr; exact hone
    · exact (hother r hr).1
  · rintro key' ⟨seconds, h⟩
    cases h

theorem calm_enforce (key : String) (limit : ℤ) :
    Calm (enforce key limit : Limiter ι T Unit).run := by
  refine (calm_check key limit).bindExcept fun ⟨allowed, retryAfter⟩ => ?_
  cases allowed with
  | false => exact calm_done _
  | true => exact calm_done _

theorem calm_failOpen (e : Raised) : Calm (failOpen e : Limiter ι T Unit).run := by
  cases e with
  | http e headers => exact calm_done _
  | other => exact calm_done _
  | cancelled => exact calm_done _

theorem calm_tryCatch {m : Limiter ι T Unit} (hm : Calm m.run) :
    Calm (tryCatch m failOpen : Limiter ι T Unit).run := by
  refine hm.bind fun r => ?_
  cases r with
  | ok v => exact calm_done _
  | error e => exact calm_failOpen e

theorem calm_enforceIpRateLimit (settings : RateLimit.Settings) (clientHost : Option String) :
    Calm (enforceIpRateLimit settings clientHost : Limiter ι T Unit).run := by
  unfold enforceIpRateLimit
  split_ifs
  · exact calm_done _
  · exact calm_tryCatch (calm_enforce _ _)

theorem calm_enforceIdentityRateLimits (settings : RateLimit.Settings)
    (tenantId subject : String) :
    Calm (enforceIdentityRateLimits settings tenantId subject : Limiter ι T Unit).run := by
  unfold enforceIdentityRateLimits
  split_ifs
  · exact calm_done _
  · exact calm_tryCatch ((calm_enforce _ _).bindExcept fun _ => calm_enforce _ _)

end Programs

variable [Field T] [LinearOrder T]

/-! ## The server -/

/-- The key is there and has no time to live. -/
def Redis.Endless (s : Redis ι T) (key : String) : Prop := ∃ v, s.get key = some ⟨v, none⟩

/-- Counters are positive, and their time is over within the window. -/
structure Bounded (s : Redis ι T) : Prop where
  positive : ∀ key c, s.counters key = some c → 1 ≤ c.value
  expiry : ∀ key v e, s.counters key = some ⟨v, some e⟩ → e ≤ s.now + 60

section Server

variable {s : Redis ι T} {key key' : String}

omit [Field T] in
theorem endless_iff : s.Endless key ↔ ∃ v, s.counters key = some ⟨v, none⟩ := by
  constructor
  · rintro ⟨v, hv⟩
    exact ⟨v, (Option.filter_eq_some_iff.mp hv).1⟩
  · rintro ⟨v, hv⟩
    exact ⟨v, by simp [Redis.get, hv]⟩

omit [Field T] in
theorem endless_incr (s : Redis ι T) (i : ι) (key key' : String) :
    (s.incr i key).2.Endless key' ↔ s.Endless key' ∨ key' = key ∧ s.get key = none := by
  obtain ⟨life, c, heq, hcases⟩ := incr_cases s i key
  rw [heq]
  by_cases hkey : key' = key
  · subst hkey
    rcases hcases with ⟨⟨v, e⟩, hget, -, rfl⟩ | ⟨hget, -, rfl⟩
    · simp [endless_iff, Redis.put, hget, counters_of_get hget]
    · simp [endless_iff, Redis.put, hget]
  · simp [endless_iff, Redis.put, hkey]

theorem endless_expire (s : Redis ι T) (key key' : String) (seconds : ℤ) :
    (s.expire key seconds).2.Endless key' ↔ s.Endless key' ∧ key' ≠ key := by
  by_cases hkey : key' = key
  · subst hkey
    rcases expire_cases s key' seconds with ⟨hget, heq⟩ | ⟨c, -, heq⟩
    · simp [heq, Redis.Endless, hget]
    · simp [heq, endless_iff, Redis.put]
  · rcases expire_cases s key seconds with ⟨-, heq⟩ | ⟨c, -, heq⟩
    · simp [heq, hkey]
    · simp [heq, endless_iff, Redis.put, hkey]

theorem endless_tick (s : Redis ι T) (d : T) (key : String) :
    Redis.Endless { s with now := s.now + d } key ↔ s.Endless key := by
  simp [endless_iff]

omit [Field T] in
theorem Redis.Endless.get_ne (h : s.Endless key) : s.get key ≠ none := by
  obtain ⟨v, hv⟩ := h
  simp [hv]

theorem bounded_incr (h : Bounded s) (i : ι) (key : String) : Bounded (s.incr i key).2 := by
  obtain ⟨life, c, heq, hcases⟩ := incr_cases s i key
  rw [heq]
  refine ⟨fun k d hd => ?_, fun k v e hd => ?_⟩ <;> by_cases hkey : k = key
  · subst hkey
    obtain rfl : c = d := by simpa [Redis.put] using hd
    rcases hcases with ⟨c₀, hget, -, rfl⟩ | ⟨-, -, rfl⟩
    · have := h.positive k c₀ (counters_of_get hget)
      simp only; omega
    · exact le_refl _
  · exact h.positive k d (by simpa [Redis.put, hkey] using hd)
  · subst hkey
    obtain rfl : c = ⟨v, some e⟩ := by simpa [Redis.put] using hd
    rcases hcases with ⟨⟨v₀, e₀⟩, hget, -, hc⟩ | ⟨-, -, hc⟩
    · obtain ⟨-, rfl⟩ : v = v₀ + 1 ∧ some e = e₀ := by simpa using hc
      exact h.expiry k v₀ e (counters_of_get hget)
    · simp at hc
  · exact h.expiry k v e (by simpa [Redis.put, hkey] using hd)

theorem bounded_expire (h : Bounded s) (key : String) : Bounded (s.expire key 60).2 := by
  rcases expire_cases s key 60 with ⟨-, heq⟩ | ⟨c, hget, heq⟩
  · rwa [heq]
  · rw [heq]
    refine ⟨fun k d hd => ?_, fun k v e hd => ?_⟩ <;> by_cases hkey : k = key
    · subst hkey
      obtain rfl : _ = d := by simpa [Redis.put] using hd
      exact h.positive k c (counters_of_get hget)
    · exact h.positive k d (by simpa [Redis.put, hkey] using hd)
    · subst hkey
      obtain ⟨-, rfl⟩ : c.value = v ∧ s.now + 60 = e := by simpa [Redis.put] using hd
      exact le_refl _
    · exact h.expiry k v e (by simpa [Redis.put, hkey] using hd)

theorem incr_eq_one_iff (h : Bounded s) (i : ι) (key : String) :
    (s.incr i key).1 = 1 ↔ s.get key = none := by
  obtain ⟨life, c, heq, hcases⟩ := incr_cases s i key
  rw [heq]
  rcases hcases with ⟨c₀, hget, -, rfl⟩ | ⟨hget, -, rfl⟩
  · have := h.positive key c₀ (counters_of_get hget)
    simp only [hget, reduceCtorEq, iff_false]; omega
  · simp [hget]

end Server

/-! ## What one step does -/

abbrev EnforceLoop (ι T : Type) := Loop ι (Redis ι T) RedisCommand RedisReply (Except Raised Unit)

/-- Call `i` is between the `INCR` that made the key and its `EXPIRE`. -/
def Attends (s : EnforceLoop ι T) (i : ι) (key : String) : Prop :=
  ∃ seconds, s.pending i = some (.expire key seconds)

/-- No key is without time to live but in the care of exactly one call. -/
structure Tidy (s : EnforceLoop ι T) : Prop where
  orderly : ∀ i t, s.calls i = some t → Orderly t
  bounded : Bounded s.memory
  sixty : ∀ i key seconds, s.pending i = some (.expire key seconds) → seconds = 60
  attended : ∀ i key, Attends s i key → s.memory.Endless key
  unique : ∀ i j key, Attends s i key → Attends s j key → i = j

variable [DecidableEq ι] [FloorRing T]

def Redis.after (s : Redis ι T) (i : ι) (command : RedisCommand) (fate : CommandFate) :
    Redis ι T :=
  if fate.executed then (s.execute i command).2 else s

/-- The steps of the loop. A call attends a key from the `INCR` that answers it `1`. -/
inductive EnforceMove (s : EnforceLoop ι T) : Label ι CommandFate T → EnforceLoop ι T → Prop where
  | begin {i : ι} {t : RedisCall ι T (Except Raised Unit)} : s.pending i = none → Calm t →
      EnforceMove s (.call i) (s.put i (t, s.memory))
  | answer {i : ι} {command : RedisCommand} {t : RedisCall ι T (Except Raised Unit)}
      (fate : CommandFate) : s.pending i = some command → Orderly t →
      (∀ key seconds, t.pending = some (.expire key seconds) ↔ seconds = 60 ∧
        command = .incr key ∧ fate = .replied ∧ (s.memory.incr i key).1 = 1) →
      EnforceMove s (.answer i fate) (s.put i (t, s.memory.after i command fate))
  | tick {d : T} : 0 ≤ d →
      EnforceMove s (.event d) { s with memory := { s.memory with now := s.memory.now + d } }

variable {settings : RateLimit.Settings} {calls : ι → Enforcement} {s s' : EnforceLoop ι T}
  {a : Label ι CommandFate T}

def CommandFate.reply (value : ℤ) : CommandFate → Except Raised ℤ
  | .replied => .ok value
  | .raised _ => .error .other
  | .cancelled _ => .error .cancelled

omit [DecidableEq ι] in
theorem answer_eq (i : ι) (command : RedisCommand) (fate : CommandFate) (m : Redis ι T) :
    (enforcements settings calls).answer i command fate m =
      some (fate.reply (m.execute i command).1, m.after i command fate) := by
  cases fate <;> rfl

theorem reply_eq_ok {value v : ℤ} {fate : CommandFate} :
    fate.reply value = .ok v ↔ fate = .replied ∧ value = v := by
  cases fate <;> simp [CommandFate.reply]

omit [DecidableEq ι] in
theorem calm_program (i : ι) :
    Calm ((enforcements settings calls : System ι (Redis ι T) _ _ _ _ _).program i) := by
  unfold enforcements
  dsimp only
  split
  · exact calm_enforceIpRateLimit _ _
  · exact calm_enforceIdentityRateLimits _ _ _

omit [Field T] [LinearOrder T] [DecidableEq ι] [FloorRing T] in
theorem Orderly.next {command : RedisCommand}
    {k : RedisReply command → RedisCall ι T (Except Raised Unit)}
    (h : Orderly (.await command k)) (r : RedisReply command) :
    Orderly (k r) ∧ ∀ key seconds, (k r).pending = some (.expire key seconds) ↔
      seconds = 60 ∧ command = .incr key ∧ r = .ok 1 := by
  cases command with
  | incr key =>
    refine ⟨h.2.2 r, fun key' seconds => ?_⟩
    by_cases hr : r = .ok 1
    · subst hr
      simp [h.1, eq_comm, and_comm]
    · refine ⟨fun hp => absurd ⟨seconds, hp⟩ (h.2.1 r hr key'), fun hp => absurd hp.2.2 hr⟩
  | expire key seconds' =>
    exact ⟨h.2 r, fun key' seconds =>
      ⟨fun hp => absurd ⟨seconds, hp⟩ (h.1 r key'), fun hp => by cases hp.2.1⟩⟩
  | ttl key =>
    exact ⟨h.2 r, fun key' seconds =>
      ⟨fun hp => absurd ⟨seconds, hp⟩ (h.1 r key'), fun hp => by cases hp.2.1⟩⟩

theorem enforceMove_of_step (hs : Tidy s) (h : (enforcements settings calls).Step s a s') :
    EnforceMove s a s' := by
  cases step_takes h with
  | @call i hnone =>
    have hcalm : Calm ((enforcements settings calls : System ι (Redis ι T) _ _ _ _ _).program i) :=
      calm_program i
    rw [hcalm.1.settle_eq]
    exact .begin (by simp [Loop.pending, hnone]) hcalm
  | @answer i fate command k _ _ hc hanswer =>
    obtain ⟨horderly, hpending⟩ :=
      (hs.orderly i _ hc).next (fate.reply (s.memory.execute i command).1)
    rw [answer_eq] at hanswer
    cases hanswer
    rw [horderly.settle_eq]
    refine .answer fate (by simp [Loop.pending, hc, Async.pending]) horderly fun key seconds => ?_
    rw [hpending, reply_eq_ok]
    constructor
    · rintro ⟨h60, rfl, hfate, hone⟩
      exact ⟨h60, rfl, hfate, hone⟩
    · rintro ⟨h60, rfl, hfate, hone⟩
      exact ⟨h60, rfl, hfate, hone⟩
  | event hm =>
    obtain ⟨hd, rfl⟩ := tick_cases hm
    exact .tick hd

section Put

variable {i j : ι} {t : RedisCall ι T (Except Raised Unit)} {m : Redis ι T} {key : String}

omit [Field T] [LinearOrder T] [FloorRing T] in
theorem attends_put_self : Attends (s.put i (t, m)) i key ↔ Expiring t key := by
  simp [Attends, Expiring, Loop.pending]

omit [Field T] [LinearOrder T] [FloorRing T] in
theorem attends_put_of_ne (h : j ≠ i) : Attends (s.put i (t, m)) j key ↔ Attends s j key := by
  simp [Attends, Loop.pending, h]

omit [DecidableEq ι] in
theorem endless_after (i : ι) (command : RedisCommand) (fate : CommandFate) :
    (m.after i command fate).Endless key ↔ m.Endless key ∧
        ¬(fate.executed ∧ ∃ seconds, command = .expire key seconds) ∨
      fate.executed ∧ command = .incr key ∧ m.get key = none := by
  unfold Redis.after
  split_ifs with hfate
  · cases command with
    | incr k =>
      simp only [Redis.execute, endless_incr, hfate]
      by_cases hk : key = k
      · subst hk; simp
      · simp [hk, Ne.symm hk]
    | expire k seconds =>
      simp only [Redis.execute, endless_expire, hfate]
      simp [eq_comm]
    | ttl k => simp [Redis.execute]
  · simp [hfate]

end Put

/-! ## The care of a key -/

/-- Where a call comes to attend a key, and where one leaves it. -/
theorem attends_of_move (hs : Tidy s) (h : EnforceMove s a s') (i : ι) (key : String) :
    Attends s' i key ↔
      (Attends s i key ∧ ∀ fate, a ≠ .answer i fate) ∨
      (a = .answer i .replied ∧ s.pending i = some (.incr key) ∧ s.memory.get key = none) := by
  cases h with
  | @begin i₀ t hnone hcalm =>
    by_cases hi : i = i₀
    · subst hi
      have hbefore : ¬Attends s i key := by simp [Attends, hnone]
      have hafter : ¬Attends (s.put i (t, s.memory)) i key :=
        mt attends_put_self.mp (hcalm.2 key)
      simp [hbefore, hafter]
    · simp [attends_put_of_ne hi]
  | @answer i₀ command t fate hc ht hpending =>
    by_cases hi : i = i₀
    · subst hi
      rw [attends_put_self]
      have hexpiring : Expiring t key ↔
          command = .incr key ∧ fate = .replied ∧ s.memory.get key = none := by
        simp only [Expiring, hpending, incr_eq_one_iff hs.bounded]
        exact ⟨fun ⟨_, _, h⟩ => h, fun h => ⟨60, rfl, h⟩⟩
      simp [hexpiring, hc, and_left_comm]
    · simp [attends_put_of_ne hi, Ne.symm hi]
  | tick hd =>
    exact ⟨fun h => Or.inl ⟨h, by simp⟩, fun h => show Attends s i key by simpa using h⟩

theorem endless_of_move (h : EnforceMove s a s') (key : String) :
    s'.memory.Endless key ↔
      (s.memory.Endless key ∧ ∀ i fate, a = .answer i fate → fate.executed → ¬Attends s i key) ∨
      ∃ i fate, a = .answer i fate ∧ fate.executed ∧ s.pending i = some (.incr key) ∧
        s.memory.get key = none := by
  cases h with
  | begin hnone hcalm => simp
  | tick hd => simp [endless_tick]
  | @answer i command t fate hc ht hpending =>
    rw [put_memory, endless_after]
    simp [Attends, hc]

theorem bounded_of_move [IsStrictOrderedRing T] (hs : Tidy s) (h : EnforceMove s a s') :
    Bounded s'.memory := by
  cases h with
  | begin hnone hcalm => exact hs.bounded
  | tick hd =>
    exact ⟨hs.bounded.positive, fun key v e hc =>
      (hs.bounded.expiry key v e hc).trans (by simpa using hd)⟩
  | @answer i command t fate hc ht hpending =>
    rw [put_memory, Redis.after]
    split_ifs
    · cases command with
      | incr key => exact bounded_incr hs.bounded i key
      | expire key seconds =>
        obtain rfl := hs.sixty i key seconds hc
        exact bounded_expire hs.bounded key
      | ttl key => exact hs.bounded
    · exact hs.bounded

theorem orderly_of_move (hs : Tidy s) (h : EnforceMove s a s') {j : ι}
    {t : RedisCall ι T (Except Raised Unit)} (hj : s'.calls j = some t) : Orderly t := by
  have hput : ∀ {i t' m}, Orderly t' → (s.put i (t', m)).calls j = some t → Orderly t := by
    intro i t' m ht' h'
    by_cases hi : j = i
    · subst hi
      obtain rfl : t' = t := by simpa using h'
      exact ht'
    · exact hs.orderly j t (by simpa [hi] using h')
  cases h with
  | begin hnone hcalm => exact hput hcalm.1 hj
  | answer fate hc ht hpending => exact hput ht hj
  | tick hd => exact hs.orderly j t hj

theorem sixty_of_move (hs : Tidy s) (h : EnforceMove s a s') {j : ι} {key : String} {seconds : ℤ}
    (hj : s'.pending j = some (.expire key seconds)) : seconds = 60 := by
  have hput : ∀ {i t m}, (t.pending = some (.expire key seconds) → seconds = 60) →
      (s.put i (t, m)).pending j = some (.expire key seconds) → seconds = 60 := by
    intro i t m ht h'
    by_cases hi : j = i
    · subst hi
      exact ht (by simpa [Loop.pending] using h')
    · exact hs.sixty j key seconds (by simpa [Loop.pending, hi] using h')
  cases h with
  | begin hnone hcalm => exact hput (fun h' => absurd ⟨seconds, h'⟩ (hcalm.2 key)) hj
  | answer fate hc ht hpending => exact hput (fun h' => ((hpending key seconds).mp h').1) hj
  | tick hd => exact hs.sixty j key seconds hj

theorem tidy_of_move [IsStrictOrderedRing T] (hs : Tidy s) (h : EnforceMove s a s') : Tidy s' := by
  refine ⟨fun i t => orderly_of_move hs h, bounded_of_move hs h,
    fun i key seconds => sixty_of_move hs h, ?_, ?_⟩
  · intro i key hi
    rw [endless_of_move h]
    rcases (attends_of_move hs h i key).mp hi with ⟨hold, hmover⟩ | ⟨ha, hpend, hget⟩
    · refine Or.inl ⟨hs.attended i key hold, fun j fate ha _ hj => ?_⟩
      obtain rfl := hs.unique i j key hold hj
      exact hmover fate ha
    · exact Or.inr ⟨i, .replied, ha, rfl, hpend, hget⟩
  · intro i j key hi hj
    rcases (attends_of_move hs h i key).mp hi with ⟨hiold, himover⟩ | ⟨ha, -, hget⟩ <;>
      rcases (attends_of_move hs h j key).mp hj with ⟨hjold, hjmover⟩ | ⟨hb, -, hget'⟩
    · exact hs.unique i j key hiold hjold
    · exact absurd hget' (hs.attended i key hiold).get_ne
    · exact absurd hget (hs.attended j key hjold).get_ne
    · rw [ha] at hb
      cases hb; rfl

/-! ## Keys that expire, and keys that never do -/

/-- The step does not part a key from the call that made it: where `INCR` makes the key
its reply comes back, and `EXPIRE` is run. -/
def Attended (s : EnforceLoop ι T) : Label ι CommandFate T → Prop
  | .answer i fate =>
    match s.pending i with
    | some (.incr key) => s.memory.get key = none → fate.executed → fate = .replied
    | some (.expire _ _) => fate.executed
    | _ => True
  | _ => True

/-- The key has no time to live, and no call will give it one. -/
def Orphan (s : EnforceLoop ι T) (key : String) : Prop :=
  s.memory.Endless key ∧ ∀ i, ¬Attends s i key

omit [Field T] [DecidableEq ι] [FloorRing T] in
theorem attended_answer_iff {i : ι} {fate : CommandFate} :
    Attended s (.answer i fate) ↔
      (∀ key, s.pending i = some (.incr key) → s.memory.get key = none → fate.executed →
        fate = .replied) ∧ ∀ key, Attends s i key → fate.executed := by
  simp only [Attended, Attends]
  split
  · next key hp => simp [hp]
  · next key seconds hp => simp [hp]
  · next hincr hexpire =>
    refine ⟨fun _ => ⟨fun key hp => absurd hp (hincr key), fun key hi => ?_⟩, fun _ => trivial⟩
    obtain ⟨seconds, hp⟩ := hi
    exact absurd hp (hexpire key seconds)

theorem orphan_of_move (hs : Tidy s) (h : EnforceMove s a s') {key : String} (ho : Orphan s key) :
    Orphan s' key := by
  refine ⟨(endless_of_move h key).mpr (Or.inl ⟨ho.1, fun i _ _ _ => ho.2 i⟩), fun i hi => ?_⟩
  rcases (attends_of_move hs h i key).mp hi with ⟨hold, -⟩ | ⟨-, -, hget⟩
  · exact ho.2 i hold
  · exact ho.1.get_ne hget

theorem no_orphan_iff_attended (hs : Tidy s) (hnone : ∀ key, ¬Orphan s key)
    (h : EnforceMove s a s') : (∀ key, ¬Orphan s' key) ↔ Attended s a := by
  constructor
  · intro hnone'
    cases a with
    | call i => trivial
    | event d => trivial
    | answer i fate =>
      refine attended_answer_iff.mpr ⟨fun key hp hget hex => ?_, fun key hi => ?_⟩
      · by_contra hne
        refine hnone' key ⟨(endless_of_move h key).mpr
          (Or.inr ⟨i, fate, rfl, hex, hp, hget⟩), fun j hj => ?_⟩
        rcases (attends_of_move hs h j key).mp hj with ⟨hold, -⟩ | ⟨heq, -, -⟩
        · exact (hs.attended j key hold).get_ne hget
        · cases heq
          exact hne rfl
      · by_contra hex
        refine hnone' key ⟨(endless_of_move h key).mpr
          (Or.inl ⟨hs.attended i key hi, fun j fate' heq hex' => ?_⟩), fun j hj => ?_⟩
        · cases heq
          exact absurd hex' hex
        · rcases (attends_of_move hs h j key).mp hj with ⟨hold, hmover⟩ | ⟨heq, -, -⟩
          · obtain rfl := hs.unique i j key hi hold
            exact hmover fate rfl
          · cases heq
            exact hex rfl
  · rintro hattended key ⟨hendless, hno⟩
    rcases (endless_of_move h key).mp hendless with ⟨hold, hex⟩ | ⟨i, fate, rfl, hex, hp, hget⟩
    · -- the call that attended the key still does, or its `EXPIRE` was not run
      obtain ⟨i, hi⟩ : ∃ i, Attends s i key := by
        by_contra hcon
        exact hnone key ⟨hold, fun i hi => hcon ⟨i, hi⟩⟩
      refine hno i ((attends_of_move hs h i key).mpr (Or.inl ⟨hi, fun fate heq => ?_⟩))
      subst heq
      exact hex i fate rfl ((attended_answer_iff.mp hattended).2 key hi) hi
    · obtain rfl := (attended_answer_iff.mp hattended).1 key hp hget hex
      exact hno i ((attends_of_move hs h i key).mpr (Or.inr ⟨rfl, hp, hget⟩))

section Runs

variable [IsStrictOrderedRing T] {t₀ : T} {as : List (Label ι CommandFate T)}

omit [DecidableEq ι] [FloorRing T] [IsStrictOrderedRing T] in
theorem tidy_init : Tidy (Loop.init (Redis.empty t₀) : EnforceLoop ι T) := by
  refine ⟨?_, ⟨?_, ?_⟩, ?_, ?_, ?_⟩ <;> simp [Loop.init, Loop.pending, Redis.empty, Attends]

omit [DecidableEq ι] [FloorRing T] [IsStrictOrderedRing T] [Field T] in
theorem no_orphan_init (key : String) :
    ¬Orphan (Loop.init (Redis.empty t₀) : EnforceLoop ι T) key := by
  simp [Orphan, endless_iff, Loop.init, Redis.empty]

theorem tidy_of_run (hs : Tidy s) (h : Runs.Run (enforcements settings calls).Step s as s') :
    Tidy s' :=
  h.invariant hs fun _ _ _ ht hstep => tidy_of_move ht (enforceMove_of_step ht hstep)

theorem orphan_of_run (hs : Tidy s) (h : Runs.Run (enforcements settings calls).Step s as s')
    {key : String} (ho : Orphan s key) : Orphan s' key :=
  (h.invariant (I := fun t => Tidy t ∧ Orphan t key) ⟨hs, ho⟩ fun _ _ _ ht hstep =>
    ⟨tidy_of_move ht.1 (enforceMove_of_step ht.1 hstep),
      orphan_of_move ht.1 (enforceMove_of_step ht.1 hstep) ht.2⟩).2

/-- The states that some interleaving of the limiters reaches. -/
def EnforcementsReach (settings : RateLimit.Settings) (calls : ι → Enforcement) (t₀ : T)
    (as : List (Label ι CommandFate T)) (s : EnforceLoop ι T) : Prop :=
  Runs.Run (enforcements settings calls).Step (Loop.init (Redis.empty t₀)) as s

/-- The same, where no step parts a key from the call that made it. -/
def AttendedRun (settings : RateLimit.Settings) (calls : ι → Enforcement) (t₀ : T)
    (as : List (Label ι CommandFate T)) (s : EnforceLoop ι T) : Prop :=
  Runs.Run.Every (enforcements settings calls).Step Attended (Loop.init (Redis.empty t₀)) as s

/-- No call is between the `INCR` that made a key and its `EXPIRE`. -/
def Quiet (s : EnforceLoop ι T) : Prop := ∀ i key, ¬Attends s i key

/-- Every key that is there has a time to live, of the window of 60 seconds at most. -/
def KeysExpire (s : EnforceLoop ι T) : Prop :=
  ∀ key c, s.memory.get key = some c → ∃ e, c.expiresAt = some e ∧ e - s.memory.now ≤ 60

theorem attendedRun_iff (h : EnforcementsReach settings calls t₀ as s) :
    AttendedRun settings calls t₀ as s ↔ ∀ key, ¬Orphan s key := by
  constructor
  · intro hattended
    have hkeep : ∀ (t : EnforceLoop ι T) b t', Tidy t →
        (enforcements settings calls).Step t b t' → Tidy t' :=
      fun _ _ _ ht hstep => tidy_of_move ht (enforceMove_of_step ht hstep)
    have hiff : ∀ (t : EnforceLoop ι T) b t', Tidy t → (∀ key, ¬Orphan t key) →
        (enforcements settings calls).Step t b t' → ((∀ key, ¬Orphan t' key) ↔ Attended t b) :=
      fun _ _ _ ht hno hstep => no_orphan_iff_attended ht hno (enforceMove_of_step ht hstep)
    exact ((Runs.Run.every_iff tidy_init no_orphan_init hkeep hiff).mp hattended).2
  · intro hno
    induction h with
    | nil => exact .nil
    | snoc hrun hstep ih =>
      have ht := tidy_of_run tidy_init hrun
      have hmove := enforceMove_of_step ht hstep
      have hbefore : ∀ key, ¬Orphan _ key := fun key ho => hno key (orphan_of_move ht hmove ho)
      exact .snoc (ih hbefore) ((no_orphan_iff_attended ht hbefore hmove).mp hno) hstep

/-- Where no step parts a key from its call, all keys expire; after one that does, some
key is there without time to live for ever. -/
theorem counters_expire (settings : RateLimit.Settings) (calls : ι → Enforcement)
    (h : EnforcementsReach settings calls t₀ as s) :
    (AttendedRun settings calls t₀ as s → Quiet s → KeysExpire s) ∧
    (¬AttendedRun settings calls t₀ as s → ∃ key, ∀ bs s',
      Runs.Run (enforcements settings calls).Step s bs s' →
        ∃ c, s'.memory.get key = some c ∧ c.expiresAt = none) := by
  have ht : Tidy s := tidy_of_run tidy_init h
  rw [attendedRun_iff h]
  constructor
  · rintro hno hquiet key ⟨v, e⟩ hget
    cases e with
    | none => exact absurd ⟨⟨v, hget⟩, fun i => hquiet i key⟩ (hno key)
    | some e =>
      refine ⟨e, rfl, sub_le_iff_le_add'.mpr ?_⟩
      exact ht.bounded.expiry key v e (counters_of_get hget)
  · intro hno
    obtain ⟨key, ho⟩ := not_forall_not.mp hno
    refine ⟨key, fun bs s' hrun => ?_⟩
    obtain ⟨v, hv⟩ := (orphan_of_run ht hrun ho).1
    exact ⟨_, hv, rfl⟩

end Runs

def exampleEnforcement (_ : Fin 1) : Enforcement := .ip (some "203.0.113.7")

/-- The first request of a client: its `INCR` is answered, and its `EXPIRE` times out. -/
def expireTimesOut : List (Label (Fin 1) CommandFate ℚ) :=
  [.call 0, .answer 0 .replied, .answer 0 (.raised false)]

/-- The same with an `EXPIRE` that succeeds. -/
def expireSucceeds : List (Label (Fin 1) CommandFate ℚ) :=
  [.call 0, .answer 0 .replied, .answer 0 .replied]

theorem counter_without_expiry :
    ∃ s, EnforcementsReach {} exampleEnforcement (0 : ℚ) expireTimesOut s ∧ Quiet s ∧
      ∃ c, s.memory.get "ratelimit:ip:203.0.113.7" = some c ∧ c.expiresAt = none := by
  refine ⟨_, Runs.run_of_exec rfl, ?_, ⟨1, none⟩, ?_, rfl⟩
  · rintro i key ⟨seconds, h⟩
    fin_cases i
    cases h
  · rfl

theorem counters_expire_example :
    ∃ s, EnforcementsReach {} exampleEnforcement (0 : ℚ) expireSucceeds s ∧ KeysExpire s := by
  have hrun : ∃ s₁ s₂ s₃, (enforcements {} exampleEnforcement).Step
      (Loop.init (Redis.empty (0 : ℚ))) (.call 0) s₁ ∧
      (enforcements {} exampleEnforcement).Step s₁ (.answer 0 .replied) s₂ ∧
      (enforcements {} exampleEnforcement).Step s₂ (.answer 0 .replied) s₃ ∧
      s₁.pending 0 = some (.incr "ratelimit:ip:203.0.113.7") ∧
      s₂.pending 0 = some (.expire "ratelimit:ip:203.0.113.7" 60) ∧ s₃.pending 0 = none :=
    ⟨_, _, _, rfl, rfl, rfl, rfl, rfl, rfl⟩
  obtain ⟨s₁, s₂, s₃, h₁, h₂, h₃, hp₁, hp₂, hp₃⟩ := hrun
  have hreach : EnforcementsReach {} exampleEnforcement 0 expireSucceeds s₃ :=
    ((Runs.Run.nil.snoc h₁).snoc h₂).snoc h₃
  have hattended : AttendedRun {} exampleEnforcement 0 expireSucceeds s₃ :=
    ((Runs.Run.Every.nil.snoc trivial h₁).snoc (by simp [Attended, hp₁]) h₂).snoc
      (by simp [Attended, hp₂, CommandFate.executed]) h₃
  refine ⟨s₃, hreach, (counters_expire {} exampleEnforcement hreach).1 hattended ?_⟩
  rintro i key ⟨seconds, h⟩
  obtain rfl := Subsingleton.elim i 0
  rw [hp₃] at h
  cases h

end GoAnalyze
