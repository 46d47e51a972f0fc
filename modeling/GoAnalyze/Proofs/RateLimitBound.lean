import GoAnalyze.Lib.FixedWindow
import GoAnalyze.Spec.RateLimit

/-! What the limiter lets through when all commands succeed. The `n` increments in one
life of a key read `1` to `n`, so exactly the first `limit` calls are allowed; a life
lasts for the window at least, so no window meets three. -/

namespace GoAnalyze

open EventLoop FixedWindow RateLimit

variable {ι T : Type}

/-! ## One call -/

/-- What `_check` answers to the value it read. -/
def verdict (c : Check) (current : ℤ) : Limiter ι T (Bool × ℤ) := do
  if current > c.limit then
    let ttl ← redis (.ttl c.key)
    return (false, max ttl 1)
  return (true, 0)

/-- What `_check` does after its `INCR`. -/
def counted (c : Check) (current : ℤ) : Limiter ι T (Bool × ℤ) :=
  if current = 1 then redis (.expire c.key c.windowSeconds) >>= fun _ => verdict c current
  else verdict c current

/-- After its `INCR` a call sends `EXPIRE` and `TTL` of its key only; replies come back. -/
def afterIncr (c : Check) : Async.Contract (Redis ι T) RedisCommand RedisReply where
  asks command := command = .expire c.key c.windowSeconds ∨ command = .ttl c.key
  answers _ reply := ∃ value, reply = .ok value
  acts _ := False

/-- The result is to allow the call exactly if the value it read is within the limit. -/
def Decides (c : Check) (current : ℤ) (result : Except Raised (Bool × ℤ)) : Prop :=
  ∃ retryAfter, result = .ok (decide (current ≤ c.limit), retryAfter)

theorem within_verdict (c : Check) (current : ℤ) :
    Async.Within (afterIncr c) (Decides c current)
      (verdict c current : Limiter ι T (Bool × ℤ)).run := by
  unfold verdict
  split_ifs with hgt
  · refine (Async.within_wait (Or.inr rfl)).bindExcept (fun ttl _ => ⟨max ttl 1, ?_⟩) ?_
    · simp [not_le.mpr hgt]
    · rintro e ⟨v, hv⟩
      cases hv
  · exact ⟨0, by simp [not_lt.mp hgt]⟩

theorem within_counted (c : Check) (current : ℤ) :
    Async.Within (afterIncr c) (Decides c current)
      (counted c current : Limiter ι T (Bool × ℤ)).run := by
  unfold counted
  split_ifs with hone
  · refine (Async.within_wait (Or.inl rfl)).bindExcept (fun _ _ => within_verdict c current) ?_
    rintro e ⟨v, hv⟩
    cases hv
  · exact within_verdict c current

/-! ## The server -/

/-- The increments in one life of a key, in order. -/
def Redis.inLife (s : Redis ι T) (key : String) (life : ℕ) : List (Increment ι T) :=
  s.increments.filter fun r => r.key = key ∧ r.life = life

variable {calls : ι → Check} {s s' : Redis ι T} {i : ι} {key : String}

theorem inLife_eq (s : Redis ι T) (key : String) (life : ℕ) :
    s.inLife key life = (s.increments.filter (·.key = key)).filter (·.life = life) := by
  rw [List.filter_filter]
  exact List.filter_congr fun r _ => by rw [Bool.decide_and, Bool.and_comm]

theorem inLife_append {r : Increment ι T} (h : s'.increments = s.increments ++ [r])
    (key : String) (life : ℕ) :
    s'.inLife key life =
      s.inLife key life ++ if r.key = key ∧ r.life = life then [r] else [] := by
  unfold Redis.inLife
  rw [h, List.filter_append, List.filter_singleton]
  simp [Bool.cond_eq_ite]

variable [Field T] [LinearOrder T]

/-- A key holds the number of increments of its present life. -/
structure Counts (calls : ι → Check) (s : Redis ι T) : Prop where
  value : ∀ key c, s.counters key = some c → c.value = (s.inLife key (s.lives key)).length
  unmade : ∀ key, s.counters key = none → s.lives key = 0
  life_le : ∀ r ∈ s.increments, r.life ≤ s.lives r.key
  caller_key : ∀ r ∈ s.increments, r.key = (calls r.caller).key
  nodup : (s.increments.map Increment.caller).Nodup
  time_le : ∀ r ∈ s.increments, r.time ≤ s.now

/-- The lives of a key, from their first increment on, last for the window at least. -/
structure Lasting (key : String) (window : T) (s : Redis ι T) : Prop where
  ended : ∀ r ∈ s.increments, r.key = key → r.life + 1 < s.lives key → r.time + window ≤ s.now
  expiry : ∀ r ∈ s.increments, r.key = key → r.life < s.lives key → ∀ v e,
    s.counters key = some ⟨v, some e⟩ → r.time + window ≤ e
  spaced : Spaced Increment.life Increment.time window (s.increments.filter (·.key = key))

omit [Field T] in
theorem get_eq_none (h : s.get key = none) :
    s.counters key = none ∨ ∃ v e, s.counters key = some ⟨v, some e⟩ ∧ e ≤ s.now := by
  cases hc : s.counters key with
  | none => exact Or.inl rfl
  | some c =>
    obtain ⟨v, e⟩ := c
    cases e with
    | none => simp [Redis.get, hc] at h
    | some e => exact Or.inr ⟨v, e, rfl, by simpa [Redis.get, hc] using h⟩

omit [Field T] in
theorem counters_of_get {c : Counter T} (h : s.get key = some c) : s.counters key = some c :=
  (Option.filter_eq_some_iff.mp h).1

omit [Field T] in
theorem incr_cases (s : Redis ι T) (i : ι) (key : String) :
    ∃ life c, s.incr i key = (c.value, { s.put key c with
        lives := Function.update s.lives key life
        increments := s.increments ++ [⟨key, life, s.now, i⟩] }) ∧
      ((∃ c₀, s.get key = some c₀ ∧ life = s.lives key ∧
          c = { c₀ with value := c₀.value + 1 }) ∨
        (s.get key = none ∧ life = s.lives key + 1 ∧ c = ⟨1, none⟩)) := by
  cases hget : s.get key with
  | some c =>
    refine ⟨s.lives key, _, ?_, Or.inl ⟨c, rfl, rfl, rfl⟩⟩
    simp [Redis.incr, hget, Redis.put]
  | none =>
    refine ⟨s.lives key + 1, ⟨1, none⟩, ?_, Or.inr ⟨rfl, rfl, rfl⟩⟩
    simp [Redis.incr, hget]

theorem expire_cases (s : Redis ι T) (key : String) (seconds : ℤ) :
    (s.get key = none ∧ (s.expire key seconds).2 = s) ∨ ∃ c, s.get key = some c ∧
      (s.expire key seconds).2 = s.put key { c with expiresAt := some (s.now + seconds) } := by
  cases hget : s.get key with
  | some c => exact Or.inr ⟨c, rfl, by simp [Redis.expire, hget]⟩
  | none => exact Or.inl ⟨rfl, by simp [Redis.expire, hget]⟩

omit [Field T] in
theorem Counts.inLife_succ (h : Counts calls s) (key : String) :
    s.inLife key (s.lives key + 1) = [] := by
  refine List.filter_eq_nil_iff.mpr fun r hr hlife => ?_
  obtain ⟨hkey, hlife⟩ := of_decide_eq_true hlife
  have := h.life_le r hr
  rw [hkey] at this
  omega

omit [Field T] in
theorem counts_incr (h : Counts calls s) (hi : ∀ r ∈ s.increments, r.caller ≠ i) :
    Counts calls (s.incr i (calls i).key).2 ∧
      ∃ life, (s.incr i (calls i).key).2.increments =
          s.increments ++ [⟨(calls i).key, life, s.now, i⟩] ∧
        (s.incr i (calls i).key).1 = (s.inLife (calls i).key life).length + 1 := by
  obtain ⟨life, c, heq, hcases⟩ := incr_cases s i (calls i).key
  have hvalue : c.value = (s.inLife (calls i).key life).length + 1 := by
    rcases hcases with ⟨c₀, hc₀, rfl, rfl⟩ | ⟨-, rfl, rfl⟩
    · simp [h.value _ _ (counters_of_get hc₀)]
    · simp [h.inLife_succ]
  have hlife : s.lives (calls i).key ≤ life := by
    rcases hcases with ⟨c₀, -, rfl, -⟩ | ⟨-, rfl, -⟩ <;> omega
  rw [heq]
  refine ⟨⟨fun key d hd => ?_, fun key hd => ?_, fun r hr => ?_, fun r hr => ?_, ?_,
    fun r hr => ?_⟩, life, rfl, hvalue⟩
  · rw [inLife_append rfl]
    by_cases hkey : key = (calls i).key
    · subst hkey
      obtain rfl : c = d := by simpa [Redis.put] using hd
      simp [hvalue]
    · simpa [Ne.symm hkey, hkey] using h.value key d (by simpa [Redis.put, hkey] using hd)
  · by_cases hkey : key = (calls i).key
    · subst hkey; simp [Redis.put] at hd
    · simpa [hkey] using h.unmade key (by simpa [Redis.put, hkey] using hd)
  · rcases List.mem_append.mp hr with hr | hr
    · have := h.life_le r hr
      by_cases hkey : r.key = (calls i).key
      · simp only [hkey, Function.update_self] at this ⊢; omega
      · simpa [hkey] using this
    · obtain rfl := List.mem_singleton.mp hr; simp
  · rcases List.mem_append.mp hr with hr | hr
    · exact h.caller_key r hr
    · obtain rfl := List.mem_singleton.mp hr; rfl
  · rw [List.map_append]
    refine List.nodup_append.mpr ⟨h.nodup, List.nodup_singleton _, ?_⟩
    rintro a ha b hb rfl
    obtain ⟨r, hr, rfl⟩ := List.mem_map.mp ha
    exact hi r hr (by simpa using hb)
  · rcases List.mem_append.mp hr with hr | hr
    · exact h.time_le r hr
    · obtain rfl := List.mem_singleton.mp hr; exact le_refl _

theorem counts_expire (h : Counts calls s) (key : String) (seconds : ℤ) :
    Counts calls (s.expire key seconds).2 := by
  rcases expire_cases s key seconds with ⟨-, heq⟩ | ⟨c, hc, heq⟩
  · rwa [heq]
  · rw [heq]
    refine ⟨fun k d hd => ?_, fun k hk => ?_, h.life_le, h.caller_key, h.nodup, h.time_le⟩
    · by_cases hkey : k = key
      · subst hkey
        obtain rfl : _ = d := by simpa [Redis.put] using hd
        exact h.value k c (counters_of_get hc)
      · exact h.value k d (by simpa [Redis.put, hkey] using hd)
    · by_cases hkey : k = key
      · subst hkey; simp [Redis.put] at hk
      · exact h.unmade k (by simpa [Redis.put, hkey] using hk)

theorem tick_cases {d : T} (h : s.tick d = some s') : 0 ≤ d ∧ s' = { s with now := s.now + d } := by
  unfold Redis.tick at h
  split_ifs at h with hd
  exact ⟨hd, (Option.some.inj h).symm⟩

section Time

variable {window : T}

theorem lasting_incr_self (h : Lasting key window s) (hs : Counts calls s) (i : ι) :
    Lasting key window (s.incr i key).2 := by
  obtain ⟨life, c, heq, hcases⟩ := incr_cases s i key
  rw [heq]
  have hlife : ∀ r ∈ s.increments, r.key = key → r.life ≤ life := by
    intro r hr hrkey
    have hle := hs.life_le r hr
    rw [hrkey] at hle
    rcases hcases with ⟨c₀, -, rfl, -⟩ | ⟨-, rfl, -⟩ <;> omega
  -- a new life begins when the time of the one before is over
  have hended : ∀ r ∈ s.increments, r.key = key → r.life + 1 < life →
      r.time + window ≤ s.now := by
    intro r hr hrkey hrlife
    rcases hcases with ⟨c₀, -, rfl, -⟩ | ⟨hget, rfl, -⟩
    · exact h.ended r hr hrkey hrlife
    · rcases get_eq_none hget with hn | ⟨v, e, hc, he⟩
      · have := hs.unmade key hn; omega
      · exact (h.expiry r hr hrkey (by omega) v e hc).trans he
  refine ⟨fun r hr hrkey hrlife => ?_, fun r hr hrkey hrlife v e hv => ?_, ?_⟩
  · simp only [Function.update_self] at hrlife
    rcases List.mem_append.mp hr with hr | hr
    · exact hended r hr hrkey hrlife
    · obtain rfl := List.mem_singleton.mp hr
      simp at hrlife
  · obtain rfl : c = ⟨v, some e⟩ := by simpa [Redis.put] using hv
    simp only [Function.update_self] at hrlife
    rcases hcases with ⟨c₀, hc₀, rfl, hc⟩ | ⟨-, -, hc⟩
    · rcases List.mem_append.mp hr with hrs | hrs
      · obtain ⟨v₀, e₀⟩ := c₀
        obtain ⟨rfl, rfl⟩ : v = v₀ + 1 ∧ some e = e₀ := by simpa using hc
        exact h.expiry r hrs hrkey hrlife v₀ e (counters_of_get hc₀)
      · obtain rfl := List.mem_singleton.mp hrs
        simp at hrlife
    · simp at hc
  · intro r hr r' hr' hlt
    obtain ⟨hr, hrkey⟩ := List.mem_filter.mp hr
    obtain ⟨hr', hrkey'⟩ := List.mem_filter.mp hr'
    rcases List.mem_append.mp hr with hr | hr <;> rcases List.mem_append.mp hr' with hr' | hr'
    · exact h.spaced r (List.mem_filter.mpr ⟨hr, hrkey⟩) r' (List.mem_filter.mpr ⟨hr', hrkey'⟩)
        hlt
    · obtain rfl := List.mem_singleton.mp hr'
      exact hended r hr (by simpa using hrkey) hlt
    · obtain rfl := List.mem_singleton.mp hr
      have := hlife r' hr' (by simpa using hrkey')
      simp only at hlt; omega
    · obtain rfl := List.mem_singleton.mp hr
      obtain rfl := List.mem_singleton.mp hr'
      simp at hlt

theorem lasting_incr_of_ne (h : Lasting key window s) (i : ι) {k : String} (hkey : key ≠ k) :
    Lasting key window (s.incr i k).2 := by
  obtain ⟨life, c, heq, -⟩ := incr_cases s i k
  rw [heq]
  have hfilter : (s.increments ++ [(⟨k, life, s.now, i⟩ : Increment ι T)]).filter (·.key = key) =
      s.increments.filter (·.key = key) := by
    simp [List.filter_append, Ne.symm hkey]
  have hmem : ∀ r ∈ s.increments ++ [(⟨k, life, s.now, i⟩ : Increment ι T)], r.key = key →
      r ∈ s.increments := by
    intro r hr hrkey
    rcases List.mem_append.mp hr with hr | hr
    · exact hr
    · obtain rfl := List.mem_singleton.mp hr
      exact absurd hrkey.symm hkey
  refine ⟨fun r hr hrkey hrlife => ?_, fun r hr hrkey hrlife v e hv => ?_, ?_⟩
  · exact h.ended r (hmem r hr hrkey) hrkey (by simpa [hkey] using hrlife)
  · exact h.expiry r (hmem r hr hrkey) hrkey (by simpa [hkey] using hrlife) v e
      (by simpa [Redis.put, hkey] using hv)
  · simpa only [hfilter] using h.spaced

theorem lasting_incr (h : Lasting key window s) (hs : Counts calls s) (i : ι) (k : String) :
    Lasting key window (s.incr i k).2 := by
  by_cases hkey : key = k
  · exact hkey ▸ lasting_incr_self h hs i
  · exact lasting_incr_of_ne h i hkey

variable [IsStrictOrderedRing T]

theorem counts_tick (h : Counts calls s) {d : T} (hd : 0 ≤ d) :
    Counts calls { s with now := s.now + d } :=
  ⟨h.value, h.unmade, h.life_le, h.caller_key, h.nodup,
    fun r hr => (h.time_le r hr).trans (le_add_of_nonneg_right hd)⟩

theorem lasting_expire (h : Lasting key window s) (hs : Counts calls s) {k : String} {seconds : ℤ}
    (hk : k = key → (seconds : T) = window) : Lasting key window (s.expire k seconds).2 := by
  rcases expire_cases s k seconds with ⟨-, heq⟩ | ⟨c, hc, heq⟩
  · rwa [heq]
  · rw [heq]
    refine ⟨h.ended, fun r hr hrkey hrlife v e hv => ?_, h.spaced⟩
    by_cases hkey : key = k
    · subst hkey
      obtain ⟨-, rfl⟩ : c.value = v ∧ s.now + seconds = e := by simpa [Redis.put] using hv
      rw [hk rfl]
      exact add_le_add_left (hs.time_le r hr) window
    · exact h.expiry r hr hrkey hrlife v e (by simpa [Redis.put, hkey] using hv)

theorem lasting_tick (h : Lasting key window s) {d : T} (hd : 0 ≤ d) :
    Lasting key window { s with now := s.now + d } :=
  ⟨fun r hr hrkey hrlife => (h.ended r hr hrkey hrlife).trans (le_add_of_nonneg_right hd),
    h.expiry, h.spaced⟩

end Time

/-! ## The calls -/

/-- Call `i` has still to send its `INCR`, or it has read its own position in a life of
its key. -/
def CallAt (calls : ι → Check) (i : ι) (c : Option (RedisCall ι T (Except Raised (Bool × ℤ))))
    (s : Redis ι T) : Prop :=
  ((∀ r ∈ s.increments, r.caller ≠ i) ∧
    ∀ t, c = some t → t = check (calls i).key (calls i).limit (calls i).windowSeconds) ∨
  ∃ t life, ∃ j : ℕ, c = some t ∧
    ((s.inLife (calls i).key life).map Increment.caller)[j]? = some i ∧
    t.Within (afterIncr (calls i)) (Decides (calls i) (j + 1))

/-- What a step of call `i` does to the server. -/
inductive CheckEffect (calls : ι → Check) (i : ι) (s : Redis ι T) : Redis ι T → Prop where
  | read : CheckEffect calls i s s
  | incr : (∀ r ∈ s.increments, r.caller ≠ i) → CheckEffect calls i s (s.incr i (calls i).key).2
  | expire : CheckEffect calls i s (s.expire (calls i).key (calls i).windowSeconds).2

theorem increments_expire (s : Redis ι T) (key : String) (seconds : ℤ) :
    (s.expire key seconds).2.increments = s.increments := by
  rcases expire_cases s key seconds with ⟨-, heq⟩ | ⟨c, -, heq⟩
  · rw [heq]
  · rw [heq]; rfl

theorem CheckEffect.increments (h : CheckEffect calls i s s') :
    s'.increments = s.increments ∨ ∃ r : Increment ι T, r.caller = i ∧
      s'.increments = s.increments ++ [r] := by
  cases h with
  | read => exact Or.inl rfl
  | incr =>
    obtain ⟨life, c, heq, -⟩ := incr_cases s i (calls i).key
    exact Or.inr ⟨⟨(calls i).key, life, s.now, i⟩, rfl, by rw [heq]⟩
  | expire => exact Or.inl (increments_expire s _ _)

theorem CheckEffect.inLife_prefix (h : CheckEffect calls i s s') (key : String) (life : ℕ) :
    s.inLife key life <+: s'.inLife key life := by
  rcases h.increments with heq | ⟨r, -, heq⟩
  · rw [Redis.inLife, Redis.inLife, heq]
  · rw [inLife_append heq]
    exact List.prefix_append _ _

theorem CallAt.of_effect {c : Option (RedisCall ι T (Except Raised (Bool × ℤ)))} {j : ι}
    (hj : j ≠ i) (h : CallAt calls j c s) (he : CheckEffect calls i s s') : CallAt calls j c s' := by
  rcases h with ⟨hnone, hc⟩ | ⟨t, life, n, hc, hn, ht⟩
  · refine Or.inl ⟨fun r hr => ?_, hc⟩
    rcases he.increments with heq | ⟨r', hr', heq⟩
    · exact hnone r (heq ▸ hr)
    · rw [heq] at hr
      rcases List.mem_append.mp hr with hr | hr
      · exact hnone r hr
      · obtain rfl := List.mem_singleton.mp hr
        rw [hr']; exact hj.symm
  · obtain ⟨rest, hrest⟩ := he.inLife_prefix (calls j).key life
    refine Or.inr ⟨t, life, n, hc, ?_, ht⟩
    rw [← hrest, List.map_append]
    exact List.getElem?_append_left (List.getElem?_eq_some_iff.mp hn).1 |>.trans hn

section Steps

variable [DecidableEq ι] [FloorRing T]

omit [DecidableEq ι] in
theorem move_cases {c : Option (RedisCall ι T (Except Raised (Bool × ℤ)))}
    {m : RedisCall ι T (Except Raised (Bool × ℤ)) × Redis ι T} (hs : Counts calls s)
    (hc : CallAt calls i c s) (hm : (checks calls).Moves i c s m) :
    CheckEffect calls i s m.2 ∧ CallAt calls i (some m.1) m.2 := by
  cases hm with
  | call =>
    rcases hc with ⟨hnone, -⟩ | ⟨t, _, _, ht, -⟩
    · refine ⟨.read, Or.inl ⟨hnone, fun t ht => ?_⟩⟩
      exact (Option.some.inj ht).symm
    · cases ht
  | @answer op k _ s' r _ hanswer =>
    obtain ⟨rfl, rfl⟩ : Except.ok (s.execute i op).1 = r ∧ (s.execute i op).2 = s' := by
      simpa [checks, Prod.ext_iff] using hanswer
    rcases hc with ⟨hnone, hcheck⟩ | ⟨t, life, j, ht, hj, hwithin⟩
    · obtain ⟨rfl, hk⟩ : op = .incr (calls i).key ∧ ∀ v,
          k (.ok v) = (counted (calls i) v).run := by
        cases hcheck _ rfl
        exact ⟨rfl, fun _ => rfl⟩
      obtain ⟨-, life, hlog, hvalue⟩ := counts_incr hs hnone
      have hcounted := within_counted (ι := ι) (T := T) (calls i) (s.incr i (calls i).key).1
      have hposition : (((s.incr i (calls i).key).2.inLife (calls i).key life).map
          Increment.caller)[(s.inLife (calls i).key life).length]? = some i := by
        rw [inLife_append hlog]
        simp
      rw [hk, show s.execute i (.incr (calls i).key) = s.incr i (calls i).key from rfl,
        hcounted.settle_eq fun _ => not_false]
      refine ⟨.incr hnone, Or.inr ⟨_, life, _, rfl, hposition, ?_⟩⟩
      rw [← hvalue]
      exact hcounted
    · cases ht
      obtain ⟨hasks, hrest⟩ := hwithin
      have hnext := hrest (.ok (s.execute i op).1) ⟨_, rfl⟩
      rw [hnext.settle_eq fun _ => not_false]
      have heffect : CheckEffect calls i s (s.execute i op).2 := by
        rcases hasks with rfl | rfl
        · exact .expire
        · exact .read
      obtain ⟨rest, hlog⟩ := heffect.inLife_prefix (calls i).key life
      refine ⟨heffect, Or.inr ⟨_, life, j, rfl, ?_, hnext⟩⟩
      rw [← hlog, List.map_append]
      exact (List.getElem?_append_left (List.getElem?_eq_some_iff.mp hj).1).trans hj

/-! ## All interleavings -/

variable [IsStrictOrderedRing T] {window : ℤ}

omit [DecidableEq ι] [FloorRing T] in
theorem CheckEffect.keeps (h : CheckEffect calls i s s') (hs : Counts calls s)
    (hkey : (calls i).key = key → (calls i).windowSeconds = window)
    (hlasting : Lasting key (window : T) s) :
    Counts calls s' ∧ Lasting key (window : T) s' := by
  cases h with
  | read => exact ⟨hs, hlasting⟩
  | incr hnone => exact ⟨(counts_incr hs hnone).1, lasting_incr hlasting hs i _⟩
  | expire =>
    exact ⟨counts_expire hs _ _, lasting_expire hlasting hs fun hk => by rw [hkey hk]⟩

/-- The states that some interleaving of the calls reaches. -/
def ChecksReach (calls : ι → Check) (t₀ : T) (as : List (Label ι Unit T))
    (s : Loop ι (Redis ι T) RedisCommand RedisReply (Except Raised (Bool × ℤ))) : Prop :=
  Runs.Run (checks calls).Step (Loop.init (Redis.empty t₀)) as s

theorem checks_invariant {t₀ : T} {as : List (Label ι Unit T)}
    {s : Loop ι (Redis ι T) RedisCommand RedisReply (Except Raised (Bool × ℤ))}
    (hwindow : ∀ i, (calls i).key = key → (calls i).windowSeconds = window)
    (h : ChecksReach calls t₀ as s) :
    (Counts calls s.memory ∧ Lasting key (window : T) s.memory) ∧
      ∀ i, CallAt calls i (s.calls i) s.memory := by
  refine invariant_of_local (I := fun m => Counts calls m ∧ Lasting key (window : T) m)
    (A := CallAt calls) ?_ ?_ ?_ ?_ ?_ h
  · refine ⟨⟨?_, fun _ _ => rfl, ?_, ?_, List.nodup_nil, ?_⟩, ⟨?_, ?_, ?_⟩⟩ <;>
      simp [Redis.empty, Spaced]
  · exact fun i => Or.inl ⟨by simp [Redis.empty], by simp⟩
  · intro i c m m' hm hc hmove
    obtain ⟨heffect, hcall⟩ := move_cases hm.1 hc hmove
    exact ⟨heffect.keeps hm.1 (hwindow i) hm.2, hcall⟩
  · intro i j cᵢ cⱼ m m' hij hm hci hcj hmove
    exact hcj.of_effect hij (move_cases hm.1 hci hmove).1
  · intro d m m' hm hd
    obtain ⟨hnonneg, rfl⟩ := tick_cases hd
    exact ⟨⟨counts_tick hm.1 hnonneg, lasting_tick hm.2 hnonneg⟩, fun _ _ hc => hc⟩

/-- The call has returned that the request may go on. -/
def RateLimit.allowed
    (s : Loop ι (Redis ι T) RedisCommand RedisReply (Except Raised (Bool × ℤ))) (i : ι) : Bool :=
  match s.result i with
  | some (.ok (allowed, _)) => allowed
  | _ => false

variable {t₀ : T} {as : List (Label ι Unit T)} {limit : ℕ}
  {l : Loop ι (Redis ι T) RedisCommand RedisReply (Except Raised (Bool × ℤ))}

omit [Field T] [LinearOrder T] [DecidableEq ι] [FloorRing T] [IsStrictOrderedRing T] in
theorem result_of_position (hnodup : (l.memory.increments.map Increment.caller).Nodup)
    (hi : CallAt calls i (l.calls i) l.memory) {life j : ℕ}
    (hj : ((l.memory.inLife (calls i).key life).map Increment.caller)[j]? = some i)
    {result : Except Raised (Bool × ℤ)} (hresult : l.result i = some result) :
    Decides (calls i) (j + 1) result := by
  have hincrement : ∀ {life' j' : ℕ},
      ((l.memory.inLife (calls i).key life').map Increment.caller)[j']? = some i →
      ∃ r ∈ l.memory.increments, r.caller = i ∧ r.life = life' := by
    intro life' j' hj'
    obtain ⟨r, hr, hcaller⟩ := List.mem_map.mp (List.mem_of_getElem? hj')
    obtain ⟨hr, hlife⟩ := List.mem_filter.mp hr
    exact ⟨r, hr, hcaller, (of_decide_eq_true hlife).2⟩
  obtain ⟨r, hr, hcaller, hlife⟩ := hincrement hj
  rcases hi with ⟨hnone, -⟩ | ⟨t, life', j', ht, hj', hwithin⟩
  · exact absurd hcaller (hnone r hr)
  · obtain ⟨r', hr', hcaller', hlife'⟩ := hincrement hj'
    obtain rfl : life = life' := by
      rw [← hlife, ← hlife',
        List.inj_on_of_nodup_map hnodup hr hr' (hcaller.trans hcaller'.symm)]
    have hnd : ((l.memory.inLife (calls i).key life).map Increment.caller).Nodup :=
      (List.filter_sublist.map _).nodup hnodup
    obtain rfl : j = j' :=
      (List.getElem?_inj (List.getElem?_eq_some_iff.mp hj).1 hnd).mp (hj.trans hj'.symm)
    refine hwithin.result ?_
    simpa [Loop.result, ht] using hresult

/-- In one life of a key with `n` increments exactly `min n limit` calls are allowed, and
in no half-open interval of the length of the window more than `2 * limit`. -/
theorem rate_limit_bound (calls : ι → Check) (key : String) (limit : ℕ) (window : ℤ)
    (hcalls : ∀ i, (calls i).key = key →
      (calls i).limit = limit ∧ (calls i).windowSeconds = window)
    (hreach : ChecksReach calls t₀ as l) :
    (∀ life, let callers := (l.memory.inLife key life).map Increment.caller
      callers.Nodup ∧ callers.countP (allowed l) ≤ min callers.length limit ∧
      ((∀ i ∈ callers, (l.result i).isSome) →
        callers.countP (allowed l) = min callers.length limit)) ∧
    ∀ t : T, (l.memory.increments.filter fun r =>
        r.key = key ∧ t ≤ r.time ∧ r.time < t + window).countP (fun r => allowed l r.caller) ≤
      2 * limit := by
  obtain ⟨⟨hcounts, hlasting⟩, hcall⟩ :=
    checks_invariant (fun i hi => (hcalls i hi).2) hreach
  -- whatever the call at position `j` has returned, it allows exactly below the limit
  have hallowed : ∀ {life j i}, ((l.memory.inLife key life).map Increment.caller)[j]? = some i →
      (l.result i).isSome → (allowed l i ↔ j < limit) := by
    intro life j i hj hsome
    obtain ⟨r, hr, rfl⟩ := List.mem_map.mp (List.mem_of_getElem? hj)
    obtain ⟨hr, hrlife⟩ := List.mem_filter.mp hr
    have hkey : (calls r.caller).key = key :=
      (hcounts.caller_key r hr).symm.trans (of_decide_eq_true hrlife).1
    obtain ⟨result, hresult⟩ := Option.isSome_iff_exists.mp hsome
    obtain ⟨retryAfter, rfl⟩ :=
      result_of_position hcounts.nodup (hcall r.caller) (by rwa [hkey]) hresult
    simp only [allowed, hresult, (hcalls _ hkey).1, decide_eq_true_eq]
    omega
  have hended : ∀ {i}, allowed l i → (l.result i).isSome := by
    intro i hi
    cases hresult : l.result i with
    | none => simp [allowed, hresult] at hi
    | some result => rfl
  have hlife : ∀ life, ((l.memory.inLife key life).map Increment.caller).countP (allowed l) ≤
      min ((l.memory.inLife key life).map Increment.caller).length limit := fun life =>
    countP_le_of_index _ limit fun j i hj hi => (hallowed hj (hended hi)).mp hi
  refine ⟨fun life => ⟨(List.filter_sublist.map _).nodup hcounts.nodup, hlife life,
    fun hall => countP_eq_of_index _ limit fun j i hj =>
      hallowed hj (hall i (List.mem_of_getElem? hj))⟩, fun t => ?_⟩
  have hof_life : ∀ life, ((l.memory.increments.filter (·.key = key)).filter
      (·.life = life)).countP (fun r => allowed l r.caller) ≤ limit := by
    intro life
    rw [← inLife_eq]
    have hle := (hlife life).trans (Nat.min_le_right _ _)
    rwa [List.countP_map] at hle
  have hwindow := hlasting.spaced.countP_window_le _ hof_life t
  rw [List.filter_filter] at hwindow
  refine le_of_eq_of_le (congrArg _ (List.filter_congr fun r _ => ?_)) hwindow
  simp only [Bool.decide_and, Bool.and_comm]

end Steps

def exampleChecks (_ : ℕ) : Check := ⟨"ratelimit:ip:10.0.0.1", 1, 60⟩

/-- The second call comes in between the `INCR` and the `EXPIRE` of the first. -/
def exampleLabels : List (Label ℕ Unit ℚ) :=
  [.call 0, .call 1, .answer 0 (), .answer 1 (), .event 5, .answer 0 (), .answer 1 ()]

theorem rate_limit_bound_example : ∃ l, ChecksReach exampleChecks (0 : ℚ) exampleLabels l ∧
    allowed l 0 = true ∧ allowed l 1 = false ∧
    ((l.memory.inLife "ratelimit:ip:10.0.0.1" 1).map Increment.caller).countP (allowed l) =
      min 2 1 := by
  have hreach : ∃ l, ChecksReach exampleChecks (0 : ℚ) exampleLabels l ∧
      allowed l 0 = true ∧ allowed l 1 = false ∧
      (l.memory.inLife "ratelimit:ip:10.0.0.1" 1).map Increment.caller = [0, 1] ∧
      ∀ i ∈ [0, 1], (l.result i).isSome :=
    ⟨_, Runs.run_of_exec rfl, rfl, rfl, rfl, by decide⟩
  obtain ⟨l, hl, h0, h1, hcallers, hended⟩ := hreach
  refine ⟨l, hl, h0, h1, ?_⟩
  have hbound := (rate_limit_bound exampleChecks "ratelimit:ip:10.0.0.1" 1 60
    (fun _ _ => ⟨rfl, rfl⟩) hl).1 1
  rw [hcallers] at hbound ⊢
  exact hbound.2.2 hended

end GoAnalyze
