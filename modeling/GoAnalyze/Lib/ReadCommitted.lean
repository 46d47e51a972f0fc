import Mathlib.Data.List.Nodup
import Mathlib.Logic.Function.Basic
import Mathlib.Tactic

/-! Transactions at READ COMMITTED over one keyed table and one insert-only
table. Row locks are held to the end of the transaction, uncommitted writes are
seen by their own transaction only, and an aborted transaction leaves no trace.
A statement returns `none` while it has to wait, or where it fails. -/

namespace ReadCommitted

variable {τ K V E ι : Type*}

/-- `rows` and `log` are committed, the log in commit order. `dirty k` is the
image of row `k` written by the transaction that holds its lock; an uncommitted
insert holds the lock of the row it makes. -/
structure Db (τ K V E : Type*) where
  rows : K → Option V
  log : List E
  lock : K → Option τ
  dirty : K → Option V
  pending : List (τ × E)

def Db.empty : Db τ K V E := ⟨fun _ => none, [], fun _ => none, fun _ => none, []⟩

section Statements

variable [DecidableEq τ] [DecidableEq K] [DecidableEq ι]

/-- The row a statement of transaction `i` sees: its own image, else the committed row. -/
def Db.visible (s : Db τ K V E) (i : τ) (k : K) : Option V :=
  if s.lock k = some i then (s.dirty k).or (s.rows k) else s.rows k

/-- The log entries transaction `i` has inserted and not committed. -/
def Db.pendingOf (s : Db τ K V E) (i : τ) : List E :=
  (s.pending.filter fun p => p.1 = i).map Prod.snd

/-- `INSERT ... ON CONFLICT DO NOTHING`. It waits for the uncommitted insert of
the same key by another transaction, and for nothing else. -/
def insertIfAbsent (s : Db τ K V E) (i : τ) (k : K) (v : V) : Option (Db τ K V E) :=
  match s.rows k, s.lock k with
  | some _, _ => some s
  | none, some j => if j = i then some s else none
  | none, none => some { s with
      lock := Function.update s.lock k (some i), dirty := Function.update s.dirty k (some v) }

/-- `SELECT ... FOR UPDATE` of one row: it waits for the lock and then sees the
latest committed row. -/
def selectForUpdate (s : Db τ K V E) (i : τ) (k : K) : Option (V × Db τ K V E) :=
  if s.lock k = none ∨ s.lock k = some i then
    (s.visible i k).map fun v => (v, { s with lock := Function.update s.lock k (some i) })
  else none

/-- `INSERT` into the insert-only table, whose primary key is `pk`. -/
def insertLog (pk : E → ι) (s : Db τ K V E) (i : τ) (e : E) : Option (Db τ K V E) :=
  if pk e ∈ s.log.map pk ∨ pk e ∈ s.pending.map (pk ∘ Prod.snd) then none
  else some { s with pending := s.pending ++ [(i, e)] }

/-- `UPDATE` of one row, which takes its lock. -/
def updateRow (s : Db τ K V E) (i : τ) (k : K) (v : V) : Option (Db τ K V E) :=
  if s.lock k = none ∨ s.lock k = some i then
    (s.visible i k).map fun _ => { s with
      lock := Function.update s.lock k (some i), dirty := Function.update s.dirty k (some v) }
  else none

/-- Plain `INSERT`. It waits for the uncommitted insert of the same key by another
transaction, and violates the key where the row is there. -/
def insertRow (s : Db τ K V E) (i : τ) (k : K) (v : V) : Option (Option (Db τ K V E)) :=
  match s.rows k, s.lock k with
  | some _, _ => some none
  | none, some j => if j = i then some none else none
  | none, none => some (some { s with
      lock := Function.update s.lock k (some i), dirty := Function.update s.dirty k (some v) })

/-- `UPDATE` of columns of one row: it waits for the lock and then works on the latest
committed row. It finds no row where there is none. -/
def modifyRow (s : Db τ K V E) (i : τ) (k : K) (f : V → V) : Option (Option (Db τ K V E)) :=
  if s.lock k = none ∨ s.lock k = some i then
    some ((s.visible i k).map fun v => { s with
      lock := Function.update s.lock k (some i)
      dirty := Function.update s.dirty k (some (f v)) })
  else none

/-- Drop the locks, images and log entries of transaction `i`. -/
def release (s : Db τ K V E) (i : τ) : Db τ K V E :=
  { s with
    lock := fun k => if s.lock k = some i then none else s.lock k
    dirty := fun k => if s.lock k = some i then none else s.dirty k
    pending := s.pending.filter fun p => p.1 ≠ i }

def commit (s : Db τ K V E) (i : τ) : Db τ K V E :=
  { release s i with rows := fun k => s.visible i k, log := s.log ++ s.pendingOf i }

def abort (s : Db τ K V E) (i : τ) : Db τ K V E := release s i

end Statements

/-! ## Invariants -/

/-- Images belong to lock holders, and the holder of a lock sees the row. -/
structure Safe (s : Db τ K V E) : Prop where
  clean : ∀ k, s.lock k = none → s.dirty k = none
  seen : ∀ k i, s.lock k = some i → (s.dirty k).or (s.rows k) ≠ none

/-- No primary key occurs twice, committed or pending. -/
def Keyed (pk : E → ι) (s : Db τ K V E) : Prop :=
  (s.log.map pk ++ s.pending.map (pk ∘ Prod.snd)).Nodup

/-- Every image of a row, committed or not, is as `P` says. -/
structure Images (P : K → V → Prop) (s : Db τ K V E) : Prop where
  rows : ∀ k v, s.rows k = some v → P k v
  dirty : ∀ k v, s.dirty k = some v → P k v

theorem Images.mono {P Q : K → V → Prop} {s : Db τ K V E} (h : Images P s)
    (hPQ : ∀ k v, P k v → Q k v) : Images Q s :=
  ⟨fun k v hv => hPQ k v (h.rows k v hv), fun k v hv => hPQ k v (h.dirty k v hv)⟩

theorem safe_empty : Safe (Db.empty : Db τ K V E) := ⟨fun _ _ => rfl, fun _ _ h => by cases h⟩

theorem keyed_empty (pk : E → ι) : Keyed pk (Db.empty : Db τ K V E) := List.nodup_nil

variable [DecidableEq τ]

/-! ## What each statement does -/

theorem insertIfAbsent_cases [DecidableEq K] {s s' : Db τ K V E} {i : τ} {k : K} {v : V}
    (h : insertIfAbsent s i k v = some s') :
    (s' = s ∧ (s.rows k ≠ none ∨ s.lock k = some i)) ∨
    (s.rows k = none ∧ s.lock k = none ∧ s' = { s with
      lock := Function.update s.lock k (some i)
      dirty := Function.update s.dirty k (some v) }) := by
  unfold insertIfAbsent at h
  split at h
  · next hr => cases h; exact Or.inl ⟨rfl, Or.inl (by simp [hr])⟩
  · next hr hl =>
    split_ifs at h with hj
    cases h
    exact Or.inl ⟨rfl, Or.inr (hj ▸ hl)⟩
  · next hr hl => cases h; exact Or.inr ⟨hr, hl, rfl⟩

theorem selectForUpdate_cases [DecidableEq K] {s s' : Db τ K V E} {i : τ} {k : K} {v : V}
    (h : selectForUpdate s i k = some (v, s')) :
    (s.lock k = none ∨ s.lock k = some i) ∧ s.visible i k = some v ∧
      s' = { s with lock := Function.update s.lock k (some i) } := by
  unfold selectForUpdate at h
  split_ifs at h with hl
  obtain ⟨w, hw, heq⟩ := Option.map_eq_some_iff.mp h
  cases heq
  exact ⟨hl, hw, rfl⟩

omit [DecidableEq τ] in
theorem insertLog_cases [DecidableEq ι] {pk : E → ι} {s s' : Db τ K V E} {i : τ} {e : E}
    (h : insertLog pk s i e = some s') :
    pk e ∉ s.log.map pk ∧ pk e ∉ s.pending.map (pk ∘ Prod.snd) ∧
      s' = { s with pending := s.pending ++ [(i, e)] } := by
  unfold insertLog at h
  split_ifs at h with hpk
  cases h
  exact ⟨fun hm => hpk (Or.inl hm), fun hm => hpk (Or.inr hm), rfl⟩

theorem updateRow_cases [DecidableEq K] {s s' : Db τ K V E} {i : τ} {k : K} {v : V}
    (h : updateRow s i k v = some s') :
    (s.lock k = none ∨ s.lock k = some i) ∧ s.visible i k ≠ none ∧ s' = { s with
      lock := Function.update s.lock k (some i), dirty := Function.update s.dirty k (some v) } := by
  unfold updateRow at h
  split_ifs at h with hl
  obtain ⟨w, hw, rfl⟩ := Option.map_eq_some_iff.mp h
  exact ⟨hl, by simp [hw], rfl⟩

theorem insertRow_cases [DecidableEq K] {s : Db τ K V E} {r : Option (Db τ K V E)} {i : τ} {k : K}
    {v : V}
    (h : insertRow s i k v = some r) :
    (r = none ∧ (s.rows k ≠ none ∨ s.lock k = some i)) ∨
    (s.rows k = none ∧ s.lock k = none ∧ r = some { s with
      lock := Function.update s.lock k (some i)
      dirty := Function.update s.dirty k (some v) }) := by
  unfold insertRow at h
  split at h
  · next hr => cases h; exact Or.inl ⟨rfl, Or.inl (by simp [hr])⟩
  · next hr hl =>
    split_ifs at h with hj
    cases h
    exact Or.inl ⟨rfl, Or.inr (hj ▸ hl)⟩
  · next hr hl => cases h; exact Or.inr ⟨hr, hl, rfl⟩

theorem modifyRow_cases [DecidableEq K] {s : Db τ K V E} {r : Option (Db τ K V E)} {i : τ} {k : K}
    {f : V → V}
    (h : modifyRow s i k f = some r) :
    (s.lock k = none ∨ s.lock k = some i) ∧ r = (s.visible i k).map fun v => { s with
      lock := Function.update s.lock k (some i)
      dirty := Function.update s.dirty k (some (f v)) } := by
  unfold modifyRow at h
  split_ifs at h with hl
  exact ⟨hl, (Option.some.inj h).symm⟩

theorem visible_of_lock {s : Db τ K V E} {i : τ} {k : K} (h : s.lock k = some i) :
    s.visible i k = (s.dirty k).or (s.rows k) := by
  simp [Db.visible, h]

theorem visible_of_not_lock {s : Db τ K V E} {i : τ} {k : K} (h : s.lock k ≠ some i) :
    s.visible i k = s.rows k := by
  simp [Db.visible, h]

/-! ## The invariants are kept -/

omit [DecidableEq τ] in
/-- Taking a lock keeps the images with the holders of locks, if the holder sees the row. -/
theorem safe_lock [DecidableEq K] {s : Db τ K V E} (hs : Safe s) (i : τ) {k : K}
    {dirty : K → Option V}
    (hd : ∀ k', k' ≠ k → dirty k' = s.dirty k') (hseen : (dirty k).or (s.rows k) ≠ none) :
    Safe { s with lock := Function.update s.lock k (some i), dirty := dirty } := by
  refine ⟨fun k' hk' => ?_, fun k' j hk' => ?_⟩
  all_goals by_cases hkk : k' = k
  · subst hkk; simp at hk'
  · exact (hd k' hkk).trans (hs.clean k' (by simpa [hkk] using hk'))
  · subst hkk; exact hseen
  · show (dirty k').or (s.rows k') ≠ none
    rw [hd k' hkk]
    exact hs.seen k' j (by simpa [hkk] using hk')

theorem safe_insertIfAbsent [DecidableEq K] {s s' : Db τ K V E} {i : τ} {k : K} {v : V}
    (hs : Safe s)
    (h : insertIfAbsent s i k v = some s') : Safe s' := by
  rcases insertIfAbsent_cases h with ⟨rfl, -⟩ | ⟨-, -, rfl⟩
  · exact hs
  · exact safe_lock hs i (fun k' hk' => Function.update_of_ne hk' _ _) (by simp)

theorem safe_selectForUpdate [DecidableEq K] {s s' : Db τ K V E} {i : τ} {k : K} {v : V}
    (hs : Safe s)
    (h : selectForUpdate s i k = some (v, s')) : Safe s' := by
  obtain ⟨hl, hv, rfl⟩ := selectForUpdate_cases h
  refine safe_lock hs i (fun _ _ => rfl) ?_
  rcases hl with hl | hl
  · rw [visible_of_not_lock (by simp [hl])] at hv
    simp [hs.clean _ hl, hv]
  · exact hs.seen _ i hl

omit [DecidableEq τ] in
theorem safe_insertLog [DecidableEq ι] {pk : E → ι} {s s' : Db τ K V E} {i : τ} {e : E}
    (hs : Safe s)
    (h : insertLog pk s i e = some s') : Safe s' := by
  obtain ⟨-, -, rfl⟩ := insertLog_cases h
  exact ⟨hs.clean, hs.seen⟩

theorem safe_updateRow [DecidableEq K] {s s' : Db τ K V E} {i : τ} {k : K} {v : V} (hs : Safe s)
    (h : updateRow s i k v = some s') : Safe s' := by
  obtain ⟨-, -, rfl⟩ := updateRow_cases h
  exact safe_lock hs i (fun k' hk' => Function.update_of_ne hk' _ _) (by simp)

theorem safe_abort {s : Db τ K V E} (i : τ) (hs : Safe s) : Safe (abort s i) := by
  refine ⟨fun k hk => ?_, fun k j hk => ?_⟩
  all_goals simp only [abort, release] at hk ⊢
  all_goals by_cases hl : s.lock k = some i
  · simp [hl]
  · simpa [hl] using hs.clean k (by simpa [hl] using hk)
  · simp [hl] at hk
  · simpa [hl] using hs.seen k j (by simpa [hl] using hk)

theorem safe_commit {s : Db τ K V E} (i : τ) (hs : Safe s) : Safe (commit s i) := by
  refine ⟨(safe_abort i hs).clean, fun k j hk => ?_⟩
  simp only [commit, release] at hk ⊢
  by_cases hl : s.lock k = some i
  · simp [hl] at hk
  · simp only [hl, if_false] at hk ⊢
    rw [visible_of_not_lock hl]
    exact hs.seen k j hk

omit [DecidableEq τ] in
theorem keyed_insertLog [DecidableEq ι] {pk : E → ι} {s s' : Db τ K V E} {i : τ} {e : E}
    (hk : Keyed pk s)
    (h : insertLog pk s i e = some s') : Keyed pk s' := by
  obtain ⟨hlog, hpend, rfl⟩ := insertLog_cases h
  simp only [Keyed, List.map_append, List.map_cons, List.map_nil, ← List.append_assoc]
  refine List.nodup_append.mpr ⟨hk, List.nodup_singleton _, ?_⟩
  rintro a ha b hb rfl
  obtain rfl := List.mem_singleton.mp hb
  rcases List.mem_append.mp ha with ha | ha
  · exact hlog ha
  · exact hpend ha

theorem keyed_abort {pk : E → ι} {s : Db τ K V E} (i : τ) (hk : Keyed pk s) :
    Keyed pk (abort s i) := by
  refine List.Sublist.nodup (List.Sublist.append (List.Sublist.refl _) ?_) hk
  exact List.filter_sublist.map _

theorem keyed_commit {pk : E → ι} {s : Db τ K V E} (i : τ) (hk : Keyed pk s) :
    Keyed pk (commit s i) := by
  -- committing moves the pending keys of `i` from the end into the log
  have hperm : ((s.pendingOf i).map pk ++
      (s.pending.filter fun p => p.1 ≠ i).map (pk ∘ Prod.snd)).Perm
      (s.pending.map (pk ∘ Prod.snd)) := by
    simp only [Db.pendingOf, List.map_map, ← List.map_append]
    refine List.Perm.map _ ?_
    simpa using List.filter_append_perm (fun p => decide (p.1 = i)) s.pending
  have hnd := (List.Perm.append_left (s.log.map pk) hperm.symm).nodup_iff.mp hk
  simpa [Keyed, commit, release] using hnd

omit [DecidableEq τ] in
theorem keyed_of_eq {pk : E → ι} {s s' : Db τ K V E} (hk : Keyed pk s) (hl : s'.log = s.log)
    (hp : s'.pending = s.pending) : Keyed pk s' := by
  rwa [Keyed, hl, hp]

/-! ## Images -/

section Images

variable {P : K → V → Prop} {s : Db τ K V E} {i : τ} {k : K}

theorem Images.visible (h : Images P s) {v : V} (hv : s.visible i k = some v) : P k v := by
  unfold Db.visible at hv
  split_ifs at hv
  · rcases Option.or_eq_some_iff.mp hv with hv | ⟨-, hv⟩
    · exact h.dirty k v hv
    · exact h.rows k v hv
  · exact h.rows k v hv

omit [DecidableEq τ] in
theorem Images.write [DecidableEq K] (h : Images P s) {v : V} (hv : P k v) (lock : K → Option τ) :
    Images P { s with lock := lock, dirty := Function.update s.dirty k (some v) } := by
  refine ⟨h.rows, fun k' v' hv' => ?_⟩
  by_cases hk : k' = k
  · subst hk
    obtain rfl : v = v' := by simpa using hv'
    exact hv
  · exact h.dirty k' v' (by simpa [hk] using hv')

theorem images_insertRow [DecidableEq K] (h : Images P s) {s' : Db τ K V E} {v : V}
    (hins : insertRow s i k v = some (some s')) (hv : P k v) : Images P s' := by
  unfold insertRow at hins
  split at hins
  · cases hins
  · split_ifs at hins
    cases hins
  · cases hins
    exact h.write hv _

theorem images_modifyRow [DecidableEq K] (h : Images P s) {s' : Db τ K V E} {f : V → V}
    (hmod : modifyRow s i k f = some (some s')) (hf : ∀ v, P k v → P k (f v)) : Images P s' := by
  obtain ⟨-, hr⟩ := modifyRow_cases hmod
  obtain ⟨v, hv, rfl⟩ := Option.map_eq_some_iff.mp hr.symm
  exact h.write (hf v (h.visible hv)) _

theorem images_abort (h : Images P s) (i : τ) : Images P (abort s i) := by
  refine ⟨h.rows, fun k v hv => ?_⟩
  simp only [abort, release] at hv
  split_ifs at hv
  exact h.dirty k v hv

theorem images_commit (h : Images P s) (i : τ) : Images P (commit s i) :=
  ⟨fun _ _ hv => h.visible hv, (images_abort h i).dirty⟩

end Images

/-! ## What the others leave alone -/

/-- What transaction `i` holds is the same in `s'` as in `s`: its locks, the rows
it has locked, its images of them and its pending log entries. -/
structure Frame (i : τ) (s s' : Db τ K V E) : Prop where
  lock : ∀ k, s'.lock k = some i ↔ s.lock k = some i
  rows : ∀ k, s.lock k = some i → s'.rows k = s.rows k
  dirty : ∀ k, s.lock k = some i → s'.dirty k = s.dirty k
  pending : s'.pendingOf i = s.pendingOf i

theorem Frame.visible {i : τ} {s s' : Db τ K V E} (h : Frame i s s') {k : K}
    (hl : s.lock k = some i) : s'.visible i k = s.visible i k := by
  rw [visible_of_lock hl, visible_of_lock ((h.lock k).mpr hl), h.rows k hl, h.dirty k hl]

theorem Frame.refl (i : τ) (s : Db τ K V E) : Frame i s s :=
  ⟨fun _ => Iff.rfl, fun _ _ => rfl, fun _ _ => rfl, rfl⟩

section Others

variable {i j : τ} (hij : i ≠ j)

include hij

/-- Taking the lock of a row that is free, or one's own, and writing its image. -/
theorem frame_lock [DecidableEq K] {s : Db τ K V E} {k : K}
    (hl : s.lock k = none ∨ s.lock k = some j)
    {dirty : K → Option V} (hd : ∀ k', k' ≠ k → dirty k' = s.dirty k') :
    Frame i s { s with lock := Function.update s.lock k (some j), dirty := dirty } := by
  have hk : s.lock k ≠ some i := by
    rcases hl with hl | hl <;> simp [hl, hij.symm]
  refine ⟨fun k' => ?_, fun _ _ => rfl, fun k' hk' => hd k' ?_, rfl⟩
  · by_cases hkk : k' = k
    · subst hkk; simp [hk, hij.symm]
    · simp [hkk]
  · rintro rfl; exact hk hk'

theorem frame_insertIfAbsent [DecidableEq K] {s s' : Db τ K V E} {k : K} {v : V}
    (h : insertIfAbsent s j k v = some s') : Frame i s s' := by
  rcases insertIfAbsent_cases h with ⟨rfl, -⟩ | ⟨-, hl, rfl⟩
  · exact .refl i s'
  · exact frame_lock hij (Or.inl hl) fun k' hk' => Function.update_of_ne hk' _ _

theorem frame_selectForUpdate [DecidableEq K] {s s' : Db τ K V E} {k : K} {v : V}
    (h : selectForUpdate s j k = some (v, s')) : Frame i s s' := by
  obtain ⟨hl, -, rfl⟩ := selectForUpdate_cases h
  exact frame_lock hij hl fun _ _ => rfl

theorem frame_updateRow [DecidableEq K] {s s' : Db τ K V E} {k : K} {v : V}
    (h : updateRow s j k v = some s') : Frame i s s' := by
  obtain ⟨hl, -, rfl⟩ := updateRow_cases h
  exact frame_lock hij hl fun k' hk' => Function.update_of_ne hk' _ _

theorem frame_insertLog [DecidableEq ι] {pk : E → ι} {s s' : Db τ K V E} {e : E}
    (h : insertLog pk s j e = some s') : Frame i s s' := by
  obtain ⟨-, -, rfl⟩ := insertLog_cases h
  exact ⟨fun _ => Iff.rfl, fun _ _ => rfl, fun _ _ => rfl, by simp [Db.pendingOf, hij.symm]⟩

theorem frame_abort (s : Db τ K V E) : Frame i s (abort s j) := by
  have hne : ∀ k, s.lock k = some i → s.lock k ≠ some j := fun k hk => by simp [hk, hij]
  refine ⟨fun k => ?_, fun _ _ => rfl, fun k hk => by simp [abort, release, hne k hk], ?_⟩
  · by_cases hk : s.lock k = some j
    · simp [abort, release, hk, hij.symm]
    · simp [abort, release, hk]
  · simp only [Db.pendingOf, abort, release, List.filter_filter]
    congr 1
    refine List.filter_congr fun p _ => ?_
    by_cases hp : p.1 = i <;> simp [hp, hij]

theorem frame_commit (s : Db τ K V E) : Frame i s (commit s j) := by
  have hab := frame_abort hij s
  refine ⟨hab.lock, fun k hk => ?_, hab.dirty, hab.pending⟩
  exact visible_of_not_lock (by simp [hk, hij])

end Others

/-! ## What is left after the end of a transaction -/

theorem lock_release (s : Db τ K V E) (i : τ) (k : K) : (release s i).lock k ≠ some i := by
  unfold release
  dsimp only
  split_ifs with h
  · simp
  · exact h

theorem pendingOf_release (s : Db τ K V E) (i : τ) : (release s i).pendingOf i = [] := by
  simp [Db.pendingOf, release]

/-- A row changes only when its lock holder commits. -/
theorem rows_commit_of_not_lock {s : Db τ K V E} {i : τ} {k : K} (h : s.lock k ≠ some i) :
    (commit s i).rows k = s.rows k :=
  visible_of_not_lock h

end ReadCommitted
