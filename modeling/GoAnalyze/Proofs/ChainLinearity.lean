import GoAnalyze.Proofs.TamperEvidence
import GoAnalyze.Spec.AppendTransactions

/-! The audit chain of every tenant is linear in every state that concurrent
appends reach. The invariant ties the committed events, the head rows and what
each call in flight has locked and written. -/

namespace GoAnalyze

open ReadCommitted HashChain AuditRepository

variable {τ : Type} [DecidableEq τ] {request : τ → AuditEvent} {computeHash : AuditEvent → String}

/-! ## Hashed rows -/

/-- Every row carries the hash of an event with its id. -/
def Hashed (computeHash : AuditEvent → String) (rows : List AuditEventORM) : Prop :=
  ∀ orm ∈ rows, ∃ event : AuditEvent, event.id = orm.id ∧ orm.eventHash = some (computeHash event)

theorem Hashed.append_singleton {rows : List AuditEventORM} (h : Hashed computeHash rows)
    (dialect : Dialect) (previousHash : Option String) (event : AuditEvent) :
    Hashed computeHash
      (rows ++ [toOrm dialect (chainEvent computeHash previousHash event)]) := by
  intro orm horm
  rcases List.mem_append.mp horm with horm | horm
  · exact h orm horm
  · obtain rfl := List.mem_singleton.mp horm
    exact ⟨{ event with previousHash := previousHash }, rfl, rfl⟩

theorem Hashed.ne_none {rows : List AuditEventORM} (h : Hashed computeHash rows) (t : String) :
    ∀ orm ∈ forTenant t rows, orm.eventHash ≠ none := by
  intro orm horm
  obtain ⟨e, -, hhash⟩ := h orm (List.mem_of_mem_filter horm)
  simp [hhash]

theorem Hashed.nodup
    (hdistinct : ∀ e e' : AuditEvent, computeHash e = computeHash e' → e.id = e'.id)
    {rows : List AuditEventORM} (h : Hashed computeHash rows)
    (hids : (rows.map AuditEventORM.id).Nodup) (t : String) :
    ((forTenant t rows).map AuditEventORM.eventHash).Nodup := by
  refine (List.filter_sublist.map _).nodup
    (List.Nodup.map_on (fun orm horm orm' horm' heq => ?_) hids.of_map)
  obtain ⟨e, hid, hhash⟩ := h orm horm
  obtain ⟨e', hid', hhash'⟩ := h orm' horm'
  have hee : e.id = e'.id :=
    hdistinct e e' (Option.some.inj (hhash.symm.trans (heq.trans hhash')))
  exact List.inj_on_of_nodup_map hids horm horm' (hid.symm.trans (hee.trans hid'))

/-! ## What one statement does -/

/-- The transitions of `next`, one constructor for each. -/
inductive Move (request : τ → AuditEvent) (computeHash : AuditEvent → String) (s : AppendSt τ)
    (i : τ) : AppendSt τ → Prop where
  | upsert {db : AuditDb τ} : s.pc i = .start → Sql.varchar 255 (request i).tenantId →
      insertIfAbsent s.db i (request i).tenantId none = some db →
      Move request computeHash s i (s.set i db .upserted)
  | lock {db : AuditDb τ} {previousHash : Option String} : s.pc i = .upserted →
      selectForUpdate s.db i (request i).tenantId = some (previousHash, db) →
      Move request computeHash s i (s.set i db (.locked previousHash))
  | insert {db : AuditDb τ} {previousHash : Option String} : s.pc i = .locked previousHash →
      (toOrm .postgresql (chainEvent computeHash previousHash (request i))).fits .postgresql →
      insertLog AuditEventORM.id s.db i
        (toOrm .postgresql (chainEvent computeHash previousHash (request i))) = some db →
      Move request computeHash s i
        (s.set i db (.inserted (chainEvent computeHash previousHash (request i))))
  | update {db : AuditDb τ} {event : AuditEvent} : s.pc i = .inserted event →
      updateRow s.db i event.tenantId event.eventHash = some db →
      Move request computeHash s i (s.set i db (.updated event))
  | commit {event : AuditEvent} : s.pc i = .updated event →
      Move request computeHash s i (s.set i (commit s.db i) .committed)
  | abort : Move request computeHash s i (s.set i (abort s.db i) .aborted)

theorem move_of_step {s s' : AppendSt τ} {a : τ × AppendAct}
    (h : AppendStep request computeHash s a s') : Move request computeHash s a.1 s' := by
  obtain ⟨i, act⟩ := a
  simp only [AppendStep] at h
  cases act with
  | abort =>
    simp only [AppendSt.next] at h
    split at h
    · cases h
    · cases h
    · cases h; exact .abort
  | proceed =>
    cases hpc : s.pc i with
    | start =>
      simp only [AppendSt.next, hpc, Option.bind_eq_bind, Option.bind_eq_some_iff,
        Option.guard_eq_some'] at h
      obtain ⟨-, hfits, db, hdb, heq⟩ := h
      cases heq; exact .upsert hpc hfits hdb
    | upserted =>
      simp only [AppendSt.next, hpc, Option.bind_eq_bind, Option.bind_eq_some_iff] at h
      obtain ⟨⟨previousHash, db⟩, hdb, heq⟩ := h
      cases heq; exact .lock hpc hdb
    | locked previousHash =>
      simp only [AppendSt.next, hpc, Option.bind_eq_bind, Option.bind_eq_some_iff,
        Option.guard_eq_some'] at h
      obtain ⟨-, hfits, db, hdb, heq⟩ := h
      cases heq; exact .insert hpc hfits hdb
    | inserted event =>
      simp only [AppendSt.next, hpc, Option.bind_eq_bind, Option.bind_eq_some_iff] at h
      obtain ⟨db, hdb, heq⟩ := h
      cases heq; exact .update hpc hdb
    | updated event =>
      simp only [AppendSt.next, hpc, Option.some.injEq] at h
      subst h; exact .commit hpc
    | committed => simp [AppendSt.next, hpc] at h
    | aborted => simp [AppendSt.next, hpc] at h

section Set

variable (s : AppendSt τ) (i : τ) (db : AuditDb τ) (pc : AppendPc)

@[simp] theorem set_db : (s.set i db pc).db = db := rfl
@[simp] theorem set_pc_self : (s.set i db pc).pc i = pc := by simp [AppendSt.set]
@[simp] theorem set_pc_of_ne {j : τ} (h : j ≠ i) : (s.set i db pc).pc j = s.pc j := by
  simp [AppendSt.set, h]

end Set

/-! ## The invariant -/

structure Chained (computeHash : AuditEvent → String) (s : AppendSt τ) : Prop where
  linked : ∀ t, Linked AuditEventORM.previousHash AuditEventORM.eventHash none (s.events t)
  absent : ∀ t, s.db.rows t = none → s.events t = []
  headRow : ∀ t v, s.db.rows t = some v → v = s.head t
  hashed : Hashed computeHash s.db.log

/-- The locks of call `i` are on the row of tenant `t`, and it holds that one. -/
def Owns (s : AppendSt τ) (i : τ) (t : String) : Prop := ∀ k, s.db.lock k = some i ↔ k = t

/-- What call `i` has locked and written, by how far it has come. -/
def Holds (request : τ → AuditEvent) (computeHash : AuditEvent → String) (s : AppendSt τ)
    (i : τ) : Prop :=
  let t := (request i).tenantId
  let event := chainEvent computeHash (s.head t) (request i)
  match s.pc i with
  | .start | .committed | .aborted => (∀ k, s.db.lock k ≠ some i) ∧ s.db.pendingOf i = []
  | .upserted =>
    (∀ k, s.db.lock k = some i → k = t ∧ s.db.visible i k = some (s.head k)) ∧
      s.db.pendingOf i = []
  | .locked previousHash =>
    Owns s i t ∧ previousHash = s.head t ∧ s.db.pendingOf i = []
  | .inserted e => Owns s i t ∧ e = event ∧ s.db.pendingOf i = [toOrm .postgresql e]
  | .updated e =>
    Owns s i t ∧ e = event ∧ s.db.pendingOf i = [toOrm .postgresql e] ∧
      s.db.visible i t = some e.eventHash

structure AppendInv (request : τ → AuditEvent) (computeHash : AuditEvent → String)
    (s : AppendSt τ) : Prop where
  safe : Safe s.db
  keyed : Keyed AuditEventORM.id s.db
  chained : Chained computeHash s
  holds : ∀ i, Holds request computeHash s i

theorem appendInv_init : AppendInv request computeHash (AppendSt.init : AppendSt τ) where
  safe := safe_empty
  keyed := keyed_empty _
  chained :=
    { linked := fun _ => trivial
      absent := fun _ _ => rfl
      headRow := fun _ _ h => by cases h
      hashed := fun _ h => by cases h }
  holds := fun _ => by simp [Holds, AppendSt.init, Db.empty, Db.pendingOf]

/-! ## The committed tables -/

omit [DecidableEq τ] in
theorem events_of_log {s s' : AppendSt τ} (h : s'.db.log = s.db.log) (t : String) :
    s'.events t = s.events t := by
  rw [AppendSt.events, h, AppendSt.events]

omit [DecidableEq τ] in
theorem head_of_log {s s' : AppendSt τ} (h : s'.db.log = s.db.log) (t : String) :
    s'.head t = s.head t := by
  rw [AppendSt.head, events_of_log h, AppendSt.head]

theorem head_set {s : AppendSt τ} {i : τ} {db : AuditDb τ} {pc : AppendPc}
    (h : db.log = s.db.log) (t : String) : (s.set i db pc).head t = s.head t :=
  head_of_log h t

omit [DecidableEq τ] in
theorem chained_of_eq {s s' : AppendSt τ} (h : Chained computeHash s)
    (hlog : s'.db.log = s.db.log) (hrows : s'.db.rows = s.db.rows) : Chained computeHash s' where
  linked := fun t => by rw [events_of_log hlog]; exact h.linked t
  absent := fun t ht => by rw [events_of_log hlog]; exact h.absent t (hrows ▸ ht)
  headRow := fun t v hv => by rw [head_of_log hlog]; exact h.headRow t v (hrows ▸ hv)
  hashed := fun orm horm => h.hashed orm (hlog ▸ horm)

theorem events_commit {s : AppendSt τ} {i : τ} {orm : AuditEventORM} {pc : AppendPc}
    (h : s.db.pendingOf i = [orm]) (t : String) :
    (s.set i (commit s.db i) pc).events t =
      if orm.tenantId = t then s.events t ++ [orm] else s.events t := by
  rw [AppendSt.events, set_db, commit, h]
  exact forTenant_append t s.db.log orm

theorem chained_commit {s : AppendSt τ} {i : τ} {e : AuditEvent} {pc : AppendPc}
    (h : Chained computeHash s) (hown : Owns s i (request i).tenantId)
    (he : e = chainEvent computeHash (s.head (request i).tenantId) (request i))
    (hpend : s.db.pendingOf i = [toOrm .postgresql e])
    (hvis : s.db.visible i (request i).tenantId = some e.eventHash) :
    Chained computeHash (s.set i (commit s.db i) pc) := by
  have htenant : (toOrm .postgresql e).tenantId = (request i).tenantId := by simp [he]
  have hrow : (commit s.db i).rows (request i).tenantId = some e.eventHash := hvis
  have hrows : ∀ t, t ≠ (request i).tenantId → (commit s.db i).rows t = s.db.rows t :=
    fun t ht => rows_commit_of_not_lock fun hl => ht ((hown t).mp hl)
  refine ⟨fun t => ?_, fun t ht => ?_, fun t v hv => ?_, ?_⟩
  · rw [events_commit hpend]
    split_ifs with htt
    · refine linked_append_singleton.mpr ⟨h.linked t, ?_⟩
      rw [toOrm_previousHash, he, chainEvent_previousHash, ← htt, htenant]
      rfl
    · exact h.linked t
  · rw [events_commit hpend]
    have htt : t ≠ (request i).tenantId := by
      rintro rfl
      exact absurd (hrow.symm.trans ht) (by simp)
    rw [if_neg (by rw [htenant]; exact htt.symm)]
    exact h.absent t (hrows t htt ▸ ht)
  · rw [AppendSt.head, events_commit hpend, htenant]
    split_ifs with htt
    · subst htt
      simpa using (Option.some.inj (hrow.symm.trans hv)).symm
    · exact h.headRow t v (hrows t (Ne.symm htt) ▸ hv)
  · have hlog : (s.set i (commit s.db i) pc).db.log = s.db.log ++ [toOrm .postgresql e] := by
      rw [set_db, commit, hpend]
    rw [hlog, he]
    exact h.hashed.append_singleton _ _ _

/-! ## The calls in flight -/

theorem holds_frame {s s' : AppendSt τ} {i : τ} (hf : Frame i s.db s'.db)
    (hpc : s'.pc i = s.pc i) (hevents : ∀ t, s.db.lock t = some i → s'.events t = s.events t)
    (h : Holds request computeHash s i) : Holds request computeHash s' i := by
  have hown : ∀ t, Owns s i t → Owns s' i t := fun t ho k => (hf.lock k).trans (ho k)
  have hhead : ∀ t, s.db.lock t = some i → s'.head t = s.head t := fun t ht => by
    rw [AppendSt.head, hevents t ht, AppendSt.head]
  unfold Holds at h ⊢
  rw [hpc]
  cases hcase : s.pc i with
  | start | committed | aborted =>
    simp only [hcase] at h ⊢
    exact ⟨fun k hk => h.1 k ((hf.lock k).mp hk), hf.pending.trans h.2⟩
  | upserted =>
    simp only [hcase] at h ⊢
    refine ⟨fun k hk => ?_, hf.pending.trans h.2⟩
    have hk := (hf.lock k).mp hk
    rw [hf.visible hk, hhead k hk]
    exact h.1 k hk
  | locked previousHash =>
    simp only [hcase] at h ⊢
    obtain ⟨ho, hp, hpend⟩ := h
    exact ⟨hown _ ho, by rw [hhead _ ((ho _).mpr rfl)]; exact hp, hf.pending.trans hpend⟩
  | inserted e =>
    simp only [hcase] at h ⊢
    obtain ⟨ho, he, hpend⟩ := h
    exact ⟨hown _ ho, by rw [hhead _ ((ho _).mpr rfl)]; exact he, hf.pending.trans hpend⟩
  | updated e =>
    simp only [hcase] at h ⊢
    obtain ⟨ho, he, hpend, hvis⟩ := h
    have hl := (ho _).mpr rfl
    exact ⟨hown _ ho, by rw [hhead _ hl]; exact he, hf.pending.trans hpend,
      (hf.visible hl).trans hvis⟩

theorem holds_of_frame {s : AppendSt τ} {i j : τ} {db : AuditDb τ} {pc : AppendPc} (hij : i ≠ j)
    (hf : Frame i s.db db) (hlog : db.log = s.db.log) (h : Holds request computeHash s i) :
    Holds request computeHash (s.set j db pc) i :=
  holds_frame hf (set_pc_of_ne _ _ _ _ hij) (fun t _ => events_of_log hlog t) h

/-- A step of call `i` that leaves the committed tables alone keeps the invariant if it
keeps what holds of `i`. -/
theorem appendInv_set {s : AppendSt τ} {i : τ} {db : AuditDb τ} {pc : AppendPc}
    (hinv : AppendInv request computeHash s) (hsafe : Safe db)
    (hkeyed : Keyed AuditEventORM.id db) (hlog : db.log = s.db.log) (hrows : db.rows = s.db.rows)
    (hframe : ∀ j, j ≠ i → Frame j s.db db) (hown : Holds request computeHash (s.set i db pc) i) :
    AppendInv request computeHash (s.set i db pc) := by
  refine ⟨hsafe, hkeyed, chained_of_eq hinv.chained hlog hrows, fun j => ?_⟩
  by_cases hji : j = i
  · exact hji ▸ hown
  · exact holds_of_frame hji (hframe j hji) hlog (hinv.holds j)

theorem holds_done {s : AppendSt τ} {i : τ} {db : AuditDb τ} {pc : AppendPc}
    (hpc : pc = .committed ∨ pc = .aborted) (hlock : ∀ k, db.lock k ≠ some i)
    (hpend : db.pendingOf i = []) : Holds request computeHash (s.set i db pc) i := by
  unfold Holds
  rcases hpc with rfl | rfl
  all_goals
    simp only [set_pc_self]
    exact ⟨hlock, hpend⟩

/-! ## One step -/

theorem appendInv_upsert {s : AppendSt τ} {i : τ} {db : AuditDb τ}
    (hinv : AppendInv request computeHash s) (hpc : s.pc i = .start)
    (h : insertIfAbsent s.db i (request i).tenantId none = some db) :
    AppendInv request computeHash (s.set i db .upserted) := by
  have hsame : db.log = s.db.log ∧ db.rows = s.db.rows ∧ db.pending = s.db.pending := by
    rcases insertIfAbsent_cases h with ⟨rfl, -⟩ | ⟨-, -, rfl⟩ <;> simp
  obtain ⟨hlog, hrows, hpend⟩ := hsame
  refine appendInv_set hinv (safe_insertIfAbsent hinv.safe h) (keyed_of_eq hinv.keyed hlog hpend)
    hlog hrows (fun j hji => frame_insertIfAbsent hji h) ?_
  have hi := hinv.holds i
  simp only [Holds, hpc] at hi
  obtain ⟨hfree, hnone⟩ := hi
  simp only [Holds, set_pc_self, set_db]
  refine ⟨fun k hk => ?_, by rw [Db.pendingOf, hpend]; exact hnone⟩
  rcases insertIfAbsent_cases h with ⟨rfl, -⟩ | ⟨hrow, -, rfl⟩
  · exact absurd hk (hfree k)
  · -- the new row stands for a tenant without events
    by_cases hkt : k = (request i).tenantId
    · subst hkt
      refine ⟨rfl, ?_⟩
      have hnil := hinv.chained.absent _ hrow
      rw [visible_of_lock (by simp), head_set hlog, AppendSt.head, hnil]
      simp
    · exact absurd (by simpa [hkt] using hk) (hfree k)

theorem appendInv_lock {s : AppendSt τ} {i : τ} {db : AuditDb τ} {previousHash : Option String}
    (hinv : AppendInv request computeHash s) (hpc : s.pc i = .upserted)
    (h : selectForUpdate s.db i (request i).tenantId = some (previousHash, db)) :
    AppendInv request computeHash (s.set i db (.locked previousHash)) := by
  obtain ⟨-, hv, hdb⟩ := selectForUpdate_cases h
  have hlog : db.log = s.db.log := by rw [hdb]
  refine appendInv_set hinv (safe_selectForUpdate hinv.safe h)
    (keyed_of_eq hinv.keyed hlog (by simp [hdb])) hlog (by simp [hdb])
    (fun j hji => frame_selectForUpdate hji h) ?_
  have hi := hinv.holds i
  simp only [Holds, hpc] at hi
  obtain ⟨hlocks, hnone⟩ := hi
  simp only [Holds, set_pc_self, set_db]
  refine ⟨fun k => ?_, ?_, by rw [hdb]; exact hnone⟩
  · by_cases hkt : k = (request i).tenantId
    · simp [hdb, hkt]
    · simp only [set_db, hdb, Function.update_of_ne hkt, hkt, iff_false]
      exact fun hk => hkt (hlocks k hk).1
  · rw [head_set hlog]
    by_cases hl : s.db.lock (request i).tenantId = some i
    · exact Option.some.inj (hv.symm.trans (hlocks _ hl).2)
    · exact hinv.chained.headRow _ _ ((visible_of_not_lock hl).symm.trans hv)

theorem appendInv_insert {s : AppendSt τ} {i : τ} {db : AuditDb τ} {previousHash : Option String}
    (hinv : AppendInv request computeHash s) (hpc : s.pc i = .locked previousHash)
    (h : insertLog AuditEventORM.id s.db i
      (toOrm .postgresql (chainEvent computeHash previousHash (request i))) = some db) :
    AppendInv request computeHash
      (s.set i db (.inserted (chainEvent computeHash previousHash (request i)))) := by
  obtain ⟨-, -, hdb⟩ := insertLog_cases h
  have hlog : db.log = s.db.log := by rw [hdb]
  refine appendInv_set hinv (safe_insertLog hinv.safe h) (keyed_insertLog hinv.keyed h) hlog
    (by simp [hdb]) (fun j hji => frame_insertLog hji h) ?_
  have hi := hinv.holds i
  simp only [Holds, hpc] at hi
  obtain ⟨ho, rfl, hnone⟩ := hi
  simp only [Holds, set_pc_self, set_db]
  refine ⟨fun k => by simpa [hdb] using ho k, by rw [head_set hlog], ?_⟩
  have happ : db.pendingOf i = s.db.pendingOf i ++
      [toOrm .postgresql (chainEvent computeHash (s.head (request i).tenantId) (request i))] := by
    simp [hdb, Db.pendingOf]
  rw [happ, hnone, List.nil_append]

theorem appendInv_update {s : AppendSt τ} {i : τ} {db : AuditDb τ} {event : AuditEvent}
    (hinv : AppendInv request computeHash s) (hpc : s.pc i = .inserted event)
    (h : updateRow s.db i event.tenantId event.eventHash = some db) :
    AppendInv request computeHash (s.set i db (.updated event)) := by
  obtain ⟨-, -, hdb⟩ := updateRow_cases h
  have hlog : db.log = s.db.log := by rw [hdb]
  refine appendInv_set hinv (safe_updateRow hinv.safe h)
    (keyed_of_eq hinv.keyed hlog (by simp [hdb])) hlog (by simp [hdb])
    (fun j hji => frame_updateRow hji h) ?_
  have hi := hinv.holds i
  simp only [Holds, hpc] at hi
  obtain ⟨ho, rfl, hpend⟩ := hi
  simp only [Holds, set_pc_self, set_db]
  have hlock : ∀ k, db.lock k = some i ↔ k = (request i).tenantId := fun k => by
    rw [hdb]
    by_cases hkt : k = (request i).tenantId
    · simp [hkt]
    · simpa [hkt] using (ho k).not.mpr hkt
  refine ⟨hlock, by rw [head_set hlog], by rw [← hpend, hdb]; rfl, ?_⟩
  rw [visible_of_lock ((hlock _).mpr rfl)]
  simp [hdb]

theorem appendInv_commit {s : AppendSt τ} {i : τ} {event : AuditEvent}
    (hinv : AppendInv request computeHash s) (hpc : s.pc i = .updated event) :
    AppendInv request computeHash (s.set i (commit s.db i) .committed) := by
  have hi := hinv.holds i
  simp only [Holds, hpc] at hi
  obtain ⟨ho, he, hpend, hvis⟩ := hi
  refine ⟨safe_commit i hinv.safe, keyed_commit i hinv.keyed,
    chained_commit hinv.chained ho he hpend hvis, fun j => ?_⟩
  by_cases hji : j = i
  · subst hji
    exact holds_done (Or.inl rfl) (lock_release s.db j) (pendingOf_release s.db j)
  · refine holds_frame (frame_commit hji s.db) (set_pc_of_ne _ _ _ _ hji) (fun t ht => ?_)
      (hinv.holds j)
    -- the lock of the chain that grows is not held by `j`
    rw [events_commit hpend, if_neg]
    rintro rfl
    have hl := (ho (request i).tenantId).mpr rfl
    rw [show (toOrm .postgresql event).tenantId = (request i).tenantId by simp [he], hl] at ht
    exact hji (Option.some.inj ht).symm

theorem appendInv_step {s s' : AppendSt τ} {a : τ × AppendAct}
    (hinv : AppendInv request computeHash s) (h : AppendStep request computeHash s a s') :
    AppendInv request computeHash s' := by
  cases move_of_step h with
  | upsert hpc _ hdb => exact appendInv_upsert hinv hpc hdb
  | lock hpc hdb => exact appendInv_lock hinv hpc hdb
  | insert hpc _ hdb => exact appendInv_insert hinv hpc hdb
  | update hpc hdb => exact appendInv_update hinv hpc hdb
  | commit hpc => exact appendInv_commit hinv hpc
  | abort =>
    exact appendInv_set hinv (safe_abort _ hinv.safe) (keyed_abort _ hinv.keyed) rfl rfl
      (fun j hji => frame_abort hji s.db)
      (holds_done (Or.inr rfl) (lock_release s.db a.1) (pendingOf_release s.db a.1))

/-! ## Every reachable state -/

theorem appendInv_of_reaches {as : List (τ × AppendAct)} {s : AppendSt τ}
    (h : AppendReaches request computeHash as s) : AppendInv request computeHash s :=
  Runs.Run.invariant appendInv_init (fun _ _ _ hinv hs => appendInv_step hinv hs) h

theorem log_ids_nodup {s : AppendSt τ} (hinv : AppendInv request computeHash s) :
    (s.db.log.map AuditEventORM.id).Nodup :=
  (List.nodup_append.mp hinv.keyed).1

/-- In every state that any interleaving of appends reaches, the committed events
of every tenant form one linear chain: one root, a unique predecessor for every
other event, no fork, and the head row at the last event. -/
theorem committed_events_linear
    (hdistinct : ∀ e e' : AuditEvent, computeHash e = computeHash e' → e.id = e'.id)
    {as : List (τ × AppendAct)} {s : AppendSt τ} (h : AppendReaches request computeHash as s)
    (t : String) :
    Linked AuditEventORM.previousHash AuditEventORM.eventHash none (s.events t) ∧
    (s.events t ≠ [] → ∃! e, e ∈ s.events t ∧ e.previousHash = none) ∧
    (∀ e ∈ s.events t, e.previousHash ≠ none →
      ∃! e', e' ∈ s.events t ∧ e'.eventHash = e.previousHash) ∧
    (∀ e ∈ s.events t, ∀ e' ∈ s.events t, e.previousHash = e'.previousHash → e = e') ∧
    (s.events t ≠ [] → s.db.rows t = some (s.head t)) := by
  have hinv := appendInv_of_reaches h
  have hl := hinv.chained.linked t
  have hsome := hinv.chained.hashed.ne_none t
  have hnd := hinv.chained.hashed.nodup hdistinct (log_ids_nodup hinv) t
  refine ⟨hl, existsUnique_root hl hsome, fun e he hp => existsUnique_pred hl hnd he hp,
    fun e he e' he' hp => eq_of_prev_eq hl hnd hsome he he' hp, fun hne => ?_⟩
  cases hrow : s.db.rows t with
  | none => exact absurd (hinv.chained.absent t hrow) hne
  | some v => rw [hinv.chained.headRow t v hrow]

/-! Three calls for one tenant; the third one aborts after its insert. -/

def exampleRequest : Fin 3 → AuditEvent := fun i => exampleEvent (BitVec.ofNat 128 i) "uploaded" []

def exampleTrace : List (Fin 3 × AppendAct) :=
  [(0, .proceed), (0, .proceed), (0, .proceed), (0, .proceed), (0, .proceed),
    (1, .proceed), (2, .proceed), (2, .proceed), (2, .proceed), (2, .abort),
    (1, .proceed), (1, .proceed), (1, .proceed), (1, .proceed)]

theorem exampleHash_distinct (e e' : AuditEvent) (h : exampleHash e = exampleHash e') :
    e.id = e'.id :=
  (sameEvent_of_hashEvent_eq (transparentHmac_injective _) h).id

theorem committed_events_linear_trace :
    ∃ s, AppendReaches exampleRequest exampleHash exampleTrace s ∧
      (s.events "env").map AuditEventORM.id = [0, 1] ∧
      ∃! e, e ∈ s.events "env" ∧ e.previousHash = none := by
  obtain ⟨s, hrun, hids⟩ : ∃ s, AppendReaches exampleRequest exampleHash exampleTrace s ∧
      (s.events "env").map AuditEventORM.id = [0, 1] := ⟨_, Runs.run_of_exec rfl, rfl⟩
  refine ⟨s, hrun, hids, (committed_events_linear exampleHash_distinct hrun "env").2.1 ?_⟩
  rintro hnil
  simp [hnil] at hids

/-! ## A call that nobody interrupts -/

/-- A database with no transaction in flight. -/
def idle (tables : AuditTables) : AuditDb τ :=
  ⟨tables.chainState, tables.events.rows, fun _ => none, fun _ => none, []⟩

/-- The state row of a tenant as call `i` holds it: locked, with an image where the call
made the row. -/
def holding (tables : AuditTables) (i : τ) (t : String) (image : Option (Option String)) :
    AuditDb τ :=
  { idle tables with
    lock := Function.update (fun _ => none) t (some i)
    dirty := Function.update (fun _ => none) t image }

/-- The upsert and the locking read find the head, whether or not the row was there. -/
theorem lock_idle (tables : AuditTables) (i : τ) (t : String) :
    ∃ image, (image.or (tables.chainState t)).isSome ∧
      ((insertIfAbsent (idle tables) i t none).bind fun db => selectForUpdate db i t) =
        some ((tables.chainState t).join, holding tables i t image) := by
  cases hrow : tables.chainState t with
  | some previousHash =>
    refine ⟨none, rfl, ?_⟩
    simp [insertIfAbsent, selectForUpdate, idle, holding, Db.visible, hrow]
  | none =>
    refine ⟨some none, rfl, ?_⟩
    simp [insertIfAbsent, selectForUpdate, idle, holding, Db.visible, hrow]

theorem commit_holding (tables : AuditTables) (i : τ) (t : String) (hash : Option String)
    (orm : AuditEventORM) (events : Sql.Table AuditEventORM.id)
    (hevents : events.rows = tables.events.rows ++ [orm]) :
    commit { holding tables i t (some hash) with pending := [(i, orm)] } i =
      idle ⟨events, Function.update tables.chainState t (some hash)⟩ := by
  simp only [commit, release, holding, idle, Db.visible, Db.pendingOf, Db.mk.injEq, hevents]
  refine ⟨?_, by simp, ?_, ?_, by simp⟩
  all_goals
    funext k
    by_cases hk : k = t
    · subst hk
      simp
    · simp [hk]

omit [DecidableEq τ] in
theorem insertLog_holding {tables : AuditTables} {i : τ} {t : String}
    {image : Option (Option String)} {orm : AuditEventORM}
    (hfresh : orm.id ∉ tables.events.rows.map AuditEventORM.id) :
    insertLog AuditEventORM.id (holding tables i t image) i orm =
      some { holding tables i t image with pending := [(i, orm)] } := by
  rw [insertLog, if_neg]
  · rfl
  · rintro (hmem | hmem)
    · exact hfresh hmem
    · cases hmem

theorem updateRow_holding {tables : AuditTables} {i : τ} {t : String}
    {image : Option (Option String)} (himage : (image.or (tables.chainState t)).isSome)
    (pending : List (τ × AuditEventORM)) (hash : Option String) :
    updateRow { holding tables i t image with pending := pending } i t hash =
      some { holding tables i t (some hash) with pending := pending } := by
  obtain ⟨v, hv⟩ := Option.isSome_iff_exists.mp himage
  simp [updateRow, holding, idle, Db.visible, hv]

theorem run_appendLocked {s : AppendSt τ} {i : τ} {tables tables' : AuditTables}
    {event : AuditEvent} (hdb : s.db = idle tables) (hpc : s.pc i = .start)
    (happend : appendLocked computeHash tables (request i) = some (event, tables')) :
    Runs.Run (AppendStep request computeHash) s (List.replicate 5 (i, .proceed))
      (s.set i (idle tables') .committed) := by
  have hcases := happend
  rw [appendLocked_eq] at hcases
  obtain ⟨events, hins, heq⟩ := Option.map_eq_some_iff.mp hcases
  obtain ⟨hfits, hins⟩ := Sql.Table.insertChecked_eq_some_iff.mp hins
  obtain ⟨hfresh, hevents⟩ := Sql.Table.insert_eq_some_iff.mp hins
  cases heq
  obtain ⟨image, himage, hlocked⟩ := lock_idle tables i (request i).tenantId
  obtain ⟨db, hupsert, hselect⟩ := Option.bind_eq_some_iff.mp hlocked
  set t := (request i).tenantId with ht
  set previousHash := (tables.chainState t).join
  set chained := chainEvent computeHash previousHash (request i)
  set orm := toOrm .postgresql chained
  have hset : ∀ db db' pc pc', (s.set i db pc).set i db' pc' = s.set i db' pc' := by
    intro db db' pc pc'
    simp [AppendSt.set]
  have htenant : Sql.varchar 255 t := tenantId_of_fits hfits
  -- the five statements in turn
  have hupserted : AppendStep request computeHash s (i, .proceed) (s.set i db .upserted) := by
    simp [AppendStep, AppendSt.next, hpc, hdb, hupsert, ← ht, htenant, guard]
  have hread : AppendStep request computeHash (s.set i db .upserted) (i, .proceed)
      (s.set i (holding tables i t image) (.locked previousHash)) := by
    simp [AppendStep, AppendSt.next, hselect, ← ht, hset]
  have hinserted : AppendStep request computeHash
      (s.set i (holding tables i t image) (.locked previousHash)) (i, .proceed)
      (s.set i { holding tables i t image with pending := [(i, orm)] } (.inserted chained)) := by
    simp only [AppendStep, AppendSt.next, set_pc_self, set_db]
    rw [show toOrm .postgresql (chainEvent computeHash previousHash (request i)) = orm from rfl,
      insertLog_holding hfresh]
    simp [hset, chained, hfits, guard]
  have hupdated : AppendStep request computeHash
      (s.set i { holding tables i t image with pending := [(i, orm)] } (.inserted chained))
      (i, .proceed) (s.set i { holding tables i t (some chained.eventHash) with
        pending := [(i, orm)] } (.updated chained)) := by
    simp only [AppendStep, AppendSt.next, set_pc_self, set_db]
    rw [show chained.tenantId = t from rfl, updateRow_holding himage]
    simp [hset]
  have hcommitted : AppendStep request computeHash
      (s.set i { holding tables i t (some chained.eventHash) with pending := [(i, orm)] }
        (.updated chained)) (i, .proceed)
      (s.set i (idle ⟨events, Function.update tables.chainState t (some chained.eventHash)⟩)
        .committed) := by
    simp only [AppendStep, AppendSt.next, set_pc_self, set_db, hset,
      commit_holding tables i t _ orm events hevents]
  exact .snoc (.snoc (.snoc (.snoc (.snoc .nil hupserted) hread) hinserted) hupdated) hcommitted

end GoAnalyze
