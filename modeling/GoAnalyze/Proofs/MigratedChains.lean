import GoAnalyze.Proofs.ChainLinearity
import GoAnalyze.Spec.Migrations

/-! The chains across revision ed3a4f8a50b6. The upgrade starts with no
chain-state rows, so what it takes for a chain to stay one chain is that no
append at head meets a tenant with events and without a row. -/

namespace GoAnalyze

open HashChain AuditRepository Sql Runs

variable {computeHash : AuditEvent → String}

/-- The events of the tenant have one root, and each later one links to the event
appended before it. -/
def OneChain (db : MigratedDb) (t : String) : Prop :=
  Linked AuditEventORM.previousHash AuditEventORM.eventHash none (db.eventsOf t) ∧
    (db.eventsOf t ≠ [] → ∃! e, e ∈ db.eventsOf t ∧ e.previousHash = none)

/-- The append finds the tenant's head: before the revision the latest row is the
one appended last, and at head the tenant has a chain-state row or no events. -/
def FindsHead (db : MigratedDb) : MigrationAct → Prop
  | .appendBefore scan event => latestForTenant scan db.events.rows event.tenantId =
      (db.eventsOf event.tenantId).getLast?.map ormToDomain
  | .appendAtHead event => ∀ chainState, db.schema = .head chainState →
      chainState event.tenantId = none → db.eventsOf event.tenantId = []
  | .upgrade | .downgrade => True

/-- Hashes are those of the events, and a chain-state row holds the last one. -/
structure MigratedInv (computeHash : AuditEvent → String) (db : MigratedDb) : Prop where
  hashed : Hashed computeHash db.events.rows
  headRow : ∀ chainState, db.schema = .head chainState → ∀ t v, chainState t = some v →
    v = headFrom AuditEventORM.eventHash none (db.eventsOf t)

/-! ## What one step does -/

/-- A step changes the schema only, or appends one event linked to what stands for
the head under the schema. -/
inductive MigrationMove (computeHash : AuditEvent → String) (db : MigratedDb) :
    MigrationAct → MigratedDb → Prop where
  | appendBefore {scan : Scan AuditEventORM} {event : AuditEvent}
      {events : Table AuditEventORM.id} : db.schema = .before →
      events.rows = db.events.rows ++ [toOrm .postgresql (chainEvent computeHash
        ((latestForTenant scan db.events.rows event.tenantId).bind (·.eventHash)) event)] →
      MigrationMove computeHash db (.appendBefore scan event) ⟨events, .before⟩
  | upgrade : (∀ chainState, db.schema ≠ .head chainState) →
      MigrationMove computeHash db .upgrade ⟨db.events, GoAnalyze.upgrade⟩
  | downgrade {chainState : String → Option (Option String)} : db.schema = .head chainState →
      MigrationMove computeHash db .downgrade ⟨db.events, GoAnalyze.downgrade⟩
  | appendAtHead {chainState : String → Option (Option String)} {event : AuditEvent}
      {events : Table AuditEventORM.id} : db.schema = .head chainState →
      events.rows = db.events.rows ++ [toOrm .postgresql (chainEvent computeHash
        (chainState event.tenantId).join event)] →
      MigrationMove computeHash db (.appendAtHead event) ⟨events, .head (Function.update chainState
        event.tenantId (some (chainEvent computeHash (chainState event.tenantId).join
          event).eventHash))⟩

theorem migrationMove_of_step {db db' : MigratedDb} {a : MigrationAct}
    (h : MigrationStep computeHash db a db') : MigrationMove computeHash db a db' := by
  obtain ⟨events, schema⟩ := db
  cases a with
  | appendBefore scan event =>
    cases schema with
    | before =>
      simp only [MigrationStep, MigratedDb.next, appendUnlocked_eq, Option.bind_eq_bind,
        Option.bind_eq_some_iff, Option.map_eq_some_iff] at h
      obtain ⟨_, ⟨events', hins, rfl⟩, heq⟩ := h
      cases heq
      exact .appendBefore rfl (Table.rows_insertChecked hins)
    | head _ => simp [MigrationStep, MigratedDb.next] at h
    | downgraded => simp [MigrationStep, MigratedDb.next] at h
  | upgrade =>
    cases schema with
    | head _ => simp [MigrationStep, MigratedDb.next] at h
    | before => cases h; exact .upgrade fun _ => by simp
    | downgraded => cases h; exact .upgrade fun _ => by simp
  | downgrade =>
    cases schema with
    | head _ => cases h; exact .downgrade rfl
    | before => simp [MigrationStep, MigratedDb.next] at h
    | downgraded => simp [MigrationStep, MigratedDb.next] at h
  | appendAtHead event =>
    cases schema with
    | head chainState =>
      simp only [MigrationStep, MigratedDb.next, appendLocked_eq, Option.bind_eq_bind,
        Option.bind_eq_some_iff, Option.map_eq_some_iff] at h
      obtain ⟨_, ⟨events', hins, rfl⟩, heq⟩ := h
      cases heq
      exact .appendAtHead rfl (Table.rows_insertChecked hins)
    | before => simp [MigrationStep, MigratedDb.next] at h
    | downgraded => simp [MigrationStep, MigratedDb.next] at h

theorem eventsOf_append {db db' : MigratedDb} {orm : AuditEventORM}
    (h : db'.events.rows = db.events.rows ++ [orm]) (t : String) :
    db'.eventsOf t = if orm.tenantId = t then db.eventsOf t ++ [orm] else db.eventsOf t := by
  rw [MigratedDb.eventsOf, h, forTenant_append]
  rfl

theorem migratedInv_step {db db' : MigratedDb} {a : MigrationAct}
    (hinv : MigratedInv computeHash db) (h : MigrationStep computeHash db a db') :
    MigratedInv computeHash db' := by
  cases migrationMove_of_step h with
  | appendBefore hschema hrows =>
    exact ⟨hrows ▸ hinv.hashed.append_singleton _ _ _, fun _ hh => by cases hh⟩
  | upgrade hschema => exact ⟨hinv.hashed, fun _ hh t v hv => by cases hh; cases hv⟩
  | downgrade hschema => exact ⟨hinv.hashed, fun _ hh => by cases hh⟩
  | @appendAtHead chainState event events hschema hrows =>
    refine ⟨hrows ▸ hinv.hashed.append_singleton _ _ _, fun cs hh t v hv => ?_⟩
    cases hh
    rw [eventsOf_append hrows]
    by_cases ht : event.tenantId = t
    · subst ht
      simpa using hv.symm
    · rw [toOrm_tenantId, chainEvent_tenantId, if_neg ht]
      rw [Function.update_of_ne (Ne.symm ht)] at hv
      exact hinv.headRow chainState hschema t v hv

theorem oneChain_iff {db : MigratedDb} (hinv : MigratedInv computeHash db) (t : String) :
    OneChain db t ↔
      Linked AuditEventORM.previousHash AuditEventORM.eventHash none (db.eventsOf t) :=
  ⟨fun h => h.1, fun h => ⟨h, existsUnique_root h (hinv.hashed.ne_none t)⟩⟩

theorem linked_append_iff {db db' : MigratedDb} {orm : AuditEventORM}
    (hrows : db'.events.rows = db.events.rows ++ [orm])
    (hl : ∀ t, Linked AuditEventORM.previousHash AuditEventORM.eventHash none (db.eventsOf t)) :
    (∀ t, Linked AuditEventORM.previousHash AuditEventORM.eventHash none (db'.eventsOf t)) ↔
      orm.previousHash = (db.eventsOf orm.tenantId).getLast?.bind AuditEventORM.eventHash := by
  rw [← headFrom_none]
  refine ⟨fun h => ?_, fun h t => ?_⟩
  · have hown := h orm.tenantId
    rw [eventsOf_append hrows, if_pos rfl] at hown
    exact (linked_append_singleton.mp hown).2
  · rw [eventsOf_append hrows]
    split_ifs with ht
    · subst ht
      exact linked_append_singleton.mpr ⟨hl _, h⟩
    · exact hl t

/-! ## When a step keeps the chains -/

/-- Among rows with distinct hashes, the latest row has the last hash only if it
is the last row. -/
theorem latest_eq_last_iff
    (hdistinct : ∀ e e' : AuditEvent, computeHash e = computeHash e' → e.id = e'.id)
    {db : MigratedDb} (hinv : MigratedInv computeHash db) (scan : Scan AuditEventORM)
    (t : String) :
    (latestForTenant scan db.events.rows t).bind AuditEvent.eventHash =
        (db.eventsOf t).getLast?.bind AuditEventORM.eventHash ↔
      latestForTenant scan db.events.rows t = (db.eventsOf t).getLast?.map ormToDomain := by
  have hnd := hinv.hashed.nodup hdistinct db.events.nodup t
  have hperm : (orderBy timestampGe scan (db.eventsOf t)).Perm (db.eventsOf t) := orderBy_perm
  constructor
  · intro h
    simp only [latestForTenant] at h ⊢
    change ((orderBy timestampGe scan (db.eventsOf t)).head?.map ormToDomain).bind _ = _ at h
    change (orderBy timestampGe scan (db.eventsOf t)).head?.map ormToDomain = _
    cases hhead : (orderBy timestampGe scan (db.eventsOf t)).head? with
    | none =>
      rw [List.head?_eq_none_iff.mp hhead, List.nil_perm] at hperm
      simp [hperm]
    | some first =>
      have hmem : first ∈ db.eventsOf t := hperm.subset (List.mem_of_mem_head? hhead)
      cases hlast : (db.eventsOf t).getLast? with
      | none => simp [List.getLast?_eq_none_iff.mp hlast] at hmem
      | some last =>
        simp only [hhead, hlast, Option.map_some, Option.bind_some, ormToDomain_eventHash] at h
        have heq : first = last :=
          List.inj_on_of_nodup_map hnd hmem (List.mem_of_mem_getLast? hlast) h
        simp [heq]
  · intro h
    rw [h]
    cases (db.eventsOf t).getLast? <;> rfl

theorem oneChain_step_iff
    (hdistinct : ∀ e e' : AuditEvent, computeHash e = computeHash e' → e.id = e'.id)
    {db db' : MigratedDb} {a : MigrationAct} (hinv : MigratedInv computeHash db)
    (hone : ∀ t, OneChain db t) (h : MigrationStep computeHash db a db') :
    (∀ t, OneChain db' t) ↔ FindsHead db a := by
  have hinv' := migratedInv_step hinv h
  have hl := fun t => (oneChain_iff hinv t).mp (hone t)
  rw [forall_congr' (oneChain_iff hinv')]
  cases migrationMove_of_step h with
  | upgrade _ => exact ⟨fun _ => trivial, fun _ => hl⟩
  | downgrade _ => exact ⟨fun _ => trivial, fun _ => hl⟩
  | appendBefore hschema hrows =>
    rw [linked_append_iff hrows hl]
    exact latest_eq_last_iff hdistinct hinv _ _
  | @appendAtHead chainState event _ hschema hrows =>
    rw [linked_append_iff hrows hl, toOrm_previousHash, chainEvent_previousHash, ← headFrom_none]
    simp only [toOrm_tenantId, chainEvent_tenantId]
    cases hrow : chainState event.tenantId with
    | some v =>
      -- a row that is there holds the head
      refine ⟨fun _ cs hcs hnone => ?_, fun _ => hinv.headRow chainState hschema _ v hrow⟩
      obtain rfl : chainState = cs := by rw [hschema] at hcs; cases hcs; rfl
      simp [hrow] at hnone
    | none =>
      refine ⟨fun hhead cs hcs _ => ?_, fun hfinds => ?_⟩
      · by_contra hne
        rw [headFrom_eq_of_ne_nil hne] at hhead
        exact hinv.hashed.ne_none _ _ (List.getLast_mem hne) hhead.symm
      · rw [hfinds chainState hschema hrow]
        rfl

/-! ## Runs -/

/-- The migrations preserve the chains of exactly those runs in which every append
finds its tenant's head. -/
theorem oneChain_iff_findsHead
    (hdistinct : ∀ e e' : AuditEvent, computeHash e = computeHash e' → e.id = e'.id)
    (as : List MigrationAct) (db : MigratedDb) :
    Run.Every (MigrationStep computeHash) FindsHead MigratedDb.init as db ↔
      Run.Every (MigrationStep computeHash) (fun db _ => ∀ t, OneChain db t) MigratedDb.init as db ∧
        ∀ t, OneChain db t := by
  refine Run.every_iff (I := MigratedInv computeHash) ?_ ?_ ?_ ?_
  · exact ⟨fun _ h => (by cases h), fun _ h => (by cases h)⟩
  · exact fun t => ⟨trivial, fun h => absurd rfl h⟩
  · exact fun _ _ _ hinv h => migratedInv_step hinv h
  · exact fun _ _ _ hinv hone h => oneChain_step_iff hdistinct hinv hone h

/-! One event before the revision, the upgrade, one event at head. -/

def historyEvent : AuditEventORM :=
  toOrm .postgresql (chainEvent exampleHash none (exampleEvent 0 "uploaded" []))

def headEvent : AuditEventORM :=
  toOrm .postgresql (chainEvent exampleHash none (exampleEvent 1 "uploaded" []))

theorem appendBefore_first : MigrationStep exampleHash MigratedDb.init
    (.appendBefore default (exampleEvent 0 "uploaded" [])) ⟨⟨[historyEvent], by simp⟩, .before⟩ := by
  have hfits : (toOrm .postgresql (exampleEvent 0#128 "uploaded" [])).fits .postgresql := rfl
  simp [MigrationStep, MigratedDb.next, appendUnlocked_eq, latestForTenant, forTenant,
    MigratedDb.init, Table.empty, Table.insertChecked, Table.insert, historyEvent, hfits]

theorem upgrade_forks : ∃ db, Run (MigrationStep exampleHash) MigratedDb.init
      [.appendBefore default (exampleEvent 0 "uploaded" []), .upgrade,
        .appendAtHead (exampleEvent 1 "uploaded" [])] db ∧
    db.eventsOf "env" = [historyEvent, headEvent] ∧ ¬ OneChain db "env" := by
  obtain ⟨db, hrun, hevents⟩ : ∃ db, Run (MigrationStep exampleHash)
      ⟨⟨[historyEvent], by simp⟩, .before⟩ [.upgrade, .appendAtHead (exampleEvent 1 "uploaded" [])]
      db ∧ db.eventsOf "env" = [historyEvent, headEvent] := ⟨_, run_of_exec rfl, rfl⟩
  refine ⟨db, (Run.snoc .nil appendBefore_first).append hrun, hevents, fun hone => ?_⟩
  have hlinked := hone.1
  rw [hevents] at hlinked
  exact absurd hlinked.2.1 (by simp [headEvent, historyEvent])

/-- Two appends at head of a database that had none before the upgrade. -/
theorem oneChain_iff_findsHead_fresh : ∃ db,
    Run.Every (MigrationStep exampleHash) FindsHead MigratedDb.init
      [.upgrade, .appendAtHead (exampleEvent 0 "uploaded" []),
        .appendAtHead (exampleEvent 1 "uploaded" [])] db ∧
    (db.eventsOf "env").length = 2 ∧ OneChain db "env" := by
  obtain ⟨db₁, h₁, ⟨chainState, hschema, hrow⟩, db₂, h₂, htwo⟩ :
      ∃ db₁, MigrationStep exampleHash ⟨.empty, upgrade⟩
          (.appendAtHead (exampleEvent 0 "uploaded" [])) db₁ ∧
        (∃ chainState, db₁.schema = .head chainState ∧ (chainState "env").isSome) ∧
        ∃ db₂, MigrationStep exampleHash db₁ (.appendAtHead (exampleEvent 1 "uploaded" [])) db₂ ∧
          (db₂.eventsOf "env").length = 2 := ⟨_, rfl, ⟨_, rfl, rfl⟩, _, rfl, rfl⟩
  have hupgrade : Run.Every (MigrationStep exampleHash) FindsHead MigratedDb.init [.upgrade]
      ⟨.empty, upgrade⟩ := .snoc .nil trivial rfl
  have hfinds₁ : FindsHead ⟨.empty, upgrade⟩ (.appendAtHead (exampleEvent 0 "uploaded" [])) :=
    fun _ _ _ => rfl
  have hfinds₂ : FindsHead db₁ (.appendAtHead (exampleEvent 1 "uploaded" [])) := by
    intro cs hcs hnone
    obtain rfl : chainState = cs := by rw [hschema] at hcs; cases hcs; rfl
    exact absurd hrow (by rw [show chainState "env" = none from hnone]; simp)
  have hevery := (hupgrade.snoc hfinds₁ h₁).snoc hfinds₂ h₂
  exact ⟨db₂, hevery, htwo, ((oneChain_iff_findsHead exampleHash_distinct _ db₂).mp hevery).2 "env"⟩

end GoAnalyze
