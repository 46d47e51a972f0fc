import GoAnalyze.Lib.Paging
import GoAnalyze.Proofs.ListingOrder

/-! The two branches of `append_with_chain_lock` over one sequence of calls. The locked
one links an event to the head row of its tenant, the other to the row with the latest
timestamp. -/

namespace GoAnalyze

open Sql AuditRepository

/-! ## Sequences of calls -/

/-- What calls one after another return; `none` where the call raises. -/
def appendOutcomes (dialect : Dialect) (computeHash : AuditEvent → String)
    (scan : Scan AuditEventORM) : AuditTables → List AuditEvent → List (Option AuditEvent)
  | _, [] => []
  | tables, event :: events =>
    match appendWithChainLock dialect computeHash scan tables event with
    | some (appended, tables) => some appended :: appendOutcomes dialect computeHash scan tables events
    | none => none :: appendOutcomes dialect computeHash scan tables events

def ofTenant (tenantId : String) (events : List AuditEvent) : List AuditEvent :=
  events.filter fun event => event.tenantId = tenantId

/-- The timestamp of an event as SQLite stores it. -/
def storedInstant (event : AuditEvent) : ℤ := (storedDateTime .sqlite event.timestamp).instant

/-- The timestamps of a tenant's events, in the order of the calls. -/
def storedTimes (tenantId : String) (events : List AuditEvent) : List ℤ :=
  (ofTenant tenantId events).map storedInstant

/-- PostgreSQL takes every event, and the timestamps of each tenant increase strictly, up
to the last event, which no other is linked to. -/
structure AppendedInOrder (events : List AuditEvent) : Prop where
  fits : ∀ event ∈ events, (toOrm .postgresql event).fits .postgresql
  increasing : ∀ tenantId, (storedTimes tenantId events).dropLast.Pairwise (· < ·)

theorem storedTimes_append (tenantId : String) (events events' : List AuditEvent) :
    storedTimes tenantId (events ++ events') =
      storedTimes tenantId events ++ storedTimes tenantId events' := by
  rw [storedTimes, ofTenant, List.filter_append, List.map_append]
  rfl

theorem storedTimes_singleton (tenantId : String) (event : AuditEvent) :
    storedTimes tenantId [event] = if event.tenantId = tenantId then [storedInstant event] else [] := by
  unfold storedTimes ofTenant
  split_ifs with h <;> simp [h]

theorem storedTimes_cons (tenantId : String) (event : AuditEvent) (events : List AuditEvent) :
    storedTimes tenantId (event :: events) =
      storedTimes tenantId [event] ++ storedTimes tenantId events :=
  storedTimes_append tenantId [event] events

/-- The last of the times is later than the others. -/
def LastIsLatest (times : List ℤ) : Prop :=
  ∀ init last, times = init ++ [last] → ∀ time ∈ init, time < last

theorem increasing_iff {times : List ℤ} :
    times.Pairwise (· < ·) ↔ times.dropLast.Pairwise (· < ·) ∧ LastIsLatest times := by
  rcases times.eq_nil_or_concat' with rfl | ⟨init, last, rfl⟩
  · exact iff_of_true .nil ⟨.nil, fun init last h => absurd h.symm (by simp)⟩
  · rw [List.dropLast_concat, List.pairwise_append]
    constructor
    · rintro ⟨hinit, -, hlast⟩
      refine ⟨hinit, fun init' last' h time htime => ?_⟩
      obtain ⟨rfl, hsingle⟩ := List.append_inj' h rfl
      obtain rfl := List.singleton_inj.mp hsingle
      exact hlast time htime _ (List.mem_singleton_self _)
    · rintro ⟨hinit, hlast⟩
      refine ⟨hinit, List.pairwise_singleton _ _, fun time htime last' hlast' => ?_⟩
      rw [List.mem_singleton.mp hlast']
      exact hlast init last rfl time htime

/-! ## The head of a tenant -/

instance : Std.Total timestampGe := ⟨fun _ _ => le_total _ _⟩

instance : IsTrans AuditEventORM timestampGe := ⟨fun _ _ _ hab hbc => le_trans hbc hab⟩

theorem timestampGe_toOrm {a b : AuditEvent} : timestampGe (toOrm .sqlite a) (toOrm .sqlite b) ↔
    storedInstant b ≤ storedInstant a :=
  Iff.rfl

theorem forTenant_map (dialect : Dialect) (tenantId : String) (events : List AuditEvent) :
    forTenant tenantId (events.map (toOrm dialect)) =
      (ofTenant tenantId events).map (toOrm dialect) := by
  rw [forTenant, ofTenant, List.filter_map]
  rfl

theorem ofTenant_append (tenantId : String) (events : List AuditEvent) (event : AuditEvent) :
    ofTenant tenantId (events ++ [event]) =
      if event.tenantId = tenantId then ofTenant tenantId events ++ [event]
      else ofTenant tenantId events := by
  simp only [ofTenant, List.filter_append]
  split_ifs with h <;> simp [h]

/-- Both branches after the same calls: each has stored the events as they were linked
and hashed, and the head rows name the last one of each tenant. -/
structure Agree (computeHash : AuditEvent → String) (done : List AuditEvent)
    (locked unlocked : AuditTables) : Prop where
  lockedRows : locked.events.rows = done.map (toOrm .postgresql)
  unlockedRows : unlocked.events.rows = done.map (toOrm .sqlite)
  heads : ∀ tenantId, (locked.chainState tenantId).join =
    (ofTenant tenantId done).getLast?.bind (·.eventHash)
  hashed : ∀ event ∈ done, ∃ sealed : AuditEvent,
    sealed.id = event.id ∧ event.eventHash = some (computeHash sealed)

section Sequences

variable {computeHash : AuditEvent → String} {done : List AuditEvent}
  {locked unlocked : AuditTables}

theorem agree_empty : Agree computeHash [] .empty .empty where
  lockedRows := rfl
  unlockedRows := rfl
  heads _ := rfl
  hashed := List.forall_mem_nil _

theorem Agree.ids_nodup (h : Agree computeHash done locked unlocked) :
    (done.map AuditEvent.id).Nodup := by
  have hnd := locked.events.nodup
  rwa [h.lockedRows, List.map_map] at hnd

variable (hdistinct : ∀ e e' : AuditEvent, computeHash e = computeHash e' → e.id = e'.id)

include hdistinct in
theorem Agree.eq_of_eventHash (h : Agree computeHash done locked unlocked) {e e' : AuditEvent}
    (he : e ∈ done) (he' : e' ∈ done) (heq : e.eventHash = e'.eventHash) : e = e' := by
  obtain ⟨s, hs, hhash⟩ := h.hashed e he
  obtain ⟨s', hs', hhash'⟩ := h.hashed e' he'
  rw [hhash, hhash', Option.some.injEq] at heq
  exact List.inj_on_of_nodup_map h.ids_nodup he he' (hs.symm.trans ((hdistinct _ _ heq).trans hs'))

include hdistinct in
/-- What SQLite reads as the head has the hash of `last` only where it is its row. -/
theorem Agree.eventHash_head_iff (h : Agree computeHash done locked unlocked)
    {events : List AuditEvent} {last : AuditEvent} (hsub : ∀ e ∈ events, e ∈ done)
    (hlast : last ∈ events) (scan : Scan AuditEventORM) :
    ((orderBy timestampGe scan (events.map (toOrm .sqlite))).head?.map ormToDomain).bind
        (·.eventHash) = last.eventHash ↔
      (orderBy timestampGe scan (events.map (toOrm .sqlite))).head? = some (toOrm .sqlite last) := by
  cases hfirst : (orderBy timestampGe scan (events.map (toOrm .sqlite))).head? with
  | none =>
    have hmem : toOrm .sqlite last ∈ orderBy timestampGe scan (events.map (toOrm .sqlite)) :=
      mem_orderBy.mpr (List.mem_map_of_mem hlast)
    rw [List.head?_eq_none_iff.mp hfirst] at hmem
    cases hmem
  | some orm =>
    obtain ⟨e, he, rfl⟩ := List.mem_map.mp (least_of_head hfirst).1
    rw [Option.map_some, Option.bind_some, Option.some.injEq]
    refine ⟨fun heq => ?_, fun heq => by rw [heq]; rfl⟩
    rw [h.eq_of_eventHash hdistinct (hsub e he) (hsub last hlast) heq]

/-- Whichever way ties are read, the last row comes first exactly if it is the latest. -/
theorem head_is_last_iff {init : List AuditEvent} {last : AuditEvent}
    (hids : ((init ++ [last]).map AuditEvent.id).Nodup) :
    (∀ scan, (orderBy timestampGe scan ((init ++ [last]).map (toOrm .sqlite))).head? =
        some (toOrm .sqlite last)) ↔ LastIsLatest ((init ++ [last]).map storedInstant) := by
  have hlast : last ∈ init ++ [last] := List.mem_append_right _ (List.mem_singleton_self _)
  have hfresh : ∀ e ∈ init, toOrm .sqlite e ≠ toOrm .sqlite last := by
    intro e he heq
    rw [List.map_append] at hids
    exact (List.nodup_append.mp hids).2.2 e.id (List.mem_map_of_mem he) last.id
      (List.mem_singleton_self _) (congrArg AuditEventORM.id heq)
  rw [head_orderBy_iff, and_iff_right (List.mem_map_of_mem hlast)]
  constructor
  · intro hfirst init' last' heq time htime
    rw [List.map_append] at heq
    obtain ⟨rfl, hsingle⟩ := List.append_inj' heq rfl
    obtain ⟨e, he, rfl⟩ := List.mem_map.mp htime
    rw [← List.singleton_inj.mp hsingle]
    have hlt := hfirst _ (List.mem_map_of_mem (List.mem_append_left _ he)) (hfresh e he)
    rwa [timestampGe_toOrm, not_le] at hlt
  · intro hlatest orm horm hne
    obtain ⟨e, he, rfl⟩ := List.mem_map.mp horm
    have heinit : e ∈ init := (List.mem_append.mp he).resolve_right fun hmem =>
      hne (by rw [List.mem_singleton.mp hmem])
    rw [timestampGe_toOrm, not_le]
    exact hlatest _ _ List.map_append _ (List.mem_map_of_mem heinit)

include hdistinct in
/-- The branches see one head of a tenant exactly where its last event is later than all
events before it. -/
theorem Agree.sameHead_iff (h : Agree computeHash done locked unlocked) (tenantId : String) :
    (∀ scan, chainHead .sqlite scan unlocked tenantId = (locked.chainState tenantId).join) ↔
      LastIsLatest (storedTimes tenantId done) := by
  have hunlocked : ∀ scan, chainHead .sqlite scan unlocked tenantId =
      (((orderBy timestampGe scan ((ofTenant tenantId done).map (toOrm .sqlite))).head?.map
        ormToDomain).bind (·.eventHash)) := by
    intro scan
    rw [chainHead, latestForTenant, h.unlockedRows, forTenant_map]
  have hsub : ∀ e ∈ ofTenant tenantId done, e ∈ done := fun e he => (List.mem_filter.mp he).1
  have hids : ((ofTenant tenantId done).map AuditEvent.id).Nodup :=
    (List.filter_sublist.map _).nodup h.ids_nodup
  simp only [hunlocked, h.heads]
  unfold storedTimes
  rcases (ofTenant tenantId done).eq_nil_or_concat' with hnil | ⟨init, last, hsplit⟩
  · rw [hnil]
    refine iff_of_true (fun scan => ?_) fun init last h => absurd h.symm (by simp)
    rw [List.map_nil, orderBy_nil]
    rfl
  · rw [hsplit] at hsub hids ⊢
    have hlast : last ∈ init ++ [last] := List.mem_append_right _ (List.mem_singleton_self _)
    rw [← head_is_last_iff hids, List.getLast?_concat, Option.bind_some]
    exact forall_congr' fun scan => h.eventHash_head_iff hdistinct hsub hlast scan

/-- The event as the locked branch links and hashes it. -/
def lockedEvent (computeHash : AuditEvent → String) (locked : AuditTables) (event : AuditEvent) :
    AuditEvent :=
  chainEvent computeHash (locked.chainState event.tenantId).join event

theorem Agree.insertable (h : Agree computeHash done locked unlocked) {e : AuditEvent}
    (hid : e.id ∉ done.map AuditEvent.id) :
    ((toOrm .postgresql e).fits .postgresql → ∃ events, locked.events.insertChecked
      (AuditEventORM.fits .postgresql) (toOrm .postgresql e) = some events) ∧
    ∃ events, unlocked.events.insertChecked (AuditEventORM.fits .sqlite)
      (toOrm .sqlite e) = some events := by
  have hlockedNew : e.id ∉ locked.events.rows.map AuditEventORM.id := by
    rwa [h.lockedRows, List.map_map]
  have hunlockedNew : e.id ∉ unlocked.events.rows.map AuditEventORM.id := by
    rwa [h.unlockedRows, List.map_map]
  exact ⟨fun hfits => Table.exists_insertChecked_iff.mpr ⟨hfits, hlockedNew⟩,
    Table.exists_insertChecked_iff.mpr ⟨rfl, hunlockedNew⟩⟩

theorem Agree.sqlite_stores (h : Agree computeHash done locked unlocked) {event : AuditEvent}
    (hid : event.id ∉ done.map AuditEvent.id) (scan : Scan AuditEventORM) :
    ∃ tables, appendWithChainLock .sqlite computeHash scan unlocked event = some
      (chainEvent computeHash (chainHead .sqlite scan unlocked event.tenantId) event, tables) := by
  obtain ⟨events, hevents⟩ := (h.insertable (e := chainEvent computeHash
    (chainHead .sqlite scan unlocked event.tenantId) event) hid).2
  rw [appendWithChainLock_eq]
  exact ⟨_, congrArg (Option.map _) hevents⟩

/-- A call that PostgreSQL takes keeps the branches in agreement, if they see one head. -/
theorem Agree.step (h : Agree computeHash done locked unlocked) {event : AuditEvent}
    (hid : event.id ∉ done.map AuditEvent.id)
    (hfits : (toOrm .postgresql event).fits .postgresql) :
    ∃ locked' unlocked',
      Agree computeHash (done ++ [lockedEvent computeHash locked event]) locked' unlocked' ∧
      (∀ scan, appendWithChainLock .postgresql computeHash scan locked event =
        some (lockedEvent computeHash locked event, locked')) ∧
      ∀ scan, chainHead .sqlite scan unlocked event.tenantId =
          (locked.chainState event.tenantId).join →
        appendWithChainLock .sqlite computeHash scan unlocked event =
          some (lockedEvent computeHash locked event, unlocked') := by
  have hlinked := h.insertable (e := lockedEvent computeHash locked event) hid
  obtain ⟨lockedEvents, hlocked⟩ := hlinked.1 hfits
  obtain ⟨unlockedEvents, hunlocked⟩ := hlinked.2
  refine ⟨⟨lockedEvents, Function.update locked.chainState event.tenantId
      (some (lockedEvent computeHash locked event).eventHash)⟩,
    { unlocked with events := unlockedEvents }, ⟨?_, ?_, ?_, ?_⟩, fun scan => ?_, fun scan hhead => ?_⟩
  · rw [Table.rows_insertChecked hlocked, h.lockedRows, List.map_append, List.map_singleton]
  · rw [Table.rows_insertChecked hunlocked, h.unlockedRows, List.map_append, List.map_singleton]
  · intro tenantId
    dsimp only
    rw [ofTenant_append, show (lockedEvent computeHash locked event).tenantId = event.tenantId from rfl]
    by_cases ht : event.tenantId = tenantId
    · subst ht
      rw [if_pos rfl, Function.update_self, List.getLast?_concat]
      rfl
    · rw [if_neg ht, Function.update_of_ne (Ne.symm ht)]
      exact h.heads tenantId
  · intro e he
    rcases List.mem_append.mp he with he | he
    · exact h.hashed e he
    · rw [List.mem_singleton.mp he]
      exact ⟨{ event with previousHash := (locked.chainState event.tenantId).join }, rfl, rfl⟩
  · rw [appendWithChainLock_eq]
    exact congrArg (Option.map _) hlocked
  · rw [appendWithChainLock_eq, hhead]
    exact congrArg (Option.map _) hunlocked

theorem Agree.refused (h : Agree computeHash done locked unlocked) {event : AuditEvent}
    (hid : event.id ∉ done.map AuditEvent.id)
    (hfits : ¬ (toOrm .postgresql event).fits .postgresql) (scan : Scan AuditEventORM)
    (events : List AuditEvent) :
    appendOutcomes .sqlite computeHash scan unlocked (event :: events) ≠
      appendOutcomes .postgresql computeHash scan locked (event :: events) := by
  obtain ⟨tables, hsqlite⟩ := h.sqlite_stores hid scan
  have hpostgresql : appendWithChainLock .postgresql computeHash scan locked event = none := by
    have hnone : locked.events.insertChecked (AuditEventORM.fits .postgresql)
        (toOrm .postgresql (lockedEvent computeHash locked event)) = none :=
      Table.insertChecked_eq_none_iff.mpr fun h => absurd h hfits
    rw [appendWithChainLock_eq]
    exact congrArg (Option.map _) hnone
  simp only [appendOutcomes, hsqlite, hpostgresql]
  exact fun heq => absurd (List.cons.inj heq).1 (Option.some_ne_none _)

include hdistinct in
theorem Agree.lastIsLatest_of_outcomes (h : Agree computeHash done locked unlocked)
    {event : AuditEvent} (hid : event.id ∉ done.map AuditEvent.id)
    (hfits : (toOrm .postgresql event).fits .postgresql) {events : List AuditEvent}
    (heq : ∀ scan, appendOutcomes .sqlite computeHash scan unlocked (event :: events) =
      appendOutcomes .postgresql computeHash scan locked (event :: events)) :
    LastIsLatest (storedTimes event.tenantId done) := by
  obtain ⟨locked', -, -, hlocked, -⟩ := h.step hid hfits
  refine (h.sameHead_iff hdistinct event.tenantId).mp fun scan => ?_
  obtain ⟨tables, hsqlite⟩ := h.sqlite_stores hid scan
  have hfirst := heq scan
  simp only [appendOutcomes, hlocked, hsqlite] at hfirst
  exact congrArg AuditEvent.previousHash (Option.some.inj (List.cons.inj hfirst).1)

@[simp] theorem storedTimes_lockedEvent (tenantId : String) (event : AuditEvent) :
    storedTimes tenantId [lockedEvent computeHash locked event] = storedTimes tenantId [event] := by
  rw [storedTimes_singleton, storedTimes_singleton]
  rfl

theorem increasing_append {event : AuditEvent} (tenantId : String)
    (hordered : (storedTimes tenantId done).dropLast.Pairwise (· < ·))
    (hlatest : LastIsLatest (storedTimes event.tenantId done)) :
    (storedTimes tenantId (done ++ [event])).dropLast.Pairwise (· < ·) := by
  rw [storedTimes_append, storedTimes_singleton]
  split_ifs with ht
  · rw [List.dropLast_concat]
    exact increasing_iff.mpr ⟨hordered, ht ▸ hlatest⟩
  · rw [List.append_nil]
    exact hordered

theorem lastIsLatest_of_increasing {event : AuditEvent} {events : List AuditEvent}
    (h : (storedTimes event.tenantId (done ++ event :: events)).dropLast.Pairwise (· < ·)) :
    LastIsLatest (storedTimes event.tenantId done) := by
  rw [storedTimes_append, storedTimes_cons, storedTimes_singleton, if_pos rfl,
    List.singleton_append, List.dropLast_append_cons] at h
  exact (increasing_iff.mp (List.pairwise_append.mp h).1).2

include hdistinct in
/-- From states that agree, the branches return the same exactly where the remaining
events are appended in order. -/
theorem outcomes_agree_iff {events : List AuditEvent} (h : Agree computeHash done locked unlocked)
    (hids : ((done ++ events).map AuditEvent.id).Nodup)
    (hordered : ∀ tenantId, (storedTimes tenantId done).dropLast.Pairwise (· < ·)) :
    (∀ scan, appendOutcomes .sqlite computeHash scan unlocked events =
        appendOutcomes .postgresql computeHash scan locked events) ↔
      (∀ event ∈ events, (toOrm .postgresql event).fits .postgresql) ∧
        ∀ tenantId, (storedTimes tenantId (done ++ events)).dropLast.Pairwise (· < ·) := by
  induction events generalizing done locked unlocked with
  | nil =>
    rw [List.append_nil]
    exact iff_of_true (fun _ => rfl) ⟨List.forall_mem_nil _, hordered⟩
  | cons event events ih =>
    have hid : event.id ∉ done.map AuditEvent.id := by
      rw [List.map_append, List.map_cons] at hids
      exact fun hmem => (List.nodup_append.mp hids).2.2 _ hmem _ List.mem_cons_self rfl
    by_cases hfits : (toOrm .postgresql event).fits .postgresql
    · obtain ⟨locked', unlocked', hagree, hlocked, hunlocked⟩ := h.step hid hfits
      by_cases hlatest : LastIsLatest (storedTimes event.tenantId done)
      · have hhead := (h.sameHead_iff hdistinct event.tenantId).mpr hlatest
        have hids' : ((done ++ [lockedEvent computeHash locked event] ++ events).map
            AuditEvent.id).Nodup := by
          rw [List.append_assoc, List.map_append]
          rw [List.map_append] at hids
          exact hids
        have hrest := ih hagree hids' fun tenantId =>
          increasing_append tenantId (hordered tenantId) hlatest
        simp only [appendOutcomes, hlocked, hunlocked _ (hhead _), List.cons.injEq, true_and,
          List.forall_mem_cons, hfits, hrest]
        simp only [List.append_assoc, storedTimes_append, storedTimes_lockedEvent,
          storedTimes_cons _ event events]
      · exact iff_of_false (fun heq => hlatest (h.lastIsLatest_of_outcomes hdistinct hid hfits heq))
          fun hok => hlatest (lastIsLatest_of_increasing (hok.2 event.tenantId))
    · exact iff_of_false (fun heq => h.refused hid hfits default events (heq default))
        fun hok => hfits (hok.1 event List.mem_cons_self)

end Sequences

/-- The unlocked branch returns what the locked one does, whichever way ties of the
timestamp are read, exactly for the sequences that append in order. -/
theorem unlocked_refines_locked_iff {computeHash : AuditEvent → String}
    (hdistinct : ∀ e e' : AuditEvent, computeHash e = computeHash e' → e.id = e'.id)
    {events : List AuditEvent} (hids : (events.map AuditEvent.id).Nodup) :
    (∀ scan, appendOutcomes .sqlite computeHash scan .empty events =
        appendOutcomes .postgresql computeHash scan .empty events) ↔ AppendedInOrder events := by
  have hempty : Agree computeHash [] .empty .empty := agree_empty
  rw [outcomes_agree_iff hdistinct hempty hids fun _ => .nil, List.nil_append]
  exact ⟨fun h => ⟨h.1, h.2⟩, fun h => ⟨h.fits, h.increasing⟩⟩

/-- Event 1 is a minute later than event 0, and event 2 as early as that. -/
def minuteEvents (first second : Fin 2) : List AuditEvent :=
  [lateRequest first, lateRequest second, exampleEvent 2 "processed" []]

/-- Two events in the order of their timestamps, and a third one. -/
theorem unlocked_refines_locked_in_order :
    appendOutcomes .sqlite exampleHash default .empty (minuteEvents 0 1) =
      appendOutcomes .postgresql exampleHash default .empty (minuteEvents 0 1) := by
  refine (unlocked_refines_locked_iff exampleHash_distinct (by decide)).mpr ⟨?_, ?_⟩ default
  · decide +kernel
  · intro tenantId
    by_cases ht : "env" = tenantId
    · subst ht
      decide +kernel
    · have hnone : ofTenant tenantId (minuteEvents 0 1) = [] := by
        refine List.filter_eq_nil_iff.mpr fun event hevent => ?_
        have henv : event.tenantId = "env" := by
          revert event
          decide
        simpa [henv] using ht
      rw [storedTimes, hnone]
      exact .nil

/-- In the other order SQLite links the third event to the first, the latest by its
timestamp, where PostgreSQL links it to the second. -/
theorem unlocked_links_to_latest :
    ¬ ∀ scan, appendOutcomes .sqlite exampleHash scan .empty (minuteEvents 1 0) =
      appendOutcomes .postgresql exampleHash scan .empty (minuteEvents 1 0) := by
  have hempty : Agree exampleHash [] .empty .empty := agree_empty
  rw [outcomes_agree_iff exampleHash_distinct hempty (by decide) fun _ => .nil]
  rintro ⟨-, hordered⟩
  exact absurd (hordered "env") (by decide +kernel)

end GoAnalyze
