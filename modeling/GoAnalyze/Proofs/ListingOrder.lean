import GoAnalyze.Proofs.ChainLinearity

/-! `list_for_tenant` orders by timestamp, the chain by lock acquisition. The
two orders agree exactly where the timestamps increase strictly along the chain. -/

namespace GoAnalyze

open ReadCommitted HashChain AuditRepository Sql

variable {τ : Type} [DecidableEq τ] {request : τ → AuditEvent} {computeHash : AuditEvent → String}

/-- The first event has no previous hash, and every later one names the hash of
the event before it. -/
def InChainOrder (es : List AuditEvent) : Prop :=
  Linked AuditEvent.previousHash AuditEvent.eventHash none es

/-- Strictly earlier by the stored timestamp. -/
def TimestampLt (a b : AuditEventORM) : Prop := a.timestamp.instant < b.timestamp.instant

instance : DecidableRel TimestampLt := fun _ _ => inferInstanceAs (Decidable (_ < _))

theorem TimestampLt.le {a b : AuditEventORM} (h : TimestampLt a b) : timestampLe a b := le_of_lt h

theorem inChainOrder_map {rows : List AuditEventORM} : InChainOrder (rows.map ormToDomain) ↔
    Linked AuditEventORM.previousHash AuditEventORM.eventHash none rows :=
  linked_map (fun _ => rfl) (fun _ => rfl)

section Reachable

variable (hdistinct : ∀ e e' : AuditEvent, computeHash e = computeHash e' → e.id = e'.id)
  {as : List (τ × AppendAct)} {s : AppendSt τ} (h : AppendReaches request computeHash as s)
  (t : String)

include hdistinct h

theorem eq_events_of_linked {rows : List AuditEventORM} (hperm : rows.Perm (s.events t))
    (hl : Linked AuditEventORM.previousHash AuditEventORM.eventHash none rows) :
    rows = s.events t := by
  have hinv := appendInv_of_reaches h
  exact eq_of_perm (hinv.chained.hashed.ne_none t)
    (hinv.chained.hashed.nodup hdistinct (log_ids_nodup hinv) t) (hinv.chained.linked t) hl hperm

theorem sorted_of_inChainOrder {scan : Scan AuditEventORM}
    (hl : InChainOrder (listForTenant scan s.db.log t)) : (s.events t).Pairwise timestampLe := by
  have heq : orderBy timestampLe scan (s.events t) = s.events t :=
    eq_events_of_linked hdistinct h t orderBy_perm (inChainOrder_map.mp hl)
  rw [← heq]
  exact pairwise_orderBy

/-- Two neighbours with equal timestamps may be read in the other order. -/
theorem strict_of_inChainOrder
    (hl : ∀ scan, InChainOrder (listForTenant scan s.db.log t)) :
    (s.events t).Pairwise TimestampLt := by
  have hsorted := sorted_of_inChainOrder hdistinct h t (hl default)
  have : IsTrans AuditEventORM TimestampLt := ⟨fun _ _ _ => lt_trans⟩
  rw [← List.isChain_iff_pairwise, List.isChain_iff_forall_rel_of_append_cons_cons]
  intro a b l₁ l₂ hsplit
  by_contra hlt
  have hab : timestampLe b a := not_lt.mp hlt
  have hswap : (l₁ ++ b :: a :: l₂).Perm (s.events t) := by
    rw [hsplit]
    exact (List.Perm.swap a b l₂).append_left l₁
  have hswapped : (l₁ ++ b :: a :: l₂).Pairwise timestampLe := by
    rw [hsplit] at hsorted
    simp only [List.pairwise_append, List.pairwise_cons, List.mem_cons] at hsorted ⊢
    grind
  have hread : orderBy timestampLe (Scan.along (l₁ ++ b :: a :: l₂)) (s.events t) =
      l₁ ++ b :: a :: l₂ := orderBy_along hswap.symm hswapped
  have heq : l₁ ++ b :: a :: l₂ = s.events t := by
    refine eq_events_of_linked hdistinct h t hswap ?_
    have hl := inChainOrder_map.mp (hl (Scan.along (l₁ ++ b :: a :: l₂)))
    rwa [show forTenant t s.db.log = s.events t from rfl, hread] at hl
  have hnd : (s.events t).Nodup :=
    List.Nodup.filter _ (log_ids_nodup (appendInv_of_reaches h)).of_map
  rw [hsplit] at heq hnd
  have hba : b = a := (List.cons.inj (List.append_cancel_left heq)).1
  have hpair : (a :: b :: l₂).Nodup := (List.nodup_append.mp hnd).2.1
  simp [hba] at hpair

omit hdistinct in
theorem inChainOrder_of_strict (hlt : (s.events t).Pairwise TimestampLt)
    (scan : Scan AuditEventORM) : InChainOrder (listForTenant scan s.db.log t) := by
  have hnd : ((s.events t).map fun orm => orm.timestamp.instant).Nodup :=
    List.pairwise_map.mpr (hlt.imp fun h => ne_of_lt h)
  have heq : orderBy timestampLe scan (s.events t) = s.events t :=
    List.Perm.eq_of_pairwise (fun a b ha hb hab hba =>
        List.inj_on_of_nodup_map hnd (mem_orderBy.mp ha) hb (le_antisymm hab hba))
      pairwise_orderBy (hlt.imp TimestampLt.le) orderBy_perm
  refine inChainOrder_map.mpr ?_
  rw [show forTenant t s.db.log = s.events t from rfl, heq]
  exact (appendInv_of_reaches h).chained.linked t

theorem inChainOrder_iff_strict :
    (∀ scan, InChainOrder (listForTenant scan s.db.log t)) ↔
      (s.events t).Pairwise TimestampLt :=
  ⟨strict_of_inChainOrder hdistinct h t, inChainOrder_of_strict h t⟩

end Reachable

/-! ## Runs -/

/-- A commit comes later, by the timestamp of its event, than every event its
tenant has committed. -/
def CommitsLater (s : AppendSt τ) (a : τ × AppendAct) : Prop :=
  a.2 = .proceed → ∀ event, s.pc a.1 = .updated event →
    ∀ orm ∈ s.events event.tenantId, TimestampLt orm (toOrm .postgresql event)

theorem log_of_step {s s' : AppendSt τ} {a : τ × AppendAct}
    (h : AppendStep request computeHash s a s') : s'.db.log = s.db.log ∨
      ∃ event, a.2 = .proceed ∧ s.pc a.1 = .updated event ∧
        s' = s.set a.1 (commit s.db a.1) .committed := by
  obtain ⟨i, act⟩ := a
  cases act with
  | abort =>
    left
    simp only [AppendStep, AppendSt.next] at h
    split at h
    all_goals cases h
    rfl
  | proceed =>
    cases move_of_step h with
    | upsert _ _ hdb =>
      left
      rcases insertIfAbsent_cases hdb with ⟨rfl, -⟩ | ⟨-, -, rfl⟩ <;> rfl
    | lock _ hdb =>
      obtain ⟨-, -, rfl⟩ := selectForUpdate_cases hdb
      exact Or.inl rfl
    | insert _ _ hdb =>
      obtain ⟨-, -, rfl⟩ := insertLog_cases hdb
      exact Or.inl rfl
    | update _ hdb =>
      obtain ⟨-, -, rfl⟩ := updateRow_cases hdb
      exact Or.inl rfl
    | commit hpc => exact Or.inr ⟨_, rfl, hpc, rfl⟩
    | abort => exact Or.inl rfl

theorem strict_step {as : List (τ × AppendAct)} {s s' : AppendSt τ} {a : τ × AppendAct}
    (h : AppendReaches request computeHash as s)
    (hs : ∀ t, (s.events t).Pairwise TimestampLt) (hC : CommitsLater s a)
    (hstep : AppendStep request computeHash s a s') (t : String) :
    (s'.events t).Pairwise TimestampLt := by
  rcases log_of_step hstep with hlog | ⟨event, hact, hpc, rfl⟩
  · rw [events_of_log hlog]
    exact hs t
  · have hi := (appendInv_of_reaches h).holds a.1
    simp only [Holds, hpc] at hi
    rw [events_commit hi.2.2.1]
    split_ifs with ht
    · refine List.pairwise_append.mpr ⟨hs t, List.pairwise_singleton _ _, ?_⟩
      rintro orm horm new hnew
      obtain rfl := List.mem_singleton.mp hnew
      subst ht
      exact hC hact event hpc orm horm
    · exact hs t

/-- The listing follows the chain, in every state of a run whose commits come in
the order of their timestamps; and a reachable state lists a chain in order,
whichever way ties are read, exactly where its timestamps increase strictly. -/
theorem list_for_tenant_follows_chain
    (hdistinct : ∀ e e' : AuditEvent, computeHash e = computeHash e' → e.id = e'.id) :
    (∀ as s, Runs.Run.Every (AppendStep request computeHash) CommitsLater AppendSt.init as s →
      ∀ t scan, InChainOrder (listForTenant scan s.db.log t)) ∧
    (∀ as s, AppendReaches request computeHash as s → ∀ t,
      (∀ scan, InChainOrder (listForTenant scan s.db.log t)) ↔
        (s.events t).Pairwise TimestampLt) := by
  refine ⟨fun as s h t scan => ?_, fun as s h t => inChainOrder_iff_strict hdistinct h t⟩
  have hstrict : ∀ t, (s.events t).Pairwise TimestampLt :=
    h.invariant (I := fun s => ∀ t, (s.events t).Pairwise TimestampLt) (fun _ => .nil)
      fun _ _ _ _ hrun hs hC hstep t => strict_step hrun hs hC hstep t
  exact inChainOrder_of_strict h.run t (hstrict t) scan

/-! Event 0 is constructed a minute before event 1, whose call takes the lock first. -/

def lateRequest (i : Fin 2) : AuditEvent :=
  { exampleEvent (BitVec.ofNat 128 i) "uploaded" [] with
    timestamp := { exampleTime with minute := ⟨30 + i, by omega⟩ } }

def lateTrace : List (Fin 2 × AppendAct) :=
  List.replicate 5 (1, .proceed) ++ List.replicate 5 (0, .proceed)

/-- The events in the order of their appends. -/
def lateFirst : AuditEvent := lateRequest 1

def lateSecond : AuditEvent := lateRequest 0

theorem list_for_tenant_late :
    ∃ s, AppendReaches lateRequest exampleHash lateTrace s ∧
      ∀ scan, ¬ InChainOrder (listForTenant scan s.db.log "env") := by
  obtain ⟨s, hrun, htimes⟩ : ∃ s, AppendReaches lateRequest exampleHash lateTrace s ∧
      (s.events "env").map AuditEventORM.timestamp =
        [{ exampleTime with minute := 31 }, exampleTime] := ⟨_, Runs.run_of_exec rfl, rfl⟩
  refine ⟨s, hrun, fun scan hl => ?_⟩
  have hsorted := sorted_of_inChainOrder exampleHash_distinct hrun "env" hl
  have hpair : ((s.events "env").map AuditEventORM.timestamp).Pairwise
      fun a b => a.instant ≤ b.instant := List.pairwise_map.mpr hsorted
  rw [htimes] at hpair
  exact absurd hpair (by decide)

/-- The same two calls in the order of their timestamps. -/
theorem list_for_tenant_follows_chain_trace :
    ∃ s, AppendReaches lateRequest exampleHash lateTrace.reverse s ∧
      ∀ scan, InChainOrder (listForTenant scan s.db.log "env") := by
  obtain ⟨s, hrun, htimes⟩ : ∃ s, AppendReaches lateRequest exampleHash lateTrace.reverse s ∧
      (s.events "env").map AuditEventORM.timestamp =
        [exampleTime, { exampleTime with minute := 31 }] := ⟨_, Runs.run_of_exec rfl, rfl⟩
  refine ⟨s, hrun, ((list_for_tenant_follows_chain exampleHash_distinct).2 _ s hrun "env").mpr ?_⟩
  have hpair : ((s.events "env").map AuditEventORM.timestamp).Pairwise
      fun a b => a.instant < b.instant := by
    rw [htimes]
    decide
  rw [List.pairwise_map] at hpair
  exact hpair

end GoAnalyze
