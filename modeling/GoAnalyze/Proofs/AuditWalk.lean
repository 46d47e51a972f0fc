import GoAnalyze.Proofs.AuditPages
import GoAnalyze.Proofs.ListingOrder

/-! A walk of the audit log while appends commit. An event that was committed before
can only move to later pages; what the walk may still miss of it is decided between the
`COUNT` and the `SELECT` of the last request. -/

namespace GoAnalyze

open Sql AuditRepository ReadCommitted

variable {τ : Type} [DecidableEq τ] {request : τ → AuditEvent} {computeHash : AuditEvent → String}
  {scan : Scan AuditEventORM} {tenantId : String} {size : ℕ}

/-! ## The log under a walk -/

theorem events_prefix_of_step {s s' : AppendSt τ} {a : τ × AppendAct}
    (h : AppendStep request computeHash s a s') (t : String) : s.events t <+: s'.events t := by
  rcases log_of_step h with hlog | ⟨event, -, -, rfl⟩
  · rw [events_of_log hlog]
  · simp only [AppendSt.events, set_db, commit, forTenant, List.filter_append]
    exact List.prefix_append _ _

theorem events_ids_nodup {as : List (τ × AppendAct)} {s : AppendSt τ}
    (h : AppendReaches request computeHash as s) (t : String) :
    ((s.events t).map AuditEventORM.id).Nodup :=
  (List.filter_sublist.map _).nodup (log_ids_nodup (appendInv_of_reaches h))

theorem appends_of_walk {as : List (WalkAct τ)} {s : WalkSt τ}
    (h : WalkReaches request computeHash scan tenantId size as s) :
    ∃ bs, AppendReaches request computeHash bs s.appends := by
  have hinit : ∃ bs, AppendReaches request computeHash bs (WalkSt.init : WalkSt τ).appends :=
    ⟨[], .nil⟩
  refine h.invariant (I := fun s => ∃ bs, AppendReaches request computeHash bs s.appends)
    hinit fun s a s' hs hstep => ?_
  obtain ⟨bs, hbs⟩ := hs
  cases a with
  | append i act =>
    obtain ⟨appends, happend, rfl⟩ := Option.map_eq_some_iff.mp hstep
    exact ⟨bs ++ [(i, act)], .snoc hbs happend⟩
  | client =>
    refine ⟨bs, ?_⟩
    simp only [WalkSt.next, WalkSt.fetch] at hstep
    split at hstep
    · cases hstep
      exact hbs
    · obtain ⟨answer, -, rfl⟩ := Option.map_eq_some_iff.mp hstep
      exact hbs
    · obtain ⟨answer, -, rfl⟩ := Option.map_eq_some_iff.mp hstep
      exact hbs
    · cases hstep

/-! ## The invariant of a walk -/

/-- Appends between the last `COUNT` and the last `SELECT` of the walk sort before the
event, and move it from the pages that were counted past the last page. -/
structure Displaced (pageSize page : ℤ) (counted selected : List AuditEventORM)
    (orm : AuditEventORM) : Prop where
  inserted : ∃ new, selected = counted ++ new ∧ ∃ orm' ∈ new, ¬ timestampIdLe orm orm'
  before : rank timestampIdLe counted orm < page * pageSize
  after : page * pageSize ≤ rank timestampIdLe selected orm

/-- Every event that was there when the walk began was given to the client, or is not
on the first `n` pages of these rows. -/
def Covered (size n : ℕ) (s : WalkSt τ) (rows : List AuditEventORM) : Prop :=
  ∀ orm ∈ s.before, ormToDomain orm ∈ s.items ∨ n * size ≤ rank timestampIdLe rows orm

omit [DecidableEq τ] in
theorem Covered.mono {n : ℕ} {s : WalkSt τ} {rows rows' : List AuditEventORM}
    (h : Covered size n s rows) (hrows : rows <+: rows') : Covered size n s rows' :=
  fun orm horm => (h orm horm).imp_right fun hle => hle.trans (rank_mono hrows)

def WalkInv (tenantId : String) (size : ℕ) (s : WalkSt τ) : Prop :=
  let rows := s.appends.events tenantId
  match s.pc with
  | .start => True
  | .requested page => ∃ n : ℕ, page = n + 1 ∧ s.before <+: rows ∧ Covered size n s rows
  | .counted page total => ∃ n : ℕ, page = n + 1 ∧ s.before <+: s.counted ∧ s.counted <+: rows ∧
      total = s.counted.length ∧ Covered size n s rows
  | .finished page =>
      ∀ orm ∈ s.before, ormToDomain orm ∈ s.items ∨ Displaced size page s.counted s.selected orm

omit [DecidableEq τ] in
theorem walkInv_append {s : WalkSt τ} {appends : AppendSt τ} (hinv : WalkInv tenantId size s)
    (hgrows : s.appends.events tenantId <+: appends.events tenantId) :
    WalkInv tenantId size { s with appends := appends } := by
  unfold WalkInv at hinv ⊢
  dsimp only at hinv ⊢
  split at hinv
  · trivial
  · obtain ⟨n, hpage, hbefore, hcovered⟩ := hinv
    exact ⟨n, hpage, hbefore.trans hgrows, hcovered.mono hgrows⟩
  · obtain ⟨n, hpage, hbefore, hcounted, htotal, hcovered⟩ := hinv
    exact ⟨n, hpage, hbefore, hcounted.trans hgrows, htotal, hcovered.mono hgrows⟩
  · exact hinv

omit [DecidableEq τ] in
theorem covered_select {n : ℕ} {s : WalkSt τ}
    (hnd : ((s.appends.events tenantId).map AuditEventORM.id).Nodup)
    (hbefore : s.before <+: s.appends.events tenantId)
    (hcovered : Covered size n s (s.appends.events tenantId)) {answer : List AuditEvent × ℕ}
    (hanswer : listForTenantPaginated .postgresql scan s.appends.db.log tenantId ((n : ℤ) + 1)
      size = some answer) :
    ∀ orm ∈ s.before, ormToDomain orm ∈ s.items ++ answer.1 ∨
        (n + 1) * size ≤ rank timestampIdLe (s.appends.events tenantId) orm := by
  obtain ⟨-, -, rfl⟩ := listForTenantPaginated_eq_some.mp hanswer
  intro orm horm
  rcases hcovered orm horm with hgiven | hle
  · exact Or.inl (List.mem_append_left _ hgiven)
  by_cases hlt : rank timestampIdLe (s.appends.events tenantId) orm < n * size + size
  · have hoffset : (((n : ℤ) + 1 - 1) * size).toNat = n * size := by
      rw [add_sub_cancel_right, ← Int.natCast_mul, Int.toNat_natCast]
    refine Or.inl (List.mem_append_right _ (List.mem_map.mpr ⟨orm, ?_, rfl⟩))
    rw [hoffset, Int.toNat_natCast]
    exact (mem_slice_orderBy timestampId_ties hnd (hbefore.subset horm) (n * size) size).mpr
      ⟨hle, hlt⟩
  · right
    rw [Nat.succ_mul]
    exact not_lt.mp hlt

/-- Where the last request counted the event but did not return it, it was displaced. -/
theorem displaced_of_rank {n : ℕ} (hsize : 1 ≤ size) {counted selected : List AuditEventORM}
    {orm : AuditEventORM} (horm : orm ∈ counted) (hgrows : counted <+: selected)
    (hlast : ¬ ((n : ℤ) + 1 < totalPages counted.length size))
    (hafter : (n + 1) * size ≤ rank timestampIdLe selected orm) :
    Displaced size (n + 1) counted selected orm := by
  have hpages : counted.length ≤ (n + 1) * size :=
    (totalPages_le_iff hsize).mp (by push_cast; omega)
  have hbefore : rank timestampIdLe counted orm < (n + 1) * size :=
    (rank_lt_length horm).trans_le hpages
  refine ⟨?_, by exact_mod_cast hbefore, by exact_mod_cast hafter⟩
  obtain ⟨new, rfl⟩ := hgrows
  rw [rank_append] at hafter
  have hpos : 0 < rank timestampIdLe new orm := by omega
  obtain ⟨orm', horm', hlt⟩ := List.countP_pos_iff.mp hpos
  exact ⟨new, rfl, orm', horm', of_decide_eq_true hlt⟩

omit [DecidableEq τ] in
theorem walkInv_client (hsize : 1 ≤ size) {s s' : WalkSt τ}
    (hnd : ((s.appends.events tenantId).map AuditEventORM.id).Nodup)
    (hinv : WalkInv tenantId size s) (h : s.fetch scan tenantId size = some s') :
    WalkInv tenantId size s' := by
  unfold WalkInv at hinv
  simp only [WalkSt.fetch] at h
  cases hpc : s.pc with
  | start =>
    simp only [hpc] at h
    cases h
    refine ⟨0, rfl, List.prefix_refl _, fun orm _ => Or.inr ?_⟩
    rw [Nat.zero_mul]
    exact Nat.zero_le _
  | requested page =>
    simp only [hpc] at h hinv
    obtain ⟨answer, hanswer, rfl⟩ := Option.map_eq_some_iff.mp h
    obtain ⟨-, -, rfl⟩ := listForTenantPaginated_eq_some.mp hanswer
    obtain ⟨n, rfl, hbefore, hcovered⟩ := hinv
    exact ⟨n, rfl, hbefore, List.prefix_refl _, rfl, hcovered⟩
  | counted page total =>
    simp only [hpc] at h hinv
    obtain ⟨answer, hanswer, rfl⟩ := Option.map_eq_some_iff.mp h
    obtain ⟨n, rfl, hbefore, hcounted, rfl, hcovered⟩ := hinv
    have hselect := covered_select hnd (hbefore.trans hcounted) hcovered hanswer
    unfold WalkInv
    by_cases hmore : (n : ℤ) + 1 < totalPages s.counted.length size
    · simp only [if_pos hmore]
      exact ⟨n + 1, by push_cast; rfl, hbefore.trans hcounted, hselect⟩
    · simp only [if_neg hmore]
      exact fun orm horm => (hselect orm horm).imp_right
        (displaced_of_rank hsize (hbefore.subset horm) hcounted hmore)
  | finished page =>
    simp only [hpc] at h
    cases h

theorem walkInv_of_reaches (hsize : 1 ≤ size) {as : List (WalkAct τ)} {s : WalkSt τ}
    (h : WalkReaches request computeHash scan tenantId size as s) : WalkInv tenantId size s := by
  have hinit : WalkInv tenantId size (WalkSt.init : WalkSt τ) := trivial
  have hboth := h.history
    (I := fun as s => WalkReaches request computeHash scan tenantId size as s ∧
      WalkInv tenantId size s) ⟨.nil, hinit⟩ fun as s a s' hs hstep => ?_
  · exact hboth.2
  obtain ⟨hrun, hinv⟩ := hs
  refine ⟨.snoc hrun hstep, ?_⟩
  obtain ⟨bs, hbs⟩ := appends_of_walk hrun
  cases a with
  | append i act =>
    obtain ⟨appends, happend, rfl⟩ := Option.map_eq_some_iff.mp hstep
    exact walkInv_append hinv (events_prefix_of_step (a := (i, act)) happend tenantId)
  | client => exact walkInv_client hsize (events_ids_nodup hbs tenantId) hinv hstep

/-- A finished walk was given every event that was committed before it began, but for
one that appends displaced between the two statements of its last request. -/
theorem audit_walk_returns {pageSize : ℤ} (hsize : 1 ≤ pageSize ∧ pageSize ≤ 100)
    {as : List (WalkAct τ)} {s : WalkSt τ}
    (h : WalkReaches request computeHash scan tenantId pageSize as s) {page : ℤ}
    (hfinished : s.pc = .finished page) : ∀ orm ∈ s.before,
      ormToDomain orm ∈ s.items ∨ Displaced pageSize page s.counted s.selected orm := by
  obtain ⟨size, rfl⟩ := Int.eq_ofNat_of_zero_le (show 0 ≤ pageSize by omega)
  have hinv := walkInv_of_reaches (by omega) h
  unfold WalkInv at hinv
  rw [hfinished] at hinv
  exact hinv

/-! ## Two walks -/

def appendAll (i : Fin 2) : List (WalkAct (Fin 2)) := List.replicate 5 (.append i .proceed)

/-- The row of event 1, appended first, and of event 0, appended after it. -/
def firstRow : AuditEventORM := toOrm .postgresql (chainEvent exampleHash none lateFirst)

def lateRow : AuditEventORM :=
  toOrm .postgresql (chainEvent exampleHash firstRow.eventHash lateSecond)

theorem orderBy_lateRow (scan : Scan AuditEventORM) :
    orderBy timestampIdLe scan [firstRow, lateRow] = [lateRow, firstRow] :=
  orderBy_eq_of_strict (List.Perm.swap _ _ _)
    (List.pairwise_pair.mpr (by unfold timestampIdLe; decide +kernel))

/-- Event 1 is there when the walk begins; event 0, a minute earlier, commits between the
`COUNT` and the `SELECT` of the only request and takes its place. -/
theorem audit_walk_misses_event :
    ∃ s, WalkReaches lateRequest exampleHash default "env" 1
        (appendAll 1 ++ [.client, .client] ++ appendAll 0 ++ [.client]) s ∧
      s.pc = .finished 1 ∧ ∃ orm ∈ s.before, ormToDomain orm ∉ s.items := by
  obtain ⟨s, hrun, hpc, hbefore, hitems⟩ : ∃ s, WalkReaches lateRequest exampleHash default "env" 1
      (appendAll 1 ++ [.client, .client] ++ appendAll 0 ++ [.client]) s ∧ s.pc = .finished 1 ∧
      s.before = [firstRow] ∧ s.items =
        (slice 0 1 (orderBy timestampIdLe default [firstRow, lateRow])).map ormToDomain :=
    ⟨_, Runs.run_of_exec rfl, rfl, rfl, rfl⟩
  refine ⟨s, hrun, hpc, firstRow, hbefore ▸ List.mem_singleton_self _, ?_⟩
  rw [hitems, orderBy_lateRow]
  intro h
  have hid := congrArg AuditEvent.id (List.mem_singleton.mp h)
  exact absurd hid (by decide)

/-- The same two appends, the second before the first request: the walk takes two pages. -/
theorem audit_walk_returns_trace :
    ∃ s, WalkReaches lateRequest exampleHash default "env" 1
        (appendAll 1 ++ [.client] ++ appendAll 0 ++ List.replicate 4 .client) s ∧
      s.pc = .finished 2 ∧ ∀ orm ∈ s.before, ormToDomain orm ∈ s.items := by
  obtain ⟨s, hrun, hpc, hrows⟩ : ∃ s, WalkReaches lateRequest exampleHash default "env" 1
      (appendAll 1 ++ [.client] ++ appendAll 0 ++ List.replicate 4 .client) s ∧ s.pc = .finished 2 ∧
      s.selected = s.counted := ⟨_, Runs.run_of_exec rfl, rfl, rfl⟩
  refine ⟨s, hrun, hpc, fun orm horm => ?_⟩
  refine (audit_walk_returns (by decide) hrun hpc orm horm).resolve_right fun hdisplaced => ?_
  have hafter := hdisplaced.after
  rw [hrows] at hafter
  exact absurd hdisplaced.before (not_lt.mpr hafter)

end GoAnalyze
