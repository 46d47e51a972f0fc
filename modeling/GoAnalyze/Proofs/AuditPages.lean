import GoAnalyze.Lib.Paging
import GoAnalyze.Proofs.Programs
import GoAnalyze.Spec.AuditWalk

/-! The pages of `list_audit` are a partition of the log of the caller's tenant, as long
as nothing is written. -/

namespace GoAnalyze

open Sql AuditRepository

/-! ## Order by timestamp and id -/

instance : Std.Total timestampIdLe where
  total a b := by
    unfold timestampIdLe
    omega

instance : IsTrans AuditEventORM timestampIdLe where
  trans a b c hab hbc := by
    unfold timestampIdLe at *
    omega

theorem timestampId_ties : TiesBy timestampIdLe AuditEventORM.id := by
  intro a b hab hba
  unfold timestampIdLe at hab hba
  exact BitVec.eq_of_toNat_eq (by omega)

/-- Strictly earlier in the order by timestamp and id. -/
def TimestampIdLt (a b : AuditEvent) : Prop :=
  a.timestamp.instant < b.timestamp.instant ∨
    (a.timestamp.instant = b.timestamp.instant ∧ a.id.toNat < b.id.toNat)

theorem timestampIdLt_of_not_le {a b : AuditEventORM} (h : ¬ timestampIdLe b a) :
    TimestampIdLt (ormToDomain a) (ormToDomain b) := by
  unfold timestampIdLe at h
  change a.timestamp.instant < b.timestamp.instant ∨
    (a.timestamp.instant = b.timestamp.instant ∧ a.id.toNat < b.id.toNat)
  omega

/-! ## The number of pages -/

theorem totalPages_le_iff {total size k : ℕ} (hsize : 0 < size) :
    totalPages total size ≤ k ↔ total ≤ k * size := by
  unfold totalPages
  split_ifs with htotal
  · rw [show ((total : ℤ) + size - 1) = ((total + size - 1 : ℕ) : ℤ) by omega, ← Int.natCast_div,
      Int.ofNat_le, Nat.div_le_iff_le_mul_add_pred hsize, Nat.mul_comm]
    omega
  · exact iff_of_true (by omega) (by omega)

theorem isLeast_totalPages {total size : ℕ} (hsize : 0 < size) :
    IsLeast {k : ℕ | total ≤ k * size} (totalPages total size).toNat := by
  have hle : ∀ k : ℕ, (totalPages total size).toNat ≤ k ↔ total ≤ k * size := fun k =>
    Int.toNat_le.trans (totalPages_le_iff hsize)
  exact ⟨(hle _).mp le_rfl, fun k hk => (hle k).mpr hk⟩

theorem natCast_toNat_totalPages (total size : ℕ) :
    ((totalPages total size).toNat : ℤ) = totalPages total size := by
  refine Int.toNat_of_nonneg ?_
  unfold totalPages
  split_ifs
  · exact Int.ediv_nonneg (by omega) (by omega)
  · exact le_rfl

/-! ## Pages -/

section Answers

variable {dialect : Dialect} {scan : Scan AuditEventORM} {rows : List AuditEventORM}
  {tenantId : String}

theorem listForTenantPaginated_eq_some {page pageSize : ℤ} {answer : List AuditEvent × ℕ} :
    listForTenantPaginated dialect scan rows tenantId page pageSize = some answer ↔
      dialect.carries tenantId ∧ (page - 1) * pageSize ≤ maxOffset ∧
        ((slice ((page - 1) * pageSize).toNat pageSize.toNat
          (orderBy timestampIdLe scan (forTenant tenantId rows))).map ormToDomain,
          (forTenant tenantId rows).length) = answer := by
  simp [listForTenantPaginated, Option.bind_eq_some_iff]

theorem toNat_offset {size page : ℕ} (hpage : 1 ≤ page) :
    (((page : ℤ) - 1) * size).toNat = (page - 1) * size := by
  rw [show (page : ℤ) - 1 = ((page - 1 : ℕ) : ℤ) by omega, ← Int.natCast_mul, Int.toNat_natCast]

end Answers

section Pages

variable (P : Platform) (context : TenantContext) (w : World)

/-- The events of the caller's tenant, in the order in which they are paged. -/
def pagedRows : List AuditEventORM :=
  orderBy timestampIdLe P.scanEvents (forTenant context.tenantId w.audit.events.rows)

def pageItems (size page : ℕ) : List AuditEvent :=
  (slice ((page - 1) * size) size (pagedRows P context w)).map ormToDomain

def Askable (pageSize : ℤ) (page : ℕ) : Prop :=
  P.dialect.carries context.tenantId ∧ ((page : ℤ) - 1) * pageSize ≤ maxOffset

theorem run_listAudit {size page : ℕ} (hsize : 1 ≤ size ∧ size ≤ 100) (hpage : 1 ≤ page)
    (hask : Askable P context size page) :
    (listAudit P context page size).run w =
      .ok { total := (forTenant context.tenantId w.audit.events.rows).length
            page := page, pageSize := size
            totalPages := totalPages (forTenant context.tenantId w.audit.events.rows).length size
            items := pageItems P context w size page } w := by
  rw [listAudit, EStateM.run_bind, run_checkPage w (by omega) (by omega)]
  simp only [EStateM.run_bind, run_listEventsPaginated,
    listForTenantPaginated_eq_some.mpr ⟨hask.1, hask.2, rfl⟩, toNat_offset hpage, Int.toNat_natCast]
  rfl

theorem askable_of_listAudit {pageSize : ℤ} (hsize : 1 ≤ pageSize ∧ pageSize ≤ 100) {page : ℕ}
    (hpage : 1 ≤ page) {response : AuditEventListResponse} {w' : World}
    (h : (listAudit P context page pageSize).run w = .ok response w') :
    Askable P context pageSize page := by
  rw [listAudit, EStateM.run_bind, run_checkPage w (by omega) hsize] at h
  simp only [EStateM.run_bind, run_listEventsPaginated] at h
  cases hanswer : listForTenantPaginated P.dialect P.scanEvents w.audit.events.rows
      context.tenantId page pageSize with
  | some answer =>
    obtain ⟨hcarries, hoffset, -⟩ := listForTenantPaginated_eq_some.mp hanswer
    exact ⟨hcarries, hoffset⟩
  | none =>
    rw [hanswer] at h
    cases h

/-- The answers to the requests for pages of a log: `total` and `total_pages` are the same
in all of them, and the pages up to the last make up the log of the tenant. -/
structure PagesPartition (pageSize : ℤ) (asked : Set ℕ) (total totalPages : ℕ)
    (items : ℕ → List AuditEvent) : Prop where
  answers : ∀ page ∈ asked, 1 ≤ page → (listAudit P context page pageSize).run w =
    .ok ⟨total, page, pageSize, totalPages, items page⟩ w
  total_eq : total = (forTenant context.tenantId w.audit.events.rows).length
  totalPages_least : IsLeast {k : ℕ | (total : ℤ) ≤ k * pageSize} totalPages
  complete : ((List.range totalPages).flatMap fun i => items (i + 1)).Perm
    ((forTenant context.tenantId w.audit.events.rows).map ormToDomain)
  increasing : ((List.range totalPages).flatMap fun i => items (i + 1)).Pairwise TimestampIdLt
  full : ∀ page : ℕ, 1 ≤ page → page < totalPages → ((items page).length : ℤ) = pageSize
  past : ∀ page : ℕ, totalPages < page → items page = []

theorem flatMap_pageItems (size k : ℕ) :
    ((List.range k).flatMap fun i => pageItems P context w size (i + 1)) =
      ((pagedRows P context w).take (k * size)).map ormToDomain := by
  rw [← flatMap_slice, List.map_flatMap]
  rfl

theorem length_pagedRows : (pagedRows P context w).length =
    (forTenant context.tenantId w.audit.events.rows).length :=
  orderBy_perm.length_eq

theorem strict_pagedRows : (pagedRows P context w).Pairwise fun a b => ¬ timestampIdLe b a :=
  strict_orderBy timestampId_ties ((List.filter_sublist.map _).nodup w.audit.events.nodup)

theorem pagesPartition_of_askable {size : ℕ} (hsize : 1 ≤ size ∧ size ≤ 100) {asked : Set ℕ}
    (hask : ∀ page ∈ asked, 1 ≤ page → Askable P context size page) :
    ∃ total totalPages items, PagesPartition P context w size asked total totalPages items := by
  have hlength := length_pagedRows P context w
  generalize htotal : (pagedRows P context w).length = total at hlength
  have hleast : IsLeast {k : ℕ | total ≤ k * size} (totalPages total size).toNat :=
    isLeast_totalPages hsize.1
  have hpages := natCast_toNat_totalPages total size
  generalize (totalPages total size).toNat = k at hleast hpages
  have hall : (pagedRows P context w).take (k * size) = pagedRows P context w :=
    List.take_of_length_le (htotal.trans_le hleast.1)
  refine ⟨total, k, pageItems P context w size, ?_, hlength, ?_, ?_, ?_, ?_, ?_⟩
  · intro page hasked hpage
    rw [run_listAudit P context w hsize hpage (hask page hasked hpage), ← hlength, hpages]
  · simpa only [← Int.natCast_mul, Int.ofNat_le] using hleast
  · rw [flatMap_pageItems, hall]
    exact orderBy_perm.map ormToDomain
  · rw [flatMap_pageItems, hall]
    exact List.pairwise_map.mpr ((strict_pagedRows P context w).imp timestampIdLt_of_not_le)
  · intro page hpage hlt
    obtain ⟨n, rfl⟩ := Nat.exists_eq_add_of_le' hpage
    rw [pageItems, List.length_map, Nat.add_sub_cancel, length_slice_full (htotal ▸ hleast) hlt]
  · intro page hlt
    obtain ⟨n, rfl⟩ := Nat.exists_eq_add_of_lt hlt
    have hend : total ≤ (k + n) * size := hleast.1.trans (Nat.mul_le_mul_right _ (by omega))
    rw [pageItems, Nat.add_sub_cancel, slice_eq_nil (htotal.trans_le hend), List.map_nil]

/-- The answers to the requests for these pages partition the log of the tenant exactly where
the database can be asked for each of them. -/
theorem audit_pages_partition_iff {pageSize : ℤ} (hsize : 1 ≤ pageSize ∧ pageSize ≤ 100)
    (asked : Set ℕ) :
    (∃ total totalPages items,
      PagesPartition P context w pageSize asked total totalPages items) ↔
      ∀ page ∈ asked, 1 ≤ page → Askable P context pageSize page := by
  constructor
  · rintro ⟨total, totalPages, items, h⟩ page hasked hpage
    exact askable_of_listAudit P context w hsize hpage (h.answers page hasked hpage)
  · intro hask
    obtain ⟨size, rfl⟩ := Int.eq_ofNat_of_zero_le (show 0 ≤ pageSize by omega)
    exact pagesPartition_of_askable P context w (by omega) hask

end Pages

/-! Three events of one tenant, two of them at one time, and one of another tenant. -/

def pagedEvents : List AuditEvent :=
  [exampleEvent 2 "downloaded" [], { exampleEvent 4 "uploaded" [] with tenantId := "other" },
    exampleEvent 1 "uploaded" [],
    { exampleEvent 3 "processed" [] with timestamp := { exampleTime with minute := ⟨29, by decide⟩ } }]

def pagedWorld : World :=
  { World.empty with
    audit := ⟨⟨pagedEvents.map (toOrm .postgresql), by decide⟩, fun _ => none⟩ }

/-- The first two pages of two events each, and the empty third one. -/
theorem audit_pages_partition_three :
    ∃ items, PagesPartition examplePlatform exampleContext pagedWorld 2 {1, 2, 3} 3 2 items := by
  have hask : ∀ page ∈ ({1, 2, 3} : Set ℕ), 1 ≤ page →
      Askable examplePlatform exampleContext 2 page := by
    rintro page (rfl | rfl | rfl) -
    · exact ⟨rfl, by decide⟩
    · exact ⟨rfl, by decide⟩
    · exact ⟨rfl, by decide⟩
  obtain ⟨total, pages, items, h⟩ := (audit_pages_partition_iff examplePlatform exampleContext
    pagedWorld (show (1 : ℤ) ≤ 2 ∧ (2 : ℤ) ≤ 100 by decide) {1, 2, 3}).mpr hask
  obtain rfl : total = 3 := h.total_eq
  obtain rfl : pages = 2 := by
    have hle : (3 : ℤ) ≤ pages * 2 := h.totalPages_least.1
    have hleast : pages ≤ 2 := h.totalPages_least.2 (show ((3 : ℕ) : ℤ) ≤ (2 : ℕ) * 2 by decide)
    omega
  exact ⟨items, h⟩

/-- Page `2 ^ 63 + 1` of one event each is past the end, and is not answered. -/
theorem far_audit_page_fails : ¬ ∃ total totalPages items,
    PagesPartition examplePlatform exampleContext pagedWorld 1 Set.univ total totalPages items := by
  rintro ⟨total, totalPages, items, h⟩
  have hrun := h.answers 9223372036854775809 trivial (by decide)
  have hask := askable_of_listAudit examplePlatform exampleContext pagedWorld (by decide) (by decide)
    hrun
  exact absurd hask.2 (by decide)

end GoAnalyze
