import GoAnalyze.Proofs.Confidentiality
import GoAnalyze.Lib.Paging

/-! The pages of the database search. Documents are ordered by `created_at` alone, so the
pages are a partition of the result exactly where no page ends between two documents of
one `created_at`. -/

namespace GoAnalyze

open Sql DocumentRepository

section SearchPages

variable (P : Platform) (tenantId query : String) (classification contentType : Option String)
  (w : World) (size : ℕ)

def matchingRows : List DocumentORM :=
  w.documents.rows.filter (conditions P tenantId query classification contentType)

/-- The number of the last page, the first one where nothing matches. -/
def lastPage (total size : ℕ) : ℕ := max 1 ⌈(total : ℚ) / size⌉₊

/-- The answers to the requests for the pages, where the database reads the rows for page
`i` by `scans i`: no two pages share a document, and together they have every matching one once. -/
structure SearchPagesPartition (scans : ℕ → Scan DocumentORM) (total : ℕ)
    (pages : ℕ → List DocumentRecord) : Prop where
  answers : ∀ page : ℕ, 1 ≤ page → page ≤ lastPage total size →
    (search { P with scanDocuments := scans page } tenantId query page size classification
      contentType).run w = .ok (pages page, total) w
  total_eq : total = (matchingRows P tenantId query classification contentType w).length
  disjoint : ∀ i j, 1 ≤ i → i < j → j ≤ ⌈(total : ℚ) / size⌉₊ → (pages i).Disjoint (pages j)
  complete : ((List.range ⌈(total : ℚ) / size⌉₊).flatMap fun i => pages (i + 1)).Perm
    ((matchingRows P tenantId query classification contentType w).map toDomain)

def searchPage (scan : Scan DocumentORM) (page : ℕ) : List DocumentRecord :=
  (slice ((page - 1) * size) size (orderBy createdAtGe scan
    (matchingRows P tenantId query classification contentType w))).map toDomain

/-- The database takes the query for a page: its offset is small enough, and on PostgreSQL
no text of it has a NUL. -/
def PageBinds (page : ℕ) : Prop :=
  binds P.dialect tenantId query page size classification contentType

variable {P tenantId query classification contentType w size}

theorem run_searchPage_eq_ok {scan : Scan DocumentORM} {page : ℕ} (hpage : 1 ≤ page)
    {answer : List DocumentRecord × ℕ} :
    (search { P with scanDocuments := scan } tenantId query page size classification
      contentType).run w = .ok answer w ↔
      PageBinds P tenantId query classification contentType size page ∧
        answer = (searchPage P tenantId query classification contentType w size scan page,
          (matchingRows P tenantId query classification contentType w).length) := by
  have hoffset : (((page : ℤ) - 1) * size).toNat = (page - 1) * size := by
    rw [show (page : ℤ) - 1 = ((page - 1 : ℕ) : ℤ) by omega, ← Int.natCast_mul, Int.toNat_natCast]
  have hrows : searchRows { P with scanDocuments := scan } w.documents.rows tenantId query page size
      classification contentType = (searchPage P tenantId query classification contentType w size
        scan page, (matchingRows P tenantId query classification contentType w).length) := by
    simp only [searchRows, hoffset, Int.toNat_natCast]
    rfl
  rw [run_search, hrows, PageBinds]
  split_ifs with hbinds
  · simp only [hbinds, true_and, EStateM.Result.ok.injEq, and_true]
    exact eq_comm
  · simp [hbinds]

theorem PageBinds.mono {i j : ℕ} (hij : i ≤ j)
    (h : PageBinds P tenantId query classification contentType size j) :
    PageBinds P tenantId query classification contentType size i := by
  simp only [PageBinds, binds, Bool.and_eq_true, decide_eq_true_eq] at h ⊢
  refine ⟨h.1, le_trans ?_ h.2⟩
  exact mul_le_mul_of_nonneg_right (by omega) (by omega)

theorem nodup_matchingRows :
    ((matchingRows P tenantId query classification contentType w).map DocumentORM.id).Nodup :=
  (List.filter_sublist.map _).nodup w.documents.nodup

theorem nodup_map_toDomain {rows : List DocumentORM} (h : (rows.map DocumentORM.id).Nodup) :
    (rows.map toDomain).Nodup :=
  List.Nodup.of_map DocumentRecord.id (by rwa [List.map_map])

theorem perm_of_map_toDomain {rows rows' : List DocumentORM}
    (h : (rows.map toDomain).Perm (rows'.map toDomain)) (hsub : rows ⊆ rows')
    (hnd : (rows'.map DocumentORM.id).Nodup) : rows.Perm rows' := by
  have hrows : rows.Nodup :=
    List.Nodup.of_map toDomain (h.nodup_iff.mpr (nodup_map_toDomain hnd))
  have hlength : rows'.length ≤ rows.length := by
    simpa only [List.length_map] using h.length_eq.ge
  exact (hrows.subperm hsub).perm_of_length_le hlength

theorem total_le_ceil_mul (hsize : 0 < size) (total : ℕ) :
    total ≤ ⌈(total : ℚ) / size⌉₊ * size := by
  have hle : (total : ℚ) / size ≤ (⌈(total : ℚ) / size⌉₊ : ℕ) := Nat.le_ceil _
  rw [div_le_iff₀ (by exact_mod_cast hsize)] at hle
  exact_mod_cast hle

theorem flatMap_searchPage (scans : ℕ → Scan DocumentORM) (k : ℕ) :
    ((List.range k).flatMap fun i =>
      searchPage P tenantId query classification contentType w size (scans i) (i + 1)) =
    ((List.range k).flatMap fun i => slice (i * size) size (orderBy createdAtGe (scans i)
      (matchingRows P tenantId query classification contentType w))).map toDomain := by
  rw [List.map_flatMap]
  rfl

theorem disjoint_of_perm {k : ℕ} (pages : ℕ → List DocumentRecord) {records : List DocumentRecord}
    (h : ((List.range k).flatMap fun i => pages (i + 1)).Perm records) (hnd : records.Nodup)
    {i j : ℕ} (hi : 1 ≤ i) (hij : i < j) (hj : j ≤ k) : (pages i).Disjoint (pages j) := by
  obtain ⟨-, hdisjoint⟩ := List.nodup_flatMap.mp (h.nodup_iff.mpr hnd)
  have := List.pairwise_iff_getElem.mp hdisjoint (i - 1) (j - 1) (by simp; omega) (by simp; omega)
    (by omega)
  simpa only [List.getElem_range, Function.onFun, Nat.sub_add_cancel hi,
    Nat.sub_add_cancel (hi.trans hij.le)] using this

/-- The pages of a search are a partition of its result, however the database orders
documents of one `created_at` in each query, exactly where these are always on one page and
the database takes the query for the last page. -/
theorem search_pages_partition_iff (hsize : 1 ≤ size ∧ size ≤ 100) :
    (∀ scans, ∃ total pages, SearchPagesPartition P tenantId query classification contentType w size
      scans total pages) ↔
      TiesOnOnePage createdAtGe size (matchingRows P tenantId query classification contentType w) ∧
      PageBinds P tenantId query classification contentType size
        (lastPage (matchingRows P tenantId query classification contentType w).length size) := by
  have hids : ((matchingRows P tenantId query classification contentType w).map
    DocumentORM.id).Nodup := nodup_matchingRows
  set rows := matchingRows P tenantId query classification contentType w
  have hsize' : 0 < size := hsize.1
  have hfirst : 1 ≤ lastPage rows.length size := le_max_left ..
  rw [← pages_perm_iff (List.Nodup.of_map _ hids) hsize' (total_le_ceil_mul hsize' rows.length)]
  constructor
  · intro h
    constructor
    · intro scans
      obtain ⟨total, pages, hpages⟩ := h fun i => scans (i - 1)
      obtain rfl : total = rows.length := hpages.total_eq
      have heq : ∀ i ∈ List.range ⌈(rows.length : ℚ) / size⌉₊, pages (i + 1) =
          searchPage P tenantId query classification contentType w size (scans i) (i + 1) := by
        intro i hi
        have hlast : i + 1 ≤ lastPage rows.length size :=
          (Nat.succ_le_of_lt (List.mem_range.mp hi)).trans (le_max_right ..)
        have hrun := (run_searchPage_eq_ok (by omega)).mp (hpages.answers (i + 1) (by omega) hlast)
        exact congrArg Prod.fst hrun.2
      have hcomplete := hpages.complete
      rw [List.flatMap_congr heq, flatMap_searchPage] at hcomplete
      refine perm_of_map_toDomain hcomplete (fun row hrow => ?_) hids
      obtain ⟨i, -, hslice⟩ := List.mem_flatMap.mp hrow
      exact mem_orderBy.mp (List.mem_of_mem_drop (List.mem_of_mem_take hslice))
    · obtain ⟨total, pages, hpages⟩ := h default
      obtain rfl : total = rows.length := hpages.total_eq
      exact ((run_searchPage_eq_ok hfirst).mp (hpages.answers _ hfirst le_rfl)).1
  · rintro ⟨h, hbinds⟩ scans
    let pages (page : ℕ) : List DocumentRecord :=
      searchPage P tenantId query classification contentType w size (scans page) page
    have hcomplete := (h fun i => scans (i + 1)).map toDomain
    rw [← flatMap_searchPage] at hcomplete
    refine ⟨rows.length, pages, fun page hpage hlast => ?_, rfl, ?_, hcomplete⟩
    · exact (run_searchPage_eq_ok hpage).mpr ⟨hbinds.mono hlast, rfl⟩
    · exact fun i j hi hij hj =>
        disjoint_of_perm pages hcomplete (nodup_map_toDomain hids) hi hij hj

end SearchPages

/-! Two documents created at one time, and the order of the two in the queries for the pages. -/

def tiedRow (id : UUID) : DocumentORM := exampleRow id (exampleIngest "env" "plan.pdf" .internal [])

def tiedWorld : World := World.ofRows [tiedRow 1, tiedRow 2] (by decide)

/-- The query for the first page reads one document first, that for the next the other. -/
noncomputable def swappingScans (page : ℕ) : Scan DocumentORM :=
  if page = 1 then .along [tiedRow 1, tiedRow 2] else .along [tiedRow 2, tiedRow 1]

theorem search_pages_partition_two :
    (∀ scans, ∃ total pages, SearchPagesPartition examplePlatform "env" "" none none tiedWorld 2
      scans total pages) ∧
    TiesOnOnePage createdAtGe 2 (matchingRows examplePlatform "env" "" none none tiedWorld) := by
  have hlength : (matchingRows examplePlatform "env" "" none none tiedWorld).length = 2 := rfl
  have hties : TiesOnOnePage createdAtGe 2
      (matchingRows examplePlatform "env" "" none none tiedWorld) := by
    rintro r - k ⟨hrank, hreach⟩
    have hlt := hreach.trans_le reach_le_length
    omega
  have hlast : lastPage 2 2 = 1 := by simp [lastPage]
  refine ⟨(search_pages_partition_iff (by decide)).mpr ⟨hties, ?_⟩, hties⟩
  rw [hlength, hlast]
  exact (by decide : binds Dialect.postgresql "env" "" 1 2 none none = true)

/-- Both pages of one document show the same one. -/
theorem search_pages_repeat : ¬ ∃ total pages, SearchPagesPartition examplePlatform "env" "" none
    none tiedWorld 1 swappingScans total pages := by
  rintro ⟨total, pages, h⟩
  have hrows : matchingRows examplePlatform "env" "" none none tiedWorld = [tiedRow 1, tiedRow 2] :=
    rfl
  obtain rfl : total = 2 := by rw [h.total_eq, hrows]; rfl
  have hlast : lastPage 2 1 = 2 := by simp [lastPage]
  have hpage : ∀ page, 1 ≤ page → page ≤ 2 → pages page = searchPage examplePlatform "env" "" none
      none tiedWorld 1 (swappingScans page) page := fun page hpage hle =>
    congrArg Prod.fst ((run_searchPage_eq_ok hpage).mp
      (h.answers page hpage (hle.trans_eq hlast.symm))).2
  have hfirst : pages 1 = [toDomain (tiedRow 1)] := by
    rw [hpage 1 le_rfl (by decide), searchPage, hrows, swappingScans, if_pos rfl,
      orderBy_along (List.Perm.refl _) (by decide)]
    rfl
  have hsecond : pages 2 = [toDomain (tiedRow 1)] := by
    rw [hpage 2 (by decide) le_rfl, searchPage, hrows, swappingScans, if_neg (by decide),
      orderBy_along (List.Perm.swap _ _ _) (by decide)]
    rfl
  have hceil : 2 ≤ ⌈((2 : ℕ) : ℚ) / (1 : ℕ)⌉₊ := by norm_num
  have hdisjoint := h.disjoint 1 2 le_rfl (by decide) hceil
  rw [hfirst, hsecond] at hdisjoint
  exact hdisjoint (List.mem_singleton.mpr rfl) (List.mem_singleton.mpr rfl)

end GoAnalyze
