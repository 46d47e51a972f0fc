import GoAnalyze.Lib.Sql

/-! Pages of an ordered query: `OFFSET` and `LIMIT` cut them off a list, and the rank
of a row, which inserts can only raise, tells its page. -/

namespace Sql

variable {α κ : Type*}

/-! ## Slices of a list -/

section Slices

variable {l : List α}

@[simp] theorem length_slice (offset limit : ℕ) :
    (slice offset limit l).length = min limit (l.length - offset) := by
  rw [slice, List.length_take, List.length_drop]

theorem slice_eq_nil {offset limit : ℕ} (h : l.length ≤ offset) : slice offset limit l = [] := by
  rw [slice, List.drop_eq_nil_of_le h, List.take_nil]

/-- The first `k` pages are the rows up to the end of page `k`. -/
theorem flatMap_slice (l : List α) (size k : ℕ) :
    ((List.range k).flatMap fun i => slice (i * size) size l) = l.take (k * size) := by
  induction k with
  | zero => simp
  | succ k ih =>
    rw [List.range_succ, List.flatMap_append, ih, List.flatMap_singleton, slice, Nat.succ_mul,
      List.take_add]

/-- Of the least number of pages that hold the list, all but the last are full. -/
theorem length_slice_full {size k n : ℕ} (hleast : IsLeast {k | l.length ≤ k * size} k)
    (hn : n + 1 < k) : (slice (n * size) size l).length = size := by
  have hmore : (n + 1) * size < l.length := by
    by_contra hle
    exact absurd (hleast.2 (not_lt.mp hle)) (not_le.mpr hn)
  rw [Nat.succ_mul] at hmore
  rw [length_slice]
  omega

/-- In a list without repetition a row is on the slice that its position is in. -/
theorem mem_slice_append {l₁ l₂ : List α} {r : α} (hnd : (l₁ ++ r :: l₂).Nodup)
    (offset limit : ℕ) :
    r ∈ slice offset limit (l₁ ++ r :: l₂) ↔ offset ≤ l₁.length ∧ l₁.length < offset + limit := by
  have hpos : ∀ i, (l₁ ++ r :: l₂)[i]? = some r ↔ i = l₁.length := by
    intro i
    have hmid : (l₁ ++ r :: l₂)[l₁.length]? = some r := by simp
    constructor
    · intro hi
      obtain ⟨hlt, -⟩ := List.getElem?_eq_some_iff.mp hi
      exact (List.getElem?_inj hlt hnd).mp (hi.trans hmid.symm)
    · rintro rfl
      exact hmid
  rw [slice, List.mem_iff_getElem?]
  simp only [List.getElem?_take, List.getElem?_drop]
  constructor
  · rintro ⟨i, hi⟩
    split_ifs at hi with hlt
    have := (hpos _).mp hi
    omega
  · rintro ⟨hle, hlt⟩
    refine ⟨l₁.length - offset, ?_⟩
    rw [if_pos (by omega), hpos]
    omega

end Slices

/-! ## Ranks -/

section Ranks

variable (le : α → α → Prop) [DecidableRel le]

/-- How many rows sort strictly before `r`. -/
def rank (rows : List α) (r : α) : ℕ := rows.countP fun a => ¬ le r a

variable {le} {rows rows' : List α} {r : α}

theorem rank_perm (h : rows.Perm rows') : rank le rows r = rank le rows' r := h.countP_eq _

theorem rank_append (rows new : List α) (r : α) :
    rank le (rows ++ new) r = rank le rows r + rank le new r := List.countP_append

/-- Rows that are added leave no row with a smaller rank. -/
theorem rank_mono (h : rows <+: rows') : rank le rows r ≤ rank le rows' r := by
  obtain ⟨new, rfl⟩ := h
  rw [rank_append]
  exact Nat.le_add_right _ _

variable [Std.Total le]

omit [DecidableRel le] in
theorem le_self (r : α) : le r r := (Std.Total.total r r).elim id id

/-- A row does not sort before itself. -/
theorem rank_lt_length (h : r ∈ rows) : rank le rows r < rows.length :=
  List.countP_lt_length_iff.mpr ⟨r, h, by simpa using le_self r⟩

end Ranks

/-! ## Pages of an ordered query -/

section OrderedPages

variable {le : α → α → Prop} [DecidableRel le] [Std.Total le] [IsTrans α le] {key : α → κ}
  {rows : List α} {scan : Scan α} {r : α}

/-- Rows that the order leaves tied have one key. -/
def TiesBy (le : α → α → Prop) (key : α → κ) : Prop := ∀ a b, le a b → le b a → key a = key b

/-- Without ties the rows come in strict order. -/
theorem strict_orderBy (hties : TiesBy le key) (hnd : (rows.map key).Nodup) :
    (orderBy le scan rows).Pairwise fun a b => ¬ le b a := by
  have hkeys : (orderBy le scan rows).Pairwise fun a b => key a ≠ key b :=
    List.pairwise_map.mp ((orderBy_perm.map key).nodup_iff.mpr hnd)
  refine (pairwise_orderBy.and hkeys).imp ?_
  rintro a b ⟨hab, hne⟩ hba
  exact hne (hties a b hab hba)

/-- Without ties there is one order to read the rows in. -/
theorem orderBy_eq_of_strict {l : List α} (hperm : l.Perm rows)
    (hstrict : l.Pairwise fun a b => ¬ le b a) : orderBy le scan rows = l := by
  have hsorted : l.Pairwise le := hstrict.imp fun {a b} h => (Std.Total.total a b).resolve_right h
  have : Std.Symm fun a b : α => ¬ (le a b ∧ le b a) := ⟨fun _ _ => mt And.symm⟩
  have hone : l.Pairwise fun a b => ¬ (le a b ∧ le b a) := hstrict.imp fun h => mt And.right h
  refine List.Perm.eq_of_pairwise (fun a b ha hb hab hba => ?_) pairwise_orderBy hsorted
    (orderBy_perm.trans hperm.symm)
  by_contra hab'
  exact hone.forall (hperm.mem_iff.mpr (mem_orderBy.mp ha)) hb hab' ⟨hab, hba⟩

/-- A row is on the page that its rank is in. -/
theorem mem_slice_orderBy (hties : TiesBy le key) (hnd : (rows.map key).Nodup) (hr : r ∈ rows)
    (offset limit : ℕ) : r ∈ slice offset limit (orderBy le scan rows) ↔
      offset ≤ rank le rows r ∧ rank le rows r < offset + limit := by
  obtain ⟨l₁, l₂, hsplit⟩ := List.append_of_mem (show r ∈ orderBy le scan rows from mem_orderBy.mpr hr)
  have hstrict : (orderBy le scan rows).Pairwise fun a b => ¬ le b a := strict_orderBy hties hnd
  have hrows : (orderBy le scan rows).Nodup :=
    List.Nodup.of_map key ((orderBy_perm.map key).nodup_iff.mpr hnd)
  rw [hsplit] at hstrict hrows
  obtain ⟨-, htail, hcross⟩ := List.pairwise_append.mp hstrict
  have hbefore : rank le l₁ r = l₁.length :=
    List.countP_eq_length.mpr fun a ha => decide_eq_true (hcross a ha r List.mem_cons_self)
  have hafter : rank le (r :: l₂) r = 0 := by
    refine List.countP_eq_zero.mpr fun a ha => ?_
    have hle : le r a := by
      rcases List.mem_cons.mp ha with rfl | ha
      · exact le_self a
      · exact (Std.Total.total r a).resolve_right ((List.pairwise_cons.mp htail).1 a ha)
    simpa using hle
  have hrank : rank le rows r = l₁.length := by
    rw [← rank_perm (orderBy_perm : (orderBy le scan rows).Perm rows), hsplit, rank_append,
      hbefore, hafter, Nat.add_zero]
  rw [hsplit, mem_slice_append hrows, hrank]

end OrderedPages

/-! ## Pages that are read one by one

Each page is cut off a query of its own, and each query may leave its ties in another order. -/

section SeparatePages

variable (le : α → α → Prop) [DecidableRel le]

/-- How many rows sort no later than `r`. -/
def reach (rows : List α) (r : α) : ℕ := rows.countP fun a => le a r

/-- No page ends between two rows that the order leaves tied: the rows tied with `r` are those
from its rank up to its reach. -/
def TiesOnOnePage (size : ℕ) (rows : List α) : Prop :=
  ∀ r ∈ rows, ∀ k, ¬ (rank le rows r < k * size ∧ k * size < reach le rows r)

variable {le} {rows rows' l : List α} {scan : Scan α} {r : α} {n offset limit size k : ℕ}

theorem reach_perm (h : rows.Perm rows') : reach le rows r = reach le rows' r := h.countP_eq _

theorem reach_le_length : reach le rows r ≤ rows.length := List.countP_le_length

theorem mem_slice_of_getElem? {i : ℕ} (hi : l[i]? = some r) (hle : offset ≤ i)
    (hlt : i < offset + limit) : r ∈ slice offset limit l := by
  rw [slice, List.mem_iff_getElem?]
  refine ⟨i - offset, ?_⟩
  rw [List.getElem?_take, if_pos (by omega), List.getElem?_drop, Nat.add_sub_cancel' hle, hi]

theorem filter_eq_slice {p : α → Bool} (hbefore : ∀ a ∈ l.take offset, ¬ p a)
    (hin : ∀ a ∈ slice offset limit l, p a) (hafter : ∀ a ∈ l.drop (offset + limit), ¬ p a) :
    l.filter p = slice offset limit l := by
  have hsplit : l = l.take offset ++ (slice offset limit l ++ l.drop (offset + limit)) := by
    rw [slice, ← List.drop_drop, List.take_append_drop, List.take_append_drop]
  conv_lhs => rw [hsplit]
  rw [List.filter_append, List.filter_append, List.filter_eq_nil_iff.mpr hbefore,
    List.filter_eq_self.mpr hin, List.filter_eq_nil_iff.mpr hafter, List.nil_append, List.append_nil]

theorem pairwise_take_drop {R : α → α → Prop} (h : l.Pairwise R) (n : ℕ) :
    ∀ a ∈ l.take n, ∀ b ∈ l.drop n, R a b := by
  rw [← List.take_append_drop n l] at h
  exact (List.pairwise_append.mp h).2.2

variable [Std.Total le]

theorem rank_lt_of_mem_take (h : l.Pairwise le) (hr : r ∈ l.take n) : rank le l r < n := by
  have hafter : rank le (l.drop n) r = 0 := List.countP_eq_zero.mpr fun a ha => by
    simpa using pairwise_take_drop h n r hr a ha
  rw [← List.take_append_drop n l, rank_append, hafter, Nat.add_zero]
  exact (rank_lt_length hr).trans_le (List.length_take_le _ _)

theorem lt_reach_of_mem_drop (h : l.Pairwise le) (hr : r ∈ l.drop n) : n < reach le l r := by
  have hlen : n < l.length := by
    by_contra hle
    rw [List.drop_eq_nil_of_le (not_lt.mp hle)] at hr
    exact absurd hr List.not_mem_nil
  have hbefore : reach le (l.take n) r = n := by
    rw [reach, List.countP_eq_length.mpr fun a ha =>
      decide_eq_true (pairwise_take_drop h n a ha r hr), List.length_take, min_eq_left hlen.le]
  have hself : 0 < reach le (l.drop n) r :=
    List.countP_pos_iff.mpr ⟨r, hr, decide_eq_true (le_self r)⟩
  have hsum : reach le l r = reach le (l.take n) r + reach le (l.drop n) r := by
    conv_lhs => rw [← List.take_append_drop n l]
    exact List.countP_append
  omega

variable (le) in
theorem perm_around (rows : List α) (r : α) : rows.Perm ((rows.filter fun a => ¬ le r a) ++
    ((rows.filter fun a => le a r ∧ le r a) ++ rows.filter fun a => ¬ le a r)) := by
  have hlow : (rows.filter fun a => le a r).filter (fun a => !decide (le r a)) =
      rows.filter fun a => ¬ le r a := by
    rw [List.filter_filter]
    refine List.filter_congr fun a _ => ?_
    have := (Std.Total.total (r := le) a r).resolve_right
    by_cases hra : le r a <;> simp_all
  have htied : (rows.filter fun a => le a r).filter (fun a => decide (le r a)) =
      rows.filter fun a => le a r ∧ le r a := by
    rw [List.filter_filter]
    exact List.filter_congr fun a _ => by rw [Bool.and_comm, Bool.decide_and]
  have hsplit := List.filter_append_perm (fun a => decide (le r a)) (rows.filter fun a => le a r)
  rw [hlow, htied] at hsplit
  rw [← List.append_assoc]
  refine ((List.perm_append_comm.trans hsplit).append ?_).trans
    (List.filter_append_perm (fun a => decide (le a r)) rows) |>.symm
  exact List.Perm.of_eq (List.filter_congr fun a _ => by simp)

theorem reach_eq : reach le rows r =
    rank le rows r + (rows.filter fun a => le a r ∧ le r a).length := by
  have hbefore : reach le (rows.filter fun a => ¬ le r a) r = rank le rows r := by
    rw [rank, List.countP_eq_length_filter]
    refine List.countP_eq_length.mpr fun a ha => ?_
    have hra : ¬ le r a := by simpa using (List.mem_filter.mp ha).2
    exact decide_eq_true ((Std.Total.total a r).resolve_right hra)
  have htied : reach le (rows.filter fun a => le a r ∧ le r a) r =
      (rows.filter fun a => le a r ∧ le r a).length := by
    refine List.countP_eq_length.mpr fun a ha => ?_
    have hboth : le a r ∧ le r a := by simpa using (List.mem_filter.mp ha).2
    exact decide_eq_true hboth.1
  have hafter : reach le (rows.filter fun a => ¬ le a r) r = 0 := by
    refine List.countP_eq_zero.mpr fun a ha => ?_
    simpa using (List.mem_filter.mp ha).2
  rw [reach_perm (perm_around le rows r), reach, List.countP_append, List.countP_append]
  exact congrArg₂ (· + ·) hbefore (by rw [← reach, htied, ← reach, hafter, Nat.add_zero])

variable [IsTrans α le]

/-- Where no page ends inside a tie, the rows of a page are those that reach no further than
its end and further than that of the page before. -/
theorem slice_perm_filter (h : TiesOnOnePage le size rows) (i : ℕ) :
    (slice (i * size) size (orderBy le scan rows)).Perm
      (rows.filter fun r => i * size < reach le rows r ∧ reach le rows r ≤ i * size + size) := by
  have hsorted : (orderBy le scan rows).Pairwise le := pairwise_orderBy
  have hperm : (orderBy le scan rows).Perm rows := orderBy_perm
  have hbefore : ∀ k, ∀ r ∈ (orderBy le scan rows).take (k * size),
      reach le rows r ≤ k * size := by
    intro k r hr
    have hlt := rank_lt_of_mem_take hsorted hr
    rw [rank_perm hperm] at hlt
    exact not_lt.mp fun hreach =>
      h r (hperm.mem_iff.mp (List.mem_of_mem_take hr)) k ⟨hlt, hreach⟩
  have hafter : ∀ k, ∀ r ∈ (orderBy le scan rows).drop (k * size), k * size < reach le rows r := by
    intro k r hr
    have hlt := lt_reach_of_mem_drop hsorted hr
    rwa [reach_perm hperm] at hlt
  rw [← Nat.succ_mul]
  refine List.Perm.trans (List.Perm.of_eq (filter_eq_slice ?_ ?_ ?_).symm) (hperm.filter _)
  · intro r hr
    simp [(hbefore i r hr).not_gt]
  · intro r hr
    have hend : r ∈ (orderBy le scan rows).take (i.succ * size) := by
      rw [Nat.succ_mul, List.take_add]
      exact List.mem_append_right _ hr
    simp [hafter i r (List.mem_of_mem_take hr), hbefore _ r hend]
  · intro r hr
    rw [← Nat.succ_mul] at hr
    simp [hafter _ r hr]

/-- A query can leave the rows tied with `r` in any order. -/
theorem exists_scan_around {tied : List α}
    (htied : tied.Perm (rows.filter fun a => le a r ∧ le r a)) : ∃ scan before after,
      orderBy le scan rows = before ++ (tied ++ after) ∧ before.length = rank le rows r := by
  let before := (rows.filter fun a => ¬ le r a).insertionSort le
  let after := (rows.filter fun a => ¬ le a r).insertionSort le
  have hbefore : before.Perm (rows.filter fun a => ¬ le r a) := List.perm_insertionSort _ _
  have hafter : after.Perm (rows.filter fun a => ¬ le a r) := List.perm_insertionSort _ _
  have hperm : rows.Perm (before ++ (tied ++ after)) :=
    (perm_around le rows r).trans (hbefore.symm.append (htied.symm.append hafter.symm))
  have hlow : ∀ a ∈ before, le a r := fun a ha => by
    have hra : ¬ le r a := by simpa using (List.mem_filter.mp (hbefore.mem_iff.mp ha)).2
    exact (Std.Total.total a r).resolve_right hra
  have hmid : ∀ a ∈ tied, le a r ∧ le r a := fun a ha => by
    simpa using (List.mem_filter.mp (htied.mem_iff.mp ha)).2
  have hhigh : ∀ a ∈ after, le r a := fun a ha => by
    have har : ¬ le a r := by simpa using (List.mem_filter.mp (hafter.mem_iff.mp ha)).2
    exact (Std.Total.total a r).resolve_left har
  have hsorted : (before ++ (tied ++ after)).Pairwise le := by
    refine List.pairwise_append.mpr ⟨List.pairwise_insertionSort _ _, List.pairwise_append.mpr
      ⟨List.pairwise_of_forall_mem_list fun a ha b hb => ?_, List.pairwise_insertionSort _ _,
        fun a ha b hb => ?_⟩, fun a ha b hb => ?_⟩
    · exact Trans.trans (hmid a ha).1 (hmid b hb).2
    · exact Trans.trans (hmid a ha).1 (hhigh b hb)
    · rcases List.mem_append.mp hb with hb | hb
      · exact Trans.trans (hlow a ha) (hmid b hb).2
      · exact Trans.trans (hlow a ha) (hhigh b hb)
  refine ⟨Scan.along _, before, after, orderBy_along hperm hsorted, ?_⟩
  rw [hbefore.length_eq, rank, List.countP_eq_length_filter]

variable (le) in
theorem exists_scan_at (hr : r ∈ rows) {i : ℕ} (hrank : rank le rows r ≤ i)
    (hreach : i < reach le rows r) : ∃ scan, (orderBy le scan rows)[i]? = some r := by
  have hself : r ∈ rows.filter fun a => le a r ∧ le r a := by simp [hr, le_self]
  obtain ⟨t₁, t₂, hsplit⟩ := List.append_of_mem hself
  have hlength : reach le rows r = rank le rows r + (1 + (t₁ ++ t₂).length) := by
    rw [reach_eq, hsplit, List.perm_middle.length_eq, List.length_cons, Nat.add_comm 1]
  obtain ⟨m, rfl⟩ := Nat.exists_eq_add_of_le hrank
  have hm : m ≤ (t₁ ++ t₂).length := by omega
  have htied : ((t₁ ++ t₂).take m ++ r :: (t₁ ++ t₂).drop m).Perm
      (rows.filter fun a => le a r ∧ le r a) := by
    rw [hsplit]
    refine List.perm_middle.trans (List.Perm.trans (List.Perm.cons r ?_) List.perm_middle.symm)
    rw [List.take_append_drop]
  obtain ⟨scan, before, after, hrows, hbefore⟩ := exists_scan_around htied
  refine ⟨scan, ?_⟩
  have htake : ((t₁ ++ t₂).take m).length = m := by rw [List.length_take, min_eq_left hm]
  rw [hrows, List.append_assoc, List.getElem?_append_right (by omega), hbefore,
    Nat.add_sub_cancel_left, List.getElem?_append_right htake.le, htake, Nat.sub_self]
  rfl

/-- Pages that are read one by one are a partition of the rows, whatever the order of ties,
exactly where no page ends inside a tie. -/
theorem pages_perm_iff (hnd : rows.Nodup) (hsize : 0 < size) (hk : rows.length ≤ k * size) :
    (∀ scans : ℕ → Scan α, ((List.range k).flatMap fun i =>
      slice (i * size) size (orderBy le (scans i) rows)).Perm rows) ↔
      TiesOnOnePage le size rows := by
  constructor
  · rintro hpages r hr n ⟨hrank, hreach⟩
    obtain ⟨m, rfl⟩ := Nat.exists_eq_succ_of_ne_zero (show n ≠ 0 by rintro rfl; omega)
    have hstart : rank le rows r < m * size + size := Nat.succ_mul m size ▸ hrank
    have hend : m * size + size < reach le rows r := Nat.succ_mul m size ▸ hreach
    -- `r` can be the last row of a page in one query, and the first of the next in another
    obtain ⟨scan, hlast⟩ := exists_scan_at le hr
      (show rank le rows r ≤ m * size + size - 1 by omega) (by omega)
    obtain ⟨scan', hfirst⟩ := exists_scan_at le hr hstart.le hend
    have hperm := hpages fun i => if i = m then scan else scan'
    obtain ⟨-, hdisjoint⟩ := List.nodup_flatMap.mp (hperm.nodup_iff.mpr hnd)
    have hlt : m + 1 < k := by
      have := (hreach.trans_le reach_le_length).trans_le hk
      exact Nat.lt_of_mul_lt_mul_right this
    have hpages' := List.pairwise_iff_getElem.mp hdisjoint m (m + 1) (by simp; omega)
      (by simpa using hlt) (by omega)
    simp only [List.getElem_range, Function.onFun, if_true, Nat.succ_ne_self, if_false] at hpages'
    rw [Nat.succ_mul] at hpages'
    exact hpages' (mem_slice_of_getElem? hlast (by omega) (by omega))
      (mem_slice_of_getElem? hfirst (by omega) (by omega))
  · intro h scans
    have hsame : ∀ i ∈ List.range k, (slice (i * size) size (orderBy le (scans i) rows)).Perm
        (slice (i * size) size (orderBy le (scans 0) rows)) := fun i _ =>
      (slice_perm_filter h i).trans (slice_perm_filter h i).symm
    refine (List.Perm.flatMap_left _ hsame).trans ?_
    have hlen : (orderBy le (scans 0) rows).length ≤ k * size := orderBy_perm.length_eq.trans_le hk
    rw [flatMap_slice, List.take_of_length_le hlen]
    exact orderBy_perm

end SeparatePages

/-! ## The first row -/

section FirstRow

variable {le : α → α → Prop} [DecidableRel le] [Std.Total le] [IsTrans α le] {rows : List α}
  {m : α}

/-- The first row of an ordered query is a least one. -/
theorem least_of_head {scan : Scan α} (h : (orderBy le scan rows).head? = some m) :
    m ∈ rows ∧ ∀ r ∈ rows, le m r := by
  obtain ⟨rest, hsplit⟩ := List.head?_eq_some_iff.mp h
  refine ⟨mem_orderBy.mp (hsplit ▸ List.mem_cons_self), fun r hr => ?_⟩
  have hmem : r ∈ orderBy le scan rows := mem_orderBy.mpr hr
  have hsorted : (orderBy le scan rows).Pairwise le := pairwise_orderBy
  rw [hsplit] at hmem hsorted
  rcases List.mem_cons.mp hmem with rfl | hrest
  · exact le_self r
  · exact (List.pairwise_cons.mp hsorted).1 r hrest

/-- Any least row may come first. -/
theorem exists_scan_head (hm : m ∈ rows) (hle : ∀ r ∈ rows, le m r) :
    ∃ scan, (orderBy le scan rows).head? = some m := by
  obtain ⟨l₁, l₂, rfl⟩ := List.append_of_mem hm
  have hperm : (l₁ ++ m :: l₂).Perm (m :: (l₁ ++ l₂).insertionSort le) :=
    List.perm_middle.trans ((List.perm_insertionSort le _).symm.cons m)
  have hsorted : (m :: (l₁ ++ l₂).insertionSort le).Pairwise le := by
    refine List.pairwise_cons.mpr ⟨fun r hr => hle r ?_, List.pairwise_insertionSort _ _⟩
    exact hperm.mem_iff.mpr (List.mem_cons_of_mem m hr)
  exact ⟨Scan.along _, by rw [orderBy_along hperm hsorted]; rfl⟩

/-- A row comes first in every scan exactly where it is the only least one. -/
theorem head_orderBy_iff : (∀ scan, (orderBy le scan rows).head? = some m) ↔
    m ∈ rows ∧ ∀ r ∈ rows, r ≠ m → ¬ le r m := by
  constructor
  · intro h
    obtain ⟨hm, hle⟩ := least_of_head (h default)
    refine ⟨hm, fun r hr hne hrm => hne ?_⟩
    obtain ⟨scan, hscan⟩ := exists_scan_head hr fun r' hr' => Trans.trans hrm (hle r' hr')
    exact Option.some.inj (hscan.symm.trans (h scan))
  · rintro ⟨hm, hlt⟩ scan
    cases hhead : (orderBy le scan rows).head? with
    | none =>
      rw [List.head?_eq_none_iff] at hhead
      exact absurd (mem_orderBy.mpr hm) (hhead ▸ List.not_mem_nil)
    | some r =>
      obtain ⟨hr, hle⟩ := least_of_head hhead
      by_contra hne
      exact hlt r hr (fun heq => hne (congrArg some heq)) (hle m hm)

end FirstRow

end Sql
