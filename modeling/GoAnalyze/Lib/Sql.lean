import Mathlib.Data.List.Nodup
import Mathlib.Data.List.Sort
import Mathlib.Data.Multiset.Basic
import Mathlib.Tactic

/-! Tables with a primary key, and what the clauses of a query do to the rows
they select. -/

namespace Sql

variable {α κ : Type*} {pk : α → κ}

/-! ## Columns -/

/-- What a `VARCHAR(n)` column of PostgreSQL takes: at most `n` characters, and no NUL. -/
def varchar (n : ℕ) (s : String) : Bool := s.length ≤ n && s.toList.all fun c => c ≠ '\x00'

/-- What a text parameter of PostgreSQL takes. -/
def noNul (s : String) : Bool := s.toList.all fun c => c ≠ '\x00'

/-! ## Tables -/

/-- A table with primary key `pk`, its rows in insertion order. -/
structure Table (pk : α → κ) where
  rows : List α
  nodup : (rows.map pk).Nodup

namespace Table

@[ext] theorem ext {t t' : Table pk} (h : t.rows = t'.rows) : t = t' := by
  cases t; cases t'; simp_all

def empty : Table pk := ⟨[], List.nodup_nil⟩

variable [DecidableEq κ]

/-- The row with a primary key. -/
def get (t : Table pk) (k : κ) : Option α := t.rows.find? fun r => pk r = k

/-- `INSERT`; `none` where the primary key is taken. -/
def insert (t : Table pk) (r : α) : Option (Table pk) :=
  if h : pk r ∈ t.rows.map pk then none
  else some ⟨t.rows ++ [r], by
    rw [List.map_append, List.map_singleton, ← List.concat_eq_append]
    exact t.nodup.concat h⟩

/-- `INSERT` into columns that take the rows that pass `check`. -/
def insertChecked (check : α → Bool) (t : Table pk) (r : α) : Option (Table pk) :=
  if check r then t.insert r else none

/-- Replace the row with the same primary key, or add one. -/
def upsert (t : Table pk) (r : α) : Table pk where
  rows := if pk r ∈ t.rows.map pk then t.rows.map fun r' => if pk r' = pk r then r else r'
    else t.rows ++ [r]
  nodup := by
    split_ifs with h
    · have hkeys : (t.rows.map fun r' => if pk r' = pk r then r else r').map pk = t.rows.map pk := by
        rw [List.map_map]
        refine List.map_congr_left fun r' _ => ?_
        by_cases hr : pk r' = pk r <;> simp [hr]
      rw [hkeys]
      exact t.nodup
    · rw [List.map_append, List.map_singleton, ← List.concat_eq_append]
      exact t.nodup.concat h

/-- The rows that satisfy `p`. -/
def restrict (t : Table pk) (p : α → Bool) : Table pk :=
  ⟨t.rows.filter p, (List.filter_sublist.map pk).nodup t.nodup⟩

/-- `UPDATE` of columns outside the primary key. -/
def update (t : Table pk) (f : α → α) (hf : ∀ r ∈ t.rows, pk (f r) = pk r) : Table pk where
  rows := t.rows.map f
  nodup := by
    have hkeys : (t.rows.map f).map pk = t.rows.map pk := by
      rw [List.map_map]
      exact List.map_congr_left hf
    rw [hkeys]
    exact t.nodup

theorem get_eq_none_iff {t : Table pk} {k : κ} : t.get k = none ↔ ∀ r ∈ t.rows, pk r ≠ k := by
  simp [get]

/-- By the primary key there is one row to find. -/
theorem get_eq_some_iff {t : Table pk} {k : κ} {r : α} :
    t.get k = some r ↔ r ∈ t.rows ∧ pk r = k := by
  refine ⟨fun h => ⟨List.mem_of_find?_eq_some h, by simpa using List.find?_some h⟩, ?_⟩
  rintro ⟨hr, hk⟩
  cases hget : t.get k with
  | none => exact absurd hk (get_eq_none_iff.mp hget r hr)
  | some r' =>
    have hr' : r' ∈ t.rows := List.mem_of_find?_eq_some hget
    have hk' : pk r' = k := by simpa using List.find?_some hget
    rw [List.inj_on_of_nodup_map t.nodup hr' hr (hk'.trans hk.symm)]

theorem insert_eq_some_iff {t t' : Table pk} {r : α} :
    t.insert r = some t' ↔ pk r ∉ t.rows.map pk ∧ t'.rows = t.rows ++ [r] := by
  unfold insert
  split_ifs with h
  · simp [h]
  · simp only [h, not_false_eq_true, true_and, Option.some.injEq]
    exact ⟨fun heq => heq ▸ rfl, fun heq => Table.ext heq.symm⟩

theorem insert_eq_none_iff {t : Table pk} {r : α} : t.insert r = none ↔ pk r ∈ t.rows.map pk := by
  unfold insert
  split_ifs with h <;> simp [h]

theorem insertChecked_eq_some_iff {check : α → Bool} {t t' : Table pk} {r : α} :
    t.insertChecked check r = some t' ↔ check r ∧ t.insert r = some t' := by
  unfold insertChecked
  split_ifs with h <;> simp [h]

theorem insertChecked_eq_none_iff {check : α → Bool} {t : Table pk} {r : α} :
    t.insertChecked check r = none ↔ (check r → pk r ∈ t.rows.map pk) := by
  unfold insertChecked
  split_ifs with h <;> simp [h, insert_eq_none_iff]

theorem exists_insertChecked_iff {check : α → Bool} {t : Table pk} {r : α} :
    (∃ t', t.insertChecked check r = some t') ↔ check r ∧ pk r ∉ t.rows.map pk := by
  rw [← Option.isSome_iff_exists, ← Option.ne_none_iff_isSome, ne_eq, insertChecked_eq_none_iff,
    Classical.not_imp]

theorem rows_insertChecked {check : α → Bool} {t t' : Table pk} {r : α}
    (h : t.insertChecked check r = some t') : t'.rows = t.rows ++ [r] :=
  (insert_eq_some_iff.mp (insertChecked_eq_some_iff.mp h).2).2

/-- An insert changes no other row. -/
theorem get_insert {t t' : Table pk} {r : α} (h : t.insert r = some t') (k : κ) :
    t'.get k = if pk r = k then some r else t.get k := by
  obtain ⟨hfresh, hrows⟩ := insert_eq_some_iff.mp h
  split_ifs with hk
  · exact get_eq_some_iff.mpr ⟨by simp [hrows], hk⟩
  · simp [get, hrows, List.find?_append, hk]

theorem rows_upsert {t : Table pk} {r : α} (h : pk r ∉ t.rows.map pk) :
    (t.upsert r).rows = t.rows ++ [r] := if_neg h

theorem get_restrict (t : Table pk) (p : α → Bool) (k : κ) :
    (t.restrict p).get k = (t.get k).filter p := by
  refine Option.ext fun r => ?_
  simp only [get_eq_some_iff, Option.filter_eq_some_iff, restrict, List.mem_filter]
  exact and_right_comm

/-- Tables whose rows are related one by one, keys kept, are related under every key. -/
theorem get_rel {R : α → α → Prop} (hR : ∀ r r', R r r' → pk r = pk r') {t t' : Table pk}
    (h : List.Forall₂ R t.rows t'.rows) (k : κ) : Option.Rel R (t.get k) (t'.get k) := by
  have hfind : ∀ {l l' : List α}, List.Forall₂ R l l' →
      Option.Rel R (l.find? fun r => pk r = k) (l'.find? fun r => pk r = k) := by
    intro l l' h
    induction h with
    | nil => exact .none
    | cons hr _ ih =>
      simp only [List.find?_cons, ← hR _ _ hr]
      split
      · exact .some hr
      · exact ih
  exact hfind h

theorem get_update {t : Table pk} {f : α → α} {hf : ∀ r ∈ t.rows, pk (f r) = pk r} (k : κ) :
    (t.update f hf).get k = (t.get k).map f := by
  refine Option.ext fun r => ?_
  simp only [get_eq_some_iff, Option.map_eq_some_iff, update, List.mem_map]
  constructor
  · rintro ⟨⟨r', hr', rfl⟩, hk⟩
    exact ⟨r', ⟨hr', (hf r' hr').symm.trans hk⟩, rfl⟩
  · rintro ⟨r', ⟨hr', hk⟩, rfl⟩
    exact ⟨⟨r', hr', rfl⟩, (hf r' hr').trans hk⟩

end Table

/-! ## Queries -/

/-- The order in which the database reads the matching rows of a query: it may
be any, and is a function of these rows alone. -/
structure Scan (α : Type*) where
  read : List α → List α
  perm : ∀ l, (read l).Perm l
  congr : ∀ {l l'}, l.Perm l' → read l = read l'

noncomputable instance : Inhabited (Scan α) where
  default :=
    { read := fun l => (l : Multiset α).toList
      perm := fun l => Multiset.coe_eq_coe.mp (Multiset.coe_toList _)
      congr := fun h => by rw [Multiset.coe_eq_coe.mpr h] }

/-- A scan that reads the rows of `l` in the order of `l`. -/
noncomputable def Scan.along (l : List α) : Scan α :=
  open Classical in
  { read := fun l' => if l'.Perm l then l else (default : Scan α).read l'
    perm := fun l' => by
      split_ifs with h
      · exact h.symm
      · exact (default : Scan α).perm l'
    congr := fun {l₁ l₂} h => by
      have hiff : l₁.Perm l ↔ l₂.Perm l := ⟨h.symm.trans, h.trans⟩
      by_cases h₁ : l₁.Perm l
      · rw [if_pos h₁, if_pos (hiff.mp h₁)]
      · rw [if_neg h₁, if_neg (fun h₂ => h₁ (hiff.mpr h₂))]
        exact (default : Scan α).congr h }

theorem Scan.along_read {l l' : List α} (h : l'.Perm l) : (Scan.along l).read l' = l := by
  simp [Scan.along, h]

/-- `ORDER BY`: the rows in the order of `le`, ties as the scan reads them. -/
def orderBy (le : α → α → Prop) [DecidableRel le] (scan : Scan α) (rows : List α) : List α :=
  (scan.read rows).insertionSort le

/-- `OFFSET` and `LIMIT`. -/
def slice (offset limit : ℕ) (rows : List α) : List α := (rows.drop offset).take limit

/-- The largest `OFFSET`: drivers bind it to an integer of 64 bits. -/
def maxOffset : ℤ := 2 ^ 63 - 1

section OrderBy

variable {le : α → α → Prop} [DecidableRel le] {scan : Scan α} {rows rows' : List α}

theorem orderBy_perm : (orderBy le scan rows).Perm rows :=
  (List.perm_insertionSort _ _).trans (scan.perm rows)

theorem orderBy_congr (h : rows.Perm rows') : orderBy le scan rows = orderBy le scan rows' := by
  rw [orderBy, orderBy, scan.congr h]

@[simp] theorem orderBy_nil : orderBy le scan [] = [] := List.perm_nil.mp orderBy_perm

@[simp] theorem orderBy_singleton {r : α} : orderBy le scan [r] = [r] :=
  List.perm_singleton.mp orderBy_perm

theorem mem_orderBy {r : α} : r ∈ orderBy le scan rows ↔ r ∈ rows := orderBy_perm.mem_iff

theorem pairwise_orderBy [Std.Total le] [IsTrans α le] :
    (orderBy le scan rows).Pairwise le :=
  List.pairwise_insertionSort _ _

/-- Rows that a scan reads in order stay in that order. -/
theorem orderBy_along {l : List α} (h : rows.Perm l) (hl : l.Pairwise le) :
    orderBy le (Scan.along l) rows = l := by
  rw [orderBy, Scan.along_read h]
  exact List.Pairwise.insertionSort_eq hl

end OrderBy

/-! ## Patterns -/

/-- One element of a `LIKE` pattern. -/
inductive LikeToken where
  | anyString
  | anyChar
  | char (c : Char)
deriving DecidableEq

/-- The elements of a pattern; the character after the escape stands for itself. -/
def likeTokens (escape : Option Char) : List Char → List LikeToken
  | [] => []
  | [c] => if c = '%' then [.anyString] else if c = '_' then [.anyChar] else [.char c]
  | c :: d :: p =>
    if some c = escape then .char d :: likeTokens escape p
    else (if c = '%' then .anyString else if c = '_' then .anyChar else .char c) ::
      likeTokens escape (d :: p)

def likeMatch : List LikeToken → List Char → Bool
  | [], s => s.isEmpty
  | .anyString :: p, s => s.tails.any (likeMatch p)
  | .anyChar :: _, [] => false
  | .anyChar :: p, _ :: s => likeMatch p s
  | .char _ :: _, [] => false
  | .char c :: p, d :: s => c = d && likeMatch p s

/-- `s LIKE pattern`. -/
def like (escape : Option Char) (pattern s : List Char) : Bool :=
  likeMatch (likeTokens escape pattern) s

example : like (some '\\') "%a_c%".toList "xxabcx".toList = true := by decide
example : like (some '\\') "100\\%".toList "1000".toList = false := by decide
example : like none "100\\%".toList "100\\0".toList = true := by decide

end Sql
