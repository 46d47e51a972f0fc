import Mathlib.Data.List.Basic
import Mathlib.Logic.Function.Basic
import Mathlib.Tactic

/-! Records of which some fields are known, and stores into which such records are merged.
What a store holds is compared with the history of what was written: whether it comes from
the history, and whether it is the last of it. -/

namespace Fragments

variable {φ κ : Type*} {V : φ → Type*}

/-! ## Records -/

/-- A record of which some fields are known. -/
abbrev Fragment (V : φ → Type*) := ∀ f, Option (V f)

def Fragment.empty : Fragment V := fun _ => none

/-- The fields of `new`, and those of `old` that `new` does not have. -/
def Fragment.over (new old : Fragment V) : Fragment V := fun f => (new f).or (old f)

/-- What was written last into each field. -/
def latest (writes : List (Fragment V)) : Fragment V := fun f => (writes.filterMap (· f)).getLast?

theorem latest_append (ws ws' : List (Fragment V)) :
    latest (ws ++ ws') = (latest ws').over (latest ws) := by
  funext f
  simp [latest, Fragment.over, List.filterMap_append, List.getLast?_append]

/-! ## Histories -/

/-- A record with the key it is written under. -/
abbrev Write (κ : Type*) (V : φ → Type*) := κ × Fragment V

variable [DecidableEq κ]

/-- What was written last under a key into each field. -/
def latestFor (k : κ) (history : List (Write κ V)) : Fragment V :=
  latest ((history.filter (·.1 = k)).map Prod.snd)

theorem latestFor_append (k : κ) (history ws : List (Write κ V)) :
    latestFor k (history ++ ws) = (latestFor k ws).over (latestFor k history) := by
  simp only [latestFor, List.filter_append, List.map_append, latest_append]

theorem latestFor_singleton (k : κ) (w : Write κ V) :
    latestFor k [w] = if w.1 = k then w.2 else .empty := by
  funext f
  by_cases hk : w.1 = k
  · cases hf : w.2 f <;> simp [latestFor, latest, hk, hf]
  · simp [latestFor, latest, hk, Fragment.empty]

/-! ## Stores -/

abbrev Store (κ : Type*) (V : φ → Type*) := κ → Option (Fragment V)

/-- The record is laid over the one that the store holds under its key. -/
def Store.merge (store : Store κ V) (w : Write κ V) : Store κ V :=
  Function.update store w.1 (some (w.2.over ((store w.1).getD .empty)))

def Store.mergeAll (store : Store κ V) (ws : List (Write κ V)) : Store κ V := ws.foldl .merge store

variable {store : Store κ V} {history ws : List (Write κ V)}

@[simp] theorem mergeAll_cons (w : Write κ V) :
    store.mergeAll (w :: ws) = (store.merge w).mergeAll ws := rfl

theorem merge_of_ne {k : κ} {w : Write κ V} (hk : k ≠ w.1) : store.merge w k = store k := by
  rw [Store.merge, Function.update_of_ne hk]

/-- A field of the record under the key of a write is written now or held before. -/
theorem held_of_merge {w : Write κ V} {d : Fragment V} {f : φ} {v : V f}
    (hd : store.merge w w.1 = some d) (hv : d f = some v) :
    w.2 f = some v ∨ w.2 f = none ∧ ∃ old, store w.1 = some old ∧ old f = some v := by
  obtain rfl : w.2.over ((store w.1).getD .empty) = d := by simpa [Store.merge] using hd
  refine (Option.or_eq_some_iff.mp hv).imp_right fun ⟨hnone, hold⟩ => ⟨hnone, ?_⟩
  cases hstore : store w.1 with
  | none => simp [hstore, Fragment.empty] at hold
  | some old => exact ⟨old, rfl, by simpa [hstore] using hold⟩

/-- The fields of the store come from the history. -/
def Sourced (store : Store κ V) (history : List (Write κ V)) : Prop :=
  ∀ k d, store k = some d → ∀ f v, d f = some v → ∃ w ∈ history, w.1 = k ∧ w.2 f = some v

omit [DecidableEq κ] in
theorem Sourced.mono {history' : List (Write κ V)} (h : Sourced store history)
    (hsub : history ⊆ history') : Sourced store history' := by
  intro k d hd f v hv
  obtain ⟨w, hw, hkey⟩ := h k d hd f v hv
  exact ⟨w, hsub hw, hkey⟩

theorem Sourced.merge (h : Sourced store history) (w : Write κ V) :
    Sourced (store.merge w) (history ++ [w]) := by
  intro k d hd f v hv
  by_cases hk : k = w.1
  · subst hk
    rcases held_of_merge hd hv with hnew | ⟨-, old, hold, hv⟩
    · exact ⟨w, by simp, rfl, hnew⟩
    · obtain ⟨w', hw', hkey⟩ := h _ old hold f v hv
      exact ⟨w', List.mem_append_left _ hw', hkey⟩
  · rw [merge_of_ne hk] at hd
    obtain ⟨w', hw', hkey⟩ := h k d hd f v hv
    exact ⟨w', List.mem_append_left _ hw', hkey⟩

theorem Sourced.mergeAll (h : Sourced store history) (ws : List (Write κ V)) :
    Sourced (store.mergeAll ws) (history ++ ws) := by
  induction ws generalizing store history with
  | nil => simpa [Store.mergeAll] using h
  | cons w ws ih => simpa using ih (h.merge w)

/-- Everything written is found in the store, and what the store holds of it was written
last. -/
structure Current (store : Store κ V) (history : List (Write κ V)) : Prop where
  found : ∀ w ∈ history, store w.1 ≠ none
  latest : ∀ k d, store k = some d → ∀ f v, d f = some v → latestFor k history f = some v

theorem Current.merge (h : Current store history) (w : Write κ V) :
    Current (store.merge w) (history ++ [w]) := by
  refine ⟨fun w' hw' => ?_, fun k d hd f v hv => ?_⟩
  · by_cases hk : w'.1 = w.1
    · simp [Store.merge, hk]
    · rw [merge_of_ne hk]
      rcases List.mem_append.mp hw' with hw' | hw'
      · exact h.found w' hw'
      · exact absurd (congrArg Prod.fst (List.mem_singleton.mp hw')) hk
  · rw [latestFor_append, latestFor_singleton, Fragment.over]
    by_cases hk : w.1 = k
    · subst hk
      rw [if_pos rfl]
      rcases held_of_merge hd hv with hnew | ⟨hnone, old, hold, hv⟩
      · rw [hnew, Option.some_or]
      · rw [hnone, Option.none_or]
        exact h.latest _ old hold f v hv
    · rw [merge_of_ne (Ne.symm hk)] at hd
      rw [if_neg hk, Fragment.empty, Option.none_or]
      exact h.latest k d hd f v hv

theorem Current.mergeAll (h : Current store history) (ws : List (Write κ V)) :
    Current (store.mergeAll ws) (history ++ ws) := by
  induction ws generalizing store history with
  | nil => simpa [Store.mergeAll] using h
  | cons w ws ih => simpa using ih (h.merge w)

/-- The store holds a record under every key of the writes, and in no field of it anything
else than what they write last. -/
structure Covers (store : Store κ V) (ws : List (Write κ V)) : Prop where
  found : ∀ w ∈ ws, store w.1 ≠ none
  agrees : ∀ k d, store k = some d → ∀ f v v', d f = some v → latestFor k ws f = some v' → v' = v

/-- Writes that are not merged leave the store current exactly if it covers them. -/
theorem Current.append_iff (h : Current store history) :
    Current store (history ++ ws) ↔ Covers store ws := by
  constructor
  · intro h'
    refine ⟨fun w hw => h'.found w (List.mem_append_right _ hw), fun k d hd f v v' hv hv' => ?_⟩
    have hlast := h'.latest k d hd f v hv
    rw [latestFor_append, Fragment.over, hv', Option.some_or] at hlast
    exact Option.some.inj hlast
  · intro hcovers
    refine ⟨fun w hw => ?_, fun k d hd f v hv => ?_⟩
    · rcases List.mem_append.mp hw with hw | hw
      · exact h.found w hw
      · exact hcovers.found w hw
    · rw [latestFor_append, Fragment.over]
      cases hlast : latestFor k ws f with
      | none => exact h.latest k d hd f v hv
      | some v' => rw [hcovers.agrees k d hd f v v' hv hlast, Option.some_or]

end Fragments
