import Mathlib.Data.List.Basic
import Mathlib.Tactic

/-! Analyzed text fields of a search index: the tokens of a value, and which values a
term finds. -/

namespace TextIndex

/-- A segment of a list that is as long as the list is the whole, without separators. -/
theorem eq_of_mem_splitOnP {α : Type*} {p : α → Bool} {xs segment : List α}
    (h : segment ∈ xs.splitOnP p) :
    segment.length ≤ xs.length ∧
      (segment.length = xs.length → segment = xs ∧ ∀ x ∈ xs, p x = false) := by
  induction xs generalizing segment with
  | nil =>
    rw [List.splitOnP_nil, List.mem_singleton] at h
    exact ⟨by rw [h], fun _ => ⟨h, List.forall_mem_nil _⟩⟩
  | cons x xs ih =>
    rw [List.splitOnP_cons_eq_if_modifyHead] at h
    split_ifs at h with hx
    · rcases List.mem_cons.mp h with rfl | hrest
      · exact ⟨Nat.zero_le _, fun hlength => by simp at hlength⟩
      · have hle := (ih hrest).1
        rw [List.length_cons]
        exact ⟨by omega, fun hlength => by omega⟩
    · cases hsplit : xs.splitOnP p with
      | nil => exact absurd hsplit (List.splitOnP_ne_nil p xs)
      | cons first rest =>
        rw [hsplit, List.modifyHead_cons] at h
        rcases List.mem_cons.mp h with rfl | hrest
        · have hmem : first ∈ xs.splitOnP p := by
            rw [hsplit]
            exact List.mem_cons_self
          obtain ⟨hle, heq⟩ := ih hmem
          refine ⟨Nat.succ_le_succ hle, fun hlength => ?_⟩
          obtain ⟨hfirst, hnone⟩ := heq (Nat.succ.inj hlength)
          exact ⟨by rw [hfirst], List.forall_mem_cons.mpr ⟨Bool.eq_false_iff.mpr hx, hnone⟩⟩
        · have hmem : segment ∈ xs.splitOnP p := by
            rw [hsplit]
            exact List.mem_cons_of_mem _ hrest
          have hle := (ih hmem).1
          rw [List.length_cons]
          exact ⟨by omega, fun hlength => by omega⟩

/-- An analyzer: it splits a value at separators, and lowers the case of the pieces. -/
structure Analyzer where
  separator : Char → Bool
  lower : Char → Char

namespace Analyzer

variable (A : Analyzer)

/-- The tokens of a value. -/
def tokens (value : String) : List String :=
  ((value.toList.splitOnP A.separator).filter (· ≠ [])).map fun piece =>
    String.ofList (piece.map A.lower)

/-- Words of ASCII letters, digits and underscores. -/
def ascii : Analyzer where
  separator := fun c => !c.isAlphanum && c ≠ '_'
  lower := Char.toLower

example : ascii.tokens "Ministry-of/Health 2" = ["ministry", "of", "health", "2"] := by decide

/-- A single word, in lower case. -/
def IsWord (value : String) : Prop :=
  value ≠ "" ∧ ∀ c ∈ value.toList, A.separator c = false ∧ A.lower c = c

/-- A value is found under itself exactly where it is a single word in lower case. -/
theorem mem_tokens_self {value : String} : value ∈ A.tokens value ↔ A.IsWord value := by
  unfold tokens IsWord
  simp only [List.mem_map, List.mem_filter, decide_eq_true_eq]
  constructor
  · rintro ⟨piece, ⟨hpiece, hne⟩, hvalue⟩
    have hchars : piece.map A.lower = value.toList := by rw [← hvalue, String.toList_ofList]
    have hlength : piece.length = value.toList.length := by rw [← hchars, List.length_map]
    obtain ⟨rfl, hnone⟩ := (eq_of_mem_splitOnP hpiece).2 hlength
    refine ⟨fun hempty => hne (by rw [hempty]; rfl), fun c hc => ⟨hnone c hc, ?_⟩⟩
    exact List.map_inj_left.mp (hchars.trans (List.map_id _).symm) c hc
  · rintro ⟨hne, hword⟩
    refine ⟨value.toList, ⟨?_, fun h => hne (String.toList_eq_nil_iff.mp h)⟩, ?_⟩
    · rw [List.splitOnP_eq_singleton fun c hc => (hword c hc).1]
      exact List.mem_singleton_self _
    · rw [List.map_congr_left fun c hc => (hword c hc).2, List.map_id', String.ofList_toList]

end Analyzer

end TextIndex
