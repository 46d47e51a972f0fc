import Mathlib.Algebra.Order.Group.Defs
import Mathlib.Data.List.Count
import Mathlib.Tactic

/-! Fixed-window counting. Of the entries of a log, each in one life of a counter, a
life admits a bounded number; lives last so long that no window meets three. -/

namespace FixedWindow

variable {α : Type*}

/-- If only the first `limit` entries can be admitted, at most so many are. -/
theorem countP_le_of_index (admitted : α → Bool) (limit : ℕ) {log : List α}
    (h : ∀ j a, log[j]? = some a → admitted a → j < limit) :
    log.countP admitted ≤ min log.length limit := by
  have hrest : (log.drop limit).countP admitted = 0 := by
    refine List.countP_eq_zero.mpr fun a ha hadm => ?_
    obtain ⟨j, hj⟩ := List.mem_iff_getElem?.mp ha
    rw [List.getElem?_drop] at hj
    have := h _ _ hj hadm
    omega
  calc log.countP admitted
      = (log.take limit).countP admitted + (log.drop limit).countP admitted := by
        rw [← List.countP_append, List.take_append_drop]
    _ ≤ (log.take limit).length := by rw [hrest]; exact List.countP_le_length
    _ = min log.length limit := by rw [List.length_take, Nat.min_comm]

/-- If exactly the first `limit` entries are admitted, it is that many. -/
theorem countP_eq_of_index (admitted : α → Bool) (limit : ℕ) {log : List α}
    (h : ∀ j a, log[j]? = some a → (admitted a ↔ j < limit)) :
    log.countP admitted = min log.length limit := by
  refine le_antisymm (countP_le_of_index admitted limit fun j a hj ha => (h j a hj).mp ha) ?_
  have hfirst : (log.take limit).countP admitted = (log.take limit).length := by
    refine List.countP_eq_length.mpr fun a ha => ?_
    obtain ⟨j, hj⟩ := List.mem_iff_getElem?.mp ha
    rw [List.getElem?_take] at hj
    split_ifs at hj with hlt
    exact (h j a hj).mpr hlt
  calc min log.length limit = (log.take limit).length := by rw [List.length_take, Nat.min_comm]
    _ = (log.take limit).countP admitted := hfirst.symm
    _ ≤ log.countP admitted := (List.take_sublist _ _).countP_le

/-- What two predicates cover is counted under the one or the other. -/
theorem countP_le_add_filter (admitted q r : α → Bool) {log : List α}
    (h : ∀ a ∈ log, q a ∨ r a) :
    log.countP admitted ≤ (log.filter q).countP admitted + (log.filter r).countP admitted := by
  simp only [List.countP_filter]
  induction log with
  | nil => simp
  | cons a log ih =>
    have hrec := ih fun b hb => h b (List.mem_cons_of_mem _ hb)
    have ha := h a List.mem_cons_self
    simp only [List.countP_cons, Bool.and_eq_true]
    split_ifs <;> first | omega | simp_all

variable {T : Type*} [AddCommMonoid T] [LinearOrder T] [IsOrderedCancelAddMonoid T]

/-- Entries two lives apart are a window apart. -/
def Spaced (life : α → ℕ) (time : α → T) (window : T) (log : List α) : Prop :=
  ∀ a ∈ log, ∀ b ∈ log, life a + 1 < life b → time a + window ≤ time b

/-- A half-open window meets two lives at most, so it admits twice what one does. -/
theorem Spaced.countP_window_le {life : α → ℕ} {time : α → T} {window : T} {log : List α}
    (h : Spaced life time window log) (admitted : α → Bool) {limit : ℕ}
    (hlife : ∀ l, (log.filter (life · = l)).countP admitted ≤ limit) (t : T) :
    (log.filter fun a => t ≤ time a ∧ time a < t + window).countP admitted ≤ 2 * limit := by
  set inside := log.filter fun a => t ≤ time a ∧ time a < t + window with hinside
  rcases inside.eq_nil_or_concat' with hnil | ⟨_, _, hne⟩
  · simp [hnil]
  · have hnonempty : (inside.map life).toFinset.Nonempty := by simp [hne]
    set first := (inside.map life).toFinset.min' hnonempty with hfirst
    obtain ⟨a, ha, hlifea⟩ : ∃ a ∈ inside, life a = first := by
      simpa using (inside.map life).toFinset.min'_mem hnonempty
    have hmem : ∀ b ∈ inside, b ∈ log ∧ t ≤ time b ∧ time b < t + window := fun b hb => by
      simpa [hinside] using hb
    -- an entry of a third life would come a window after `a`
    have hlives : ∀ b ∈ inside, life b = first ∨ life b = first + 1 := by
      intro b hb
      have hle : first ≤ life b := Finset.min'_le _ _ (by simpa using ⟨b, hb, rfl⟩)
      obtain ⟨halog, hta, -⟩ := hmem a ha
      obtain ⟨hblog, -, htb⟩ := hmem b hb
      by_contra hcon
      have hspaced := h a halog b hblog (by omega)
      exact absurd (htb.trans_le ((add_le_add_left hta window).trans hspaced)) (lt_irrefl _)
    have hbound : ∀ l, (inside.filter (life · = l)).countP admitted ≤ limit := fun l =>
      ((List.filter_sublist.filter _).countP_le).trans (hlife l)
    have hsplit : inside.countP admitted ≤ (inside.filter (life · = first)).countP admitted +
        (inside.filter (life · = first + 1)).countP admitted :=
      countP_le_add_filter admitted _ _ fun b hb => by simpa using hlives b hb
    have hone := hbound first
    have htwo := hbound (first + 1)
    omega

end FixedWindow
