import Mathlib.Data.List.Nodup
import Mathlib.Tactic

/-! Hash-linked lists: every entry names the hash of the entry before it. A
linked list has one root and no fork, its order is determined by its entries,
and its last hash determines all of it when the hash seals each entry. -/

namespace HashChain

variable {E H : Type*} (prev hash : E → Option H)

/-- The hash a new entry has to name: the hash of the last entry, or `p` before
the first one. -/
def headFrom (p : Option H) (es : List E) : Option H := es.foldl (fun _ e => hash e) p

/-- Every entry names the hash of the entry before it, and the first one `p`. -/
def Linked : Option H → List E → Prop
  | _, [] => True
  | p, e :: es => prev e = p ∧ Linked (hash e) es

variable {prev hash}

@[simp] theorem headFrom_nil (p : Option H) : headFrom hash p [] = p := rfl

@[simp] theorem headFrom_append_singleton (p : Option H) (es : List E) (e : E) :
    headFrom hash p (es ++ [e]) = hash e := by
  simp [headFrom]

theorem headFrom_eq_of_ne_nil {es : List E} (h : es ≠ []) (p : Option H) :
    headFrom hash p es = hash (es.getLast h) := by
  obtain ⟨es, e, rfl⟩ := List.eq_nil_or_concat' es |>.resolve_left h
  simp

theorem headFrom_none (es : List E) : headFrom hash none es = es.getLast?.bind hash := by
  rcases List.eq_nil_or_concat' es with rfl | ⟨es, e, rfl⟩ <;> simp

@[simp] theorem linked_nil (p : Option H) : Linked prev hash p [] := trivial

theorem linked_map {E' : Type*} {prev' hash' : E' → Option H} {f : E → E'}
    (hprev : ∀ e, prev' (f e) = prev e) (hhash : ∀ e, hash' (f e) = hash e) {p : Option H}
    {es : List E} : Linked prev' hash' p (es.map f) ↔ Linked prev hash p es := by
  induction es generalizing p with
  | nil => rfl
  | cons e es ih => simp only [List.map_cons, Linked, hprev, hhash, ih]

theorem linked_append {p : Option H} {es fs : List E} :
    Linked prev hash p (es ++ fs) ↔
      Linked prev hash p es ∧ Linked prev hash (headFrom hash p es) fs := by
  induction es generalizing p with
  | nil => simp [headFrom]
  | cons e es ih =>
    simp only [List.cons_append, Linked, ih, headFrom, List.foldl_cons]
    tauto

/-- One more entry keeps the list linked exactly when it names the head. -/
theorem linked_append_singleton {p : Option H} {es : List E} {e : E} :
    Linked prev hash p (es ++ [e]) ↔
      Linked prev hash p es ∧ prev e = headFrom hash p es := by
  simp [linked_append, Linked]

/-- The hashes named are those of all entries but the last, after `p`. -/
theorem map_prev_of_linked {p : Option H} {es : List E} (h : Linked prev hash p es) :
    es.map prev = (p :: es.map hash).take es.length := by
  induction es generalizing p with
  | nil => rfl
  | cons e es ih =>
    obtain ⟨rfl, h⟩ := h
    simp [ih h]

theorem prev_mem_of_linked {p : Option H} {es : List E} (h : Linked prev hash p es) {e : E}
    (he : e ∈ es) : prev e = p ∨ ∃ e' ∈ es, hash e' = prev e := by
  have hmem : prev e ∈ (p :: es.map hash).take es.length := by
    rw [← map_prev_of_linked h]
    exact List.mem_map_of_mem he
  rcases List.mem_cons.mp (List.mem_of_mem_take hmem) with hp | hh
  · exact Or.inl hp
  · obtain ⟨e', he', heq⟩ := List.mem_map.mp hh
    exact Or.inr ⟨e', he', heq⟩

/-! ## Root, predecessors, forks -/

section Distinct

variable {es : List E} (hl : Linked prev hash none es)

include hl

/-- A nonempty chain has exactly one root: all later entries name a hash. -/
theorem existsUnique_root (hsome : ∀ e ∈ es, hash e ≠ none) (hne : es ≠ []) :
    ∃! e, e ∈ es ∧ prev e = none := by
  obtain ⟨e, es', rfl⟩ := List.exists_cons_of_ne_nil hne
  refine ⟨e, ⟨by simp, hl.1⟩, ?_⟩
  rintro f ⟨hf, hroot⟩
  rcases List.mem_cons.mp hf with rfl | hf
  · rfl
  · rcases prev_mem_of_linked hl.2 hf with hp | ⟨f', hf', heq⟩
    · exact absurd (hp.symm.trans hroot) (hsome e (by simp))
    · exact absurd (heq.trans hroot) (hsome f' (by simp [hf']))

variable (hnd : (es.map hash).Nodup)

include hnd

/-- Every other entry names the hash of exactly one entry. -/
theorem existsUnique_pred {e : E} (he : e ∈ es) (hprev : prev e ≠ none) :
    ∃! e', e' ∈ es ∧ hash e' = prev e := by
  rcases prev_mem_of_linked hl he with hp | ⟨e', he', heq⟩
  · exact absurd hp hprev
  · refine ⟨e', ⟨he', heq⟩, ?_⟩
    rintro f ⟨hf, hfeq⟩
    exact List.inj_on_of_nodup_map hnd hf he' (hfeq.trans heq.symm)

variable (hsome : ∀ e ∈ es, hash e ≠ none)

include hsome

theorem map_prev_nodup : (es.map prev).Nodup := by
  rw [map_prev_of_linked hl]
  refine (List.take_sublist _ _).nodup (List.nodup_cons.mpr ⟨?_, hnd⟩)
  rintro hmem
  obtain ⟨e, he, heq⟩ := List.mem_map.mp hmem
  exact hsome e he heq

/-- No two entries name the same hash. -/
theorem eq_of_prev_eq {e e' : E} (he : e ∈ es) (he' : e' ∈ es) (h : prev e = prev e') : e = e' :=
  List.inj_on_of_nodup_map (map_prev_nodup hl hnd hsome) he he' h

end Distinct

/-- The entries of a chain determine its order. -/
theorem eq_of_perm {es fs : List E} (hsome : ∀ e ∈ es, hash e ≠ none)
    (hnd : (es.map hash).Nodup) (he : Linked prev hash none es)
    (hf : Linked prev hash none fs) (hp : fs.Perm es) : fs = es := by
  have key : ∀ (p : Option H) (done es fs : List E), Linked prev hash p es →
      Linked prev hash p fs → fs.Perm es → ((done ++ es).map prev).Nodup → fs = es := by
    intro p done es
    induction es generalizing p done with
    | nil => intro fs _ _ hp _; exact hp.eq_nil
    | cons e es ih =>
      intro fs he hf hp hnd
      have hne : fs ≠ [] := by rintro rfl; simpa using hp.length_eq
      obtain ⟨f, fs, rfl⟩ := List.exists_cons_of_ne_nil hne
      -- both first entries name the same hash, so they are one entry
      obtain rfl : f = e := by
        have hfe : f ∈ done ++ e :: es := List.mem_append_right _ (hp.subset (by simp))
        exact List.inj_on_of_nodup_map hnd hfe (by simp) (hf.1.trans he.1.symm)
      rw [ih (hash f) (done ++ [f]) fs he.2 hf.2 hp.cons_inv (by simpa using hnd)]
  exact key none [] es fs he hf hp (by simpa using map_prev_nodup he hnd hsome)

/-! ## Tamper evidence -/

/-- Two chains that end in the same hash are equal entry by entry up to `R`,
when equal hashes force `R` and `R` keeps the hash named. The induction runs
from the last entries back to the roots. -/
theorem forall₂_of_last_hash_eq {R : E → E → Prop} {es fs : List E}
    (hseal : ∀ e ∈ es, ∀ f ∈ fs, hash e = hash f → R e f)
    (hprev : ∀ e f, R e f → prev e = prev f)
    (hes : ∀ e ∈ es, hash e ≠ none) (hfs : ∀ f ∈ fs, hash f ≠ none)
    (he : Linked prev hash none es) (hf : Linked prev hash none fs)
    (hlast : headFrom hash none es = headFrom hash none fs) : List.Forall₂ R es fs := by
  induction es using List.reverseRecOn generalizing fs with
  | nil =>
    rcases List.eq_nil_or_concat' fs with rfl | ⟨fs, f, rfl⟩
    · exact .nil
    · simp only [headFrom_nil, headFrom_append_singleton] at hlast
      exact absurd hlast.symm (hfs f (by simp))
  | append_singleton es e ih =>
    rcases List.eq_nil_or_concat' fs with rfl | ⟨fs, f, rfl⟩
    · simp only [headFrom_nil, headFrom_append_singleton] at hlast
      exact absurd hlast (hes e (by simp))
    · simp only [headFrom_append_singleton] at hlast
      have hR := hseal e (by simp) f (by simp) hlast
      obtain ⟨he, hpe⟩ := linked_append_singleton.mp he
      obtain ⟨hf, hpf⟩ := linked_append_singleton.mp hf
      have hheads : headFrom hash none es = headFrom hash none fs := by
        rw [← hpe, ← hpf]
        exact hprev e f hR
      have hrest := ih (fun e he f hf => hseal e (by simp [he]) f (by simp [hf]))
        (fun e he => hes e (by simp [he])) (fun f hf => hfs f (by simp [hf])) he hf hheads
      exact List.rel_append hrest (.cons hR .nil)

end HashChain
