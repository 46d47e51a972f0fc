import Mathlib.Data.List.Forall2
import Mathlib.Tactic

/-! Text in HTML. A text whose markup characters are written as character references is
inert; a text with marked parts is inert between the tags of its marks. -/

namespace Markup

/-! ## Escaping -/

def IsMarkup (c : Char) : Prop := c = '<' ∨ c = '>' ∨ c = '&'

instance (c : Char) : Decidable (IsMarkup c) := inferInstanceAs (Decidable (_ ∨ _))

/-- No character of the text is markup. -/
def Plain (text : List Char) : Prop := ∀ c ∈ text, ¬IsMarkup c

instance (text : List Char) : Decidable (Plain text) := List.decidableBAll (¬IsMarkup ·) text

/-- `html` is the text with every markup character, and maybe others, written as a
character reference. -/
inductive Escapes : List Char → List Char → Prop where
  | nil : Escapes [] []
  | literal {c : Char} {text html : List Char} : ¬IsMarkup c → Escapes text html →
      Escapes (c :: text) (c :: html)
  | reference {c : Char} {text html : List Char} (name : List Char) : Plain name →
      Escapes text html → Escapes (c :: text) ('&' :: (name ++ ';' :: html))

section Escaping

variable {text html : List Char}

theorem plain_cons {c : Char} : Plain (c :: text) ↔ ¬IsMarkup c ∧ Plain text := List.forall_mem_cons

theorem Escapes.length_le (h : Escapes text html) : text.length ≤ html.length := by
  induction h with
  | nil => exact le_refl _
  | literal _ _ ih => exact Nat.succ_le_succ ih
  | reference name _ _ ih =>
    simp only [List.length_cons, List.length_append]
    omega

/-- Every reference makes the text longer. -/
theorem Escapes.plain (h : Escapes text html) (hlength : html.length ≤ text.length) : Plain text := by
  induction h with
  | nil => exact fun c hc => absurd hc List.not_mem_nil
  | literal hc _ ih => exact plain_cons.mpr ⟨hc, ih (Nat.le_of_succ_le_succ hlength)⟩
  | reference name _ hrest _ =>
    have hle := hrest.length_le
    simp only [List.length_cons, List.length_append] at hlength
    omega

theorem Plain.escapes (h : Plain text) : Escapes text text := by
  induction text with
  | nil => exact .nil
  | cons c text ih => exact .literal (plain_cons.mp h).1 (ih (plain_cons.mp h).2)

/-- Escaped text begins no tag. -/
theorem Escapes.lt_notMem (h : Escapes text html) : '<' ∉ html := by
  induction h with
  | nil => exact List.not_mem_nil
  | literal hc _ ih =>
    rw [List.mem_cons, not_or]
    exact ⟨fun heq => hc (Or.inl heq.symm), ih⟩
  | reference name hname _ ih =>
    have hin : '<' ∉ name := fun hmem => hname _ hmem (Or.inl rfl)
    simp [hin, ih]

/-- The reference for a character, by an encoder that writes one for quotes and slashes, too. -/
def reference : Char → Option (List Char)
  | '&' => some "amp".toList
  | '<' => some "lt".toList
  | '>' => some "gt".toList
  | '"' => some "quot".toList
  | '\'' => some "#x27".toList
  | '/' => some "#x2F".toList
  | _ => none

def escape (text : List Char) : List Char :=
  text.flatMap fun c => match reference c with
    | some name => '&' :: (name ++ [';'])
    | none => [c]

theorem escapes_escape (text : List Char) : Escapes text (escape text) := by
  induction text with
  | nil => exact .nil
  | cons c text ih =>
    unfold escape
    rw [List.flatMap_cons]
    cases href : reference c with
    | some name =>
      have hname : Plain name := by
        unfold reference at href
        split at href <;> cases href <;> decide
      simpa using .reference name hname ih
    | none =>
      refine .literal (fun hc => ?_) ih
      rcases hc with rfl | rfl | rfl <;> cases href

end Escaping

/-! ## Marked text -/

inductive Piece where
  | plain (text : List Char)
  | marked (text : List Char)

def Piece.text : Piece → List Char
  | .plain text | .marked text => text

variable (openTag closeTag : List Char)

/-- Marked text, with what `encode` makes of each piece. -/
def render (encode : List Char → List Char) (pieces : List Piece) : List Char :=
  pieces.flatMap fun
    | .plain text => encode text
    | .marked text => openTag ++ encode text ++ closeTag

section Render

variable {openTag closeTag : List Char} {encode : List Char → List Char}

theorem render_plain (text : List Char) (pieces : List Piece) :
    render openTag closeTag encode (.plain text :: pieces) =
      encode text ++ render openTag closeTag encode pieces := rfl

theorem render_marked (text : List Char) (pieces : List Piece) :
    render openTag closeTag encode (.marked text :: pieces) =
      openTag ++ encode text ++ closeTag ++ render openTag closeTag encode pieces := rfl

theorem render_append (pieces pieces' : List Piece) :
    render openTag closeTag encode (pieces ++ pieces') =
      render openTag closeTag encode pieces ++ render openTag closeTag encode pieces' :=
  List.flatMap_append

theorem text_subset_render {pieces : List Piece} {piece : Piece} (h : piece ∈ pieces) :
    encode piece.text ⊆ render openTag closeTag encode pieces := by
  intro c hc
  refine List.mem_flatMap.mpr ⟨piece, h, ?_⟩
  cases piece with
  | plain text => exact hc
  | marked text => exact List.mem_append_left _ (List.mem_append_right _ hc)

end Render

/-- The HTML of marked text, whose pieces are escaped: all its markup is that of the marks. -/
inductive Inert : List Piece → List Char → Prop where
  | nil : Inert [] []
  | plain {text html : List Char} {pieces : List Piece} {rest : List Char} :
      Escapes text html → Inert pieces rest → Inert (.plain text :: pieces) (html ++ rest)
  | marked {text html : List Char} {pieces : List Piece} {rest : List Char} :
      Escapes text html → Inert pieces rest →
        Inert (.marked text :: pieces) (openTag ++ html ++ closeTag ++ rest)

section Inertness

variable {openTag closeTag : List Char} {pieces : List Piece} {html : List Char}

theorem Inert.length_le (h : Inert openTag closeTag pieces html) :
    (render openTag closeTag id pieces).length ≤ html.length := by
  induction h with
  | nil => exact le_refl _
  | plain hescapes _ ih =>
    have hle := hescapes.length_le
    rw [render_plain, List.length_append, List.length_append]
    exact add_le_add hle ih
  | marked hescapes _ ih =>
    have hle := hescapes.length_le
    simp only [render_marked, List.length_append, id_eq]
    omega

/-- Inert HTML that is no longer than the pieces as they stand has escaped nothing. -/
theorem Inert.plain_of_length (h : Inert openTag closeTag pieces html)
    (hlength : html.length ≤ (render openTag closeTag id pieces).length) :
    ∀ piece ∈ pieces, Plain piece.text := by
  induction h with
  | nil => exact fun piece hp => absurd hp List.not_mem_nil
  | plain hescapes hrest ih =>
    have hle := hescapes.length_le
    have hle' := hrest.length_le
    simp only [render_plain, List.length_append, id_eq] at hlength
    exact List.forall_mem_cons.mpr ⟨hescapes.plain (by omega), ih (by omega)⟩
  | marked hescapes hrest ih =>
    have hle := hescapes.length_le
    have hle' := hrest.length_le
    simp only [render_marked, List.length_append, id_eq] at hlength
    exact List.forall_mem_cons.mpr ⟨hescapes.plain (by omega), ih (by omega)⟩

theorem inert_of_escapes {encode : List Char → List Char}
    (h : ∀ piece ∈ pieces, Escapes piece.text (encode piece.text)) :
    Inert openTag closeTag pieces (render openTag closeTag encode pieces) := by
  induction pieces with
  | nil => exact .nil
  | cons piece pieces ih =>
    rw [List.forall_mem_cons] at h
    cases piece with
    | plain text => exact .plain h.1 (ih h.2)
    | marked text => exact .marked h.1 (ih h.2)

/-- Pieces as they stand are inert exactly where none of them has markup. -/
theorem inert_render_id_iff :
    Inert openTag closeTag pieces (render openTag closeTag id pieces) ↔
      ∀ piece ∈ pieces, Plain piece.text :=
  ⟨fun h => h.plain_of_length (le_refl _),
    fun h => inert_of_escapes fun piece hp => (h piece hp).escapes⟩

/-- Escaped pieces are always inert. -/
theorem inert_render_escape : Inert openTag closeTag pieces (render openTag closeTag escape pieces) :=
  inert_of_escapes fun piece _ => escapes_escape piece.text

def isMarked : Piece → Bool
  | .plain _ => false
  | .marked _ => true

/-- Inert HTML has no other tags than those of the marks. -/
theorem Inert.count_lt (h : Inert openTag closeTag pieces html) :
    html.count '<' = pieces.countP isMarked * (openTag.count '<' + closeTag.count '<') := by
  induction h with
  | nil => simp
  | plain hescapes _ ih =>
    rw [List.count_append, List.count_eq_zero.mpr hescapes.lt_notMem, ih,
      List.countP_cons_of_neg (by simp [isMarked]), zero_add]
  | marked hescapes _ ih =>
    rw [List.count_append, List.count_append, List.count_append,
      List.count_eq_zero.mpr hescapes.lt_notMem, ih, List.countP_cons_of_pos rfl]
    ring

end Inertness

/-- Marked texts with a separator between them. -/
def join (separator : List Char) : List (List Piece) → List Piece
  | [] => []
  | [line] => line
  | line :: lines => line ++ .plain separator :: join separator lines

theorem forall_mem_join {separator : List Char} (hseparator : Plain separator)
    {lines : List (List Piece)} :
    (∀ piece ∈ join separator lines, Plain piece.text) ↔
      ∀ line ∈ lines, ∀ piece ∈ line, Plain piece.text := by
  induction lines with
  | nil => simp [join]
  | cons line lines ih =>
    cases lines with
    | nil => simp [join]
    | cons line' lines =>
      have hjoin : join separator (line :: line' :: lines) =
          line ++ .plain separator :: join separator (line' :: lines) := rfl
      rw [hjoin, List.forall_mem_append, List.forall_mem_cons, ih,
        List.forall_mem_cons (a := line)]
      exact and_congr_right fun _ => and_iff_right hseparator

end Markup
