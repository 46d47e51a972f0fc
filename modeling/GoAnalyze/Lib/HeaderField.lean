import Mathlib.Data.Bool.AllAny
import Mathlib.Data.List.DropRight
import Mathlib.Data.List.TakeWhile
import Mathlib.Tactic

/-! The grammar of header field values with parameters: tokens, quoted strings in which a
backslash escapes the next character, and extended values that are percent-encoded. -/

namespace HeaderField

/-! ## Characters -/

/-- What holds of the ASCII characters, tried one by one. -/
theorem forall_ascii {motive : Char → Prop} (h : ∀ n < 128, motive (Char.ofNat n)) {c : Char}
    (hc : c.toNat < 128) : motive c := by
  have hn := h c.toNat hc
  rwa [Char.ofNat_toNat] at hn

def isTchar (c : Char) : Bool := c.isAlphanum || c ∈ "!#$%&\x27*+-.^_`|~".toList

/-- A tab, a space or a visible character; those from 128 on stand for bytes of other encodings. -/
def isText (c : Char) : Bool :=
  c = '\t' || 32 ≤ c.toNat && c.toNat < 127 || 128 ≤ c.toNat && c.toNat < 256

/-- A character that stands for itself in a quoted string. -/
def isQdtext (c : Char) : Bool := isText c && c ≠ '"' && c ≠ '\\'

def isAttrChar (c : Char) : Bool := c.isAlphanum || c ∈ "!#$&+-.^_`|~".toList

def isCharsetChar (c : Char) : Bool := c.isAlphanum || c ∈ "!#$%&+-^_`\x7b\x7d~".toList

def isOws (c : Char) : Bool := c = ' ' || c = '\t'

def hexValue (c : Char) : Option ℕ :=
  if 48 ≤ c.toNat ∧ c.toNat ≤ 57 then some (c.toNat - 48)
  else if 65 ≤ c.toNat ∧ c.toNat ≤ 70 then some (c.toNat - 55)
  else if 97 ≤ c.toNat ∧ c.toNat ≤ 102 then some (c.toNat - 87)
  else none

/-! ## Values -/

/-- A token, and what follows it. -/
def token (s : List Char) : Option (List Char × List Char) :=
  if (s.takeWhile isTchar).isEmpty then none else some (s.takeWhile isTchar, s.dropWhile isTchar)

/-- The value of a quoted string from behind its opening quote, and what follows it. -/
def quotedString : List Char → Option (List Char × List Char)
  | [] => none
  | '"' :: s => some ([], s)
  | '\\' :: d :: s =>
    if isText d then (quotedString s).map fun (value, rest) => (d :: value, rest) else none
  | c :: s =>
    if isQdtext c then (quotedString s).map fun (value, rest) => (c :: value, rest) else none

/-- The bytes of a percent-encoded text. -/
def valueChars : List Char → Option (List UInt8)
  | [] => some []
  | '%' :: x :: y :: s => do
    let high ← hexValue x
    let low ← hexValue y
    return UInt8.ofNat (16 * high + low) :: (← valueChars s)
  | c :: s => if isAttrChar c then (valueChars s).map (UInt8.ofNat c.toNat :: ·) else none

structure ExtValue where
  charset : List Char
  language : List Char
  bytes : List UInt8
deriving DecidableEq

/-- `charset "'" [ language ] "'" value-chars`, and what follows it. -/
def extValue (s : List Char) : Option (ExtValue × List Char) :=
  match s.dropWhile isCharsetChar with
  | '\x27' :: s' =>
    let isLanguageChar (c : Char) : Bool := c.isAlphanum || c = '-'
    match s'.dropWhile isLanguageChar with
    | '\x27' :: s'' =>
      let isValueChar (c : Char) : Bool := isAttrChar c || c = '%'
      (valueChars (s''.takeWhile isValueChar)).map fun bytes =>
        (⟨s.takeWhile isCharsetChar, s'.takeWhile isLanguageChar, bytes⟩,
          s''.dropWhile isValueChar)
    | _ => none
  | _ => none

/-! ## Parameters -/

inductive Parameter where
  | regular (name value : List Char)
  | extended (name : List Char) (value : ExtValue)
deriving DecidableEq

/-- `name "=" value`, where the value of a name that ends in `*` is an extended one. -/
def parameter (s : List Char) : Option (Parameter × List Char) := do
  match ← token s with
  | (name, '=' :: s) =>
    if name.getLast? = some '*' then
      (extValue s).map fun (value, rest) => (.extended name value, rest)
    else match s with
      | '"' :: s => (quotedString s).map fun (value, rest) => (.regular name value, rest)
      | s => (token s).map fun (value, rest) => (.regular name value, rest)
  | _ => none

/-- At most `n` parameters up to the end, each behind a semicolon. -/
def parameters : ℕ → List Char → Option (List Parameter)
  | 0, s => if (s.dropWhile isOws).isEmpty then some [] else none
  | n + 1, s =>
    match s.dropWhile isOws with
    | [] => some []
    | ';' :: s => do
      let (p, rest) ← parameter (s.dropWhile isOws)
      return p :: (← parameters n rest)
    | _ => none

structure Disposition where
  type : List Char
  parameters : List Parameter
deriving DecidableEq

/-- `disposition-type *( ";" disposition-parm )`. -/
def disposition (s : List Char) : Option Disposition := do
  let (type, rest) ← token s
  return ⟨type, ← parameters rest.length rest⟩

theorem parameters_succ (n : ℕ) (s : List Char) : parameters (n + 1) (';' :: s) =
    (parameter (s.dropWhile isOws)).bind fun (p, rest) => (parameters n rest).map (p :: ·) := by
  have hsemicolon : (';' :: s).dropWhile isOws = ';' :: s := rfl
  simp only [parameters, hsemicolon, Option.map_eq_bind]
  rfl

theorem parameters_nil (n : ℕ) : parameters n [] = some [] := by
  cases n <;> rfl

/-! ## Quoted strings -/

section QuotedString

variable {c : Char} {s t : List Char}

theorem quotedString_cons (hc : isQdtext c) (s : List Char) : quotedString (c :: s) =
    (quotedString s).map fun (value, rest) => (c :: value, rest) := by
  have hne : c ≠ '"' ∧ c ≠ '\\' := by
    simp only [isQdtext, Bool.and_eq_true, decide_eq_true_eq] at hc
    exact ⟨hc.1.2, hc.2⟩
  rw [quotedString, if_pos hc]
  · exact hne.1
  · exact fun _ _ h _ => hne.2 h

theorem quotedString_append (ht : ∀ c ∈ t, isQdtext c) (s : List Char) :
    quotedString (t ++ '"' :: s) = some (t, s) := by
  induction t with
  | nil => rfl
  | cons c t ih =>
    rw [List.cons_append, quotedString_cons (ht c List.mem_cons_self),
      ih fun d hd => ht d (List.mem_cons_of_mem c hd)]
    rfl

/-- Without a quote a quoted string does not end. -/
theorem quotedString_eq_none (hs : '"' ∉ s) : quotedString s = none := by
  induction s using quotedString.induct with
  | case1 => rfl
  | case2 s => exact absurd List.mem_cons_self hs
  | case3 d s hd ih => simp [quotedString, ih fun h => hs (by simp [h])]
  | case4 d s hd => simp [quotedString, hd]
  | case5 c s _ _ hc ih => rw [quotedString_cons hc, ih fun h => hs (by simp [h]), Option.map_none]
  | case6 c s hquote hbackslash hc =>
    rw [quotedString, if_neg hc]
    · exact hquote
    · exact hbackslash

/-- An escape makes the value shorter than its text, and one right before the end takes
the closing quote. -/
theorem isQdtext_of_quotedString {value rest : List Char} (ht : '"' ∉ t) (hs : '"' ∉ s)
    (h : quotedString (t ++ '"' :: s) = some (value, rest)) :
    value.length ≤ t.length ∧ (value.length = t.length → ∀ c ∈ t, isQdtext c) := by
  induction t using quotedString.induct generalizing value with
  | case1 =>
    obtain ⟨rfl, -⟩ := Prod.mk.inj (Option.some.inj h)
    simp
  | case2 t => exact absurd List.mem_cons_self ht
  | case3 d t hd ih =>
    simp only [List.cons_append, quotedString, hd, if_true, Option.map_eq_some_iff] at h
    obtain ⟨⟨value', rest'⟩, hrec, heq⟩ := h
    obtain ⟨rfl, rfl⟩ := Prod.mk.inj heq
    have hle := (ih (fun h => ht (by simp [h])) hrec).1
    simp only [List.length_cons]
    omega
  | case4 d t hd => simp [quotedString, hd] at h
  | case5 c t _ _ hc ih =>
    rw [List.cons_append, quotedString_cons hc, Option.map_eq_some_iff] at h
    obtain ⟨⟨value', rest'⟩, hrec, heq⟩ := h
    obtain ⟨rfl, rfl⟩ := Prod.mk.inj heq
    obtain ⟨hle, hall⟩ := ih (fun h => ht (by simp [h])) hrec
    simp only [List.length_cons, List.forall_mem_cons]
    exact ⟨by omega, fun hlen => ⟨hc, hall (by omega)⟩⟩
  | case6 c t hquote hbackslash hc =>
    have hnone : quotedString (c :: t ++ '"' :: s) = none := by
      cases t with
      | nil =>
        by_cases hslash : c = '\\'
        · subst hslash
          simp [quotedString, quotedString_eq_none hs]
        · rw [List.cons_append, quotedString, if_neg hc]
          · exact hquote
          · exact fun _ _ h _ => hslash h
      | cons d t =>
        rw [List.cons_append, quotedString, if_neg hc]
        · exact hquote
        · exact fun _ _ h _ => hbackslash d t h rfl
    rw [hnone] at h
    cases h

end QuotedString

/-! ## Percent-encoding -/

section Percent

variable {b : UInt8} {c x y : Char} {t : List Char} {f : UInt8 → List Char}

theorem isAttrChar_of_hexValue {v : ℕ} (h : hexValue c = some v) : isAttrChar c := by
  have hascii : c.toNat < 128 := by
    unfold hexValue at h
    split_ifs at h <;> omega
  have hall : (hexValue c).isSome → isAttrChar c :=
    forall_ascii (motive := fun c => (hexValue c).isSome → isAttrChar c) (by decide +kernel) hascii
  exact hall (h ▸ rfl)

theorem toNat_of_isAlphanum (h : c.isAlphanum) : 32 < c.toNat ∧ c.toNat < 127 := by
  have hranges : c.isAlphanum = ((decide (c.val ≥ 'A'.val ∧ c.val ≤ 'Z'.val) ||
      (decide (c.val ≥ 'a'.val) && decide (c.val ≤ 'z'.val))) ||
      (decide (c.val ≥ '0'.val) && decide (c.val ≤ '9'.val))) := rfl
  simp only [hranges, Bool.or_eq_true, Bool.and_eq_true, decide_eq_true_eq, ge_iff_le,
    UInt32.le_iff_toNat_le, Char.toNat_val] at h
  have hlit : 'A'.toNat = 65 ∧ 'Z'.toNat = 90 ∧ 'a'.toNat = 97 ∧ 'z'.toNat = 122 ∧
    '0'.toNat = 48 ∧ '9'.toNat = 57 := by decide
  omega

/-- The characters of an extended value are visible ASCII. -/
theorem toNat_of_isAttrChar (h : isAttrChar c) : 32 < c.toNat ∧ c.toNat < 127 := by
  rcases Bool.or_eq_true_iff.mp h with halnum | hmem
  · exact toNat_of_isAlphanum halnum
  · have hall : ∀ c ∈ "!#$&+-.^_`|~".toList, 32 < c.toNat ∧ c.toNat < 127 :=
      List.all_iff_forall_prop.mp (by decide)
    exact hall c (of_decide_eq_true hmem)

/-- A text that percent-decodes to one byte. -/
inductive EncodesByte (b : UInt8) : List Char → Prop where
  | attr {c : Char} (hc : isAttrChar c) (hb : UInt8.ofNat c.toNat = b) : EncodesByte b [c]
  | percent {x y : Char} {high low : ℕ} (hx : hexValue x = some high) (hy : hexValue y = some low)
    (hb : UInt8.ofNat (16 * high + low) = b) : EncodesByte b ['%', x, y]

theorem EncodesByte.valueChars_append (h : EncodesByte b t) (s : List Char) :
    valueChars (t ++ s) = (valueChars s).map (b :: ·) := by
  cases h with
  | attr hc hb =>
    subst hb
    rw [List.singleton_append, valueChars, if_pos hc]
    rintro x y s rfl
    exact absurd hc (by decide)
  | percent hx hy hb =>
    subst hb
    simp only [List.cons_append, List.nil_append, valueChars, hx, hy]
    cases valueChars s <;> rfl

theorem valueChars_flatMap (h : ∀ b, EncodesByte b (f b)) (bytes : List UInt8) :
    valueChars (bytes.flatMap f) = some bytes := by
  induction bytes with
  | nil => rfl
  | cons b bytes ih => rw [List.flatMap_cons, (h b).valueChars_append, ih, Option.map_some]

theorem EncodesByte.isAttrChar (h : EncodesByte b t) :
    ∀ c ∈ t, (HeaderField.isAttrChar c || c = '%') := by
  cases h with
  | attr hc hb => simp [hc]
  | percent hx hy hb => simp [isAttrChar_of_hexValue hx, isAttrChar_of_hexValue hy]

theorem extValue_utf8 (h : ∀ b, EncodesByte b (f b)) (bytes : List UInt8) :
    extValue ("UTF-8''".toList ++ bytes.flatMap f) =
      some (⟨"UTF-8".toList, [], bytes⟩, []) := by
  have hall : ∀ c ∈ bytes.flatMap f, (HeaderField.isAttrChar c || c = '%') := by
    intro c hc
    obtain ⟨b, -, hc⟩ := List.mem_flatMap.mp hc
    exact (h b).isAttrChar c hc
  have hlit : "UTF-8''".toList = ['U', 'T', 'F', '-', '8', '\x27', '\x27'] := rfl
  rw [hlit]
  change (valueChars ((bytes.flatMap f).takeWhile _)).map (fun bytes' =>
    ((⟨"UTF-8".toList, [], bytes'⟩ : ExtValue), (bytes.flatMap f).dropWhile _)) = _
  rw [List.takeWhile_eq_self_iff.mpr hall, List.dropWhile_eq_nil_iff.mpr hall,
    valueChars_flatMap h, Option.map_some]

end Percent

/-! ## Blanks around a value -/

section Infix

variable {α : Type*} {needle a b : List α} {c : α} {p : α → Bool}

/-- A text without a separator is on one side of it. -/
theorem infix_append_cons_iff (h : c ∉ needle) :
    needle <:+: a ++ c :: b ↔ needle <:+: a ∨ needle <:+: b := by
  constructor
  · rintro ⟨s, t, heq⟩
    rcases List.append_eq_append_iff.mp heq with ⟨u, rfl, -⟩ | ⟨u, hleft, hright⟩
    · exact Or.inl ⟨s, u, rfl⟩
    · cases u with
      | nil => exact Or.inl ⟨s, [], by simpa using hleft⟩
      | cons d u =>
        obtain ⟨rfl, rfl⟩ := List.cons.inj hright
        rcases List.append_eq_append_iff.mp hleft with ⟨u', -, rfl⟩ | ⟨u', rfl, hneedle⟩
        · exact absurd (List.mem_append_right u' List.mem_cons_self) h
        · cases u' with
          | nil =>
            rw [List.nil_append] at hneedle
            exact absurd (hneedle ▸ List.mem_cons_self) h
          | cons d' u' =>
            obtain ⟨rfl, rfl⟩ := List.cons.inj hneedle
            exact Or.inr ⟨u', t, rfl⟩
  · rintro (h | h)
    · exact h.trans (List.prefix_append _ _).isInfix
    · exact h.trans ((List.suffix_cons c b).trans (List.suffix_append _ _)).isInfix

theorem infix_dropWhile_iff (h : ∀ x ∈ needle, ¬ p x) (hne : needle ≠ []) :
    needle <:+: a.dropWhile p ↔ needle <:+: a := by
  refine ⟨fun hin => hin.trans (List.dropWhile_suffix p).isInfix, fun hin => ?_⟩
  induction a with
  | nil => exact hin
  | cons x a ih =>
    rw [List.dropWhile_cons]
    split_ifs with hx
    · refine ih ((List.infix_cons_iff.mp hin).resolve_left ?_)
      rintro ⟨t, ht⟩
      cases needle with
      | nil => exact hne rfl
      | cons y needle =>
        obtain ⟨rfl, -⟩ := List.cons.inj ht
        exact h y List.mem_cons_self hx
    · exact hin

theorem infix_rdropWhile_iff (h : ∀ x ∈ needle, ¬ p x) (hne : needle ≠ []) :
    needle <:+: a.rdropWhile p ↔ needle <:+: a := by
  rw [← List.reverse_infix, List.rdropWhile, List.reverse_reverse,
    infix_dropWhile_iff (fun x hx => h x (List.mem_reverse.mp hx)) (by simpa using hne),
    List.reverse_infix]

end Infix

/-- A field value without the blanks around it. -/
def trim (s : List Char) : List Char := (s.dropWhile isOws).rdropWhile isOws

theorem infix_trim_iff {needle s : List Char} (h : ∀ c ∈ needle, ¬ isOws c) (hne : needle ≠ []) :
    needle <:+: trim s ↔ needle <:+: s := by
  rw [trim, infix_rdropWhile_iff h hne, infix_dropWhile_iff h hne]

end HeaderField
