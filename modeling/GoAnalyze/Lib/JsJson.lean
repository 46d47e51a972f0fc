import GoAnalyze.Lib.JsonRead
import Mathlib.Data.Bool.AllAny
import Mathlib.Data.List.Forall2

/-! JSON as JavaScript writes and reads it: `JSON.stringify` without blanks, `JSON.parse`, and
the round trip. A number is its shortest decimal, and is not rounded when it is read; a string
is well-formed. -/

namespace JsJson

open JsonText (Decimal Parts digits spanDigits readExp readDigits readBody skipBlanks isBlank
  writeFraction unicodeEscape IsDigits NoDigit NumEnd)

/-! ## Values -/

/-- A finite number; `0` and `-0` are the same. -/
structure Num where
  decimal : Decimal
  zero_pos : decimal.mant = 0 → decimal.neg = false

theorem Num.eq_of_decimal {x y : Num} (h : x.decimal = y.decimal) : x = y := by
  cases x
  cases y
  cases h
  rfl

theorem neg_ofScaled (neg : Bool) (m : ℕ) (e : ℤ)
    (h : (Decimal.ofScaled (neg && m != 0) m e).mant = 0) :
    (Decimal.ofScaled (neg && m != 0) m e).neg = false := by
  by_cases hm : m = 0
  · simp [Decimal.ofScaled, hm]
  · have hmod := JsonText.strip_mod m m e le_rfl hm
    simp only [Decimal.ofScaled, hm, dite_false] at h
    omega

def Num.ofScaled (neg : Bool) (m : ℕ) (e : ℤ) : Num :=
  ⟨.ofScaled (neg && m != 0) m e, neg_ofScaled neg m e⟩

theorem Num.decimal_ofScaled (neg : Bool) (m : ℕ) (e : ℤ) :
    (Num.ofScaled neg m e).decimal = .ofScaled (neg && m != 0) m e := rfl

/-- The members of an object are its own properties in the order of their enumeration. -/
inductive Value where
  | null
  | bool (b : Bool)
  | number (x : Num)
  | string (s : String)
  | array (xs : List Value)
  | object (ms : List (String × Value))

/-! ## Properties of objects -/

def arrayIndex (key : String) : Option ℕ :=
  let n := Nat.ofDigitChars 10 key.toList 0
  if digits n = key.toList ∧ n < 4294967295 then some n else none

/-- A property that is there is written over. Array indices come first, in their order, and
other new properties come last. -/
def createDataProperty (ms : List (String × Value)) (key : String) (v : Value) :
    List (String × Value) :=
  if ms.any (·.1 = key) then ms.map fun m => if m.1 = key then (key, v) else m
  else match arrayIndex key with
    | none => ms ++ [(key, v)]
    | some n =>
      let before (m : String × Value) : Bool := (arrayIndex m.1).any (· < n)
      ms.takeWhile before ++ (key, v) :: ms.dropWhile before

/-- The properties of an object with the members of a text. -/
def ownProperties (ms : List (String × Value)) : List (String × Value) :=
  ms.foldl (fun own m => createDataProperty own m.1 m.2) []

mutual
/-- Every object in the value has its properties in order. -/
def Value.Ordered : Value → Prop
  | .array xs => OrderedAll xs
  | .object ms => ownProperties ms = ms ∧ OrderedMembers ms
  | .null | .bool _ | .number _ | .string _ => True

def OrderedAll : List Value → Prop
  | [] => True
  | x :: xs => x.Ordered ∧ OrderedAll xs

def OrderedMembers : List (String × Value) → Prop
  | [] => True
  | (_, v) :: ms => v.Ordered ∧ OrderedMembers ms
end

/-! ## `JSON.stringify` -/

def Num.parts (x : Num) : Parts :=
  let ds := digits x.decimal.mant
  let n := x.decimal.decpt
  if ds.length ≤ n ∧ n ≤ 21 then ⟨ds ++ List.replicate (n.toNat - ds.length) '0', [], none⟩
  else if 0 < n ∧ n ≤ 21 then ⟨ds.take n.toNat, ds.drop n.toNat, none⟩
  else if -6 < n ∧ n ≤ 0 then ⟨['0'], List.replicate (-n).toNat '0' ++ ds, none⟩
  else ⟨ds.take 1, ds.drop 1, some (n - 1)⟩

def writeExponent : Option ℤ → List Char
  | none => []
  | some e => 'e' :: (if e < 0 then '-' else '+') :: digits e.natAbs

def writeParts (p : Parts) : List Char := p.ip ++ (writeFraction p.fp ++ writeExponent p.exp)

def numberToString (x : Num) : List Char :=
  if x.decimal.neg then '-' :: writeParts x.parts else writeParts x.parts

example : String.ofList (numberToString (.ofScaled false 5 20)) = "500000000000000000000" := by
  decide
example : String.ofList (numberToString (.ofScaled true 15 (-8))) = "-1.5e-7" := by decide

def quoteChar (c : Char) : List Char :=
  if c = '\x08' then ['\\', 'b']
  else if c = '\t' then ['\\', 't']
  else if c = '\n' then ['\\', 'n']
  else if c = '\x0c' then ['\\', 'f']
  else if c = '\r' then ['\\', 'r']
  else if c = '"' then ['\\', '"']
  else if c = '\\' then ['\\', '\\']
  else if c.toNat < 0x20 then unicodeEscape c.toNat
  else [c]

def quote (s : String) : List Char := '"' :: (s.toList.flatMap quoteChar ++ ['"'])

mutual
def stringify : Value → List Char
  | .null => "null".toList
  | .bool true => "true".toList
  | .bool false => "false".toList
  | .number x => numberToString x
  | .string s => quote s
  | .array xs => '[' :: ([','].intercalate (texts xs) ++ [']'])
  | .object ms => '{' :: ([','].intercalate (memberTexts ms) ++ ['}'])

def texts : List Value → List (List Char)
  | [] => []
  | x :: xs => stringify x :: texts xs

def memberTexts : List (String × Value) → List (List Char)
  | [] => []
  | (key, v) :: ms => (quote key ++ ':' :: stringify v) :: memberTexts ms
end

/-! ## `JSON.parse` -/

def readFraction : List Char → Option (List Char × List Char)
  | '.' :: cs => if (spanDigits cs).1 = [] then none else some (spanDigits cs)
  | cs => some ([], cs)

def readExponent : List Char → Option (ℤ × List Char)
  | 'e' :: cs | 'E' :: cs => readExp cs
  | cs => some (0, cs)

/-- A number without its sign: no zero stands before another digit. -/
def readMagnitude (neg : Bool) (cs : List Char) : Option (Num × List Char) := do
  let ip := (spanDigits cs).1
  if ip = ['0'] ∨ ip ≠ [] ∧ ip.head? ≠ some '0' then
    let fraction ← readFraction (spanDigits cs).2
    let exponent ← readExponent fraction.2
    return (.ofScaled neg (Nat.ofDigitChars 10 (ip ++ fraction.1) 0)
      (exponent.1 - fraction.1.length), exponent.2)
  else none

def readNumber : List Char → Option (Num × List Char)
  | '-' :: cs => readMagnitude true cs
  | cs => readMagnitude false cs

section Items

variable {α : Type} (item : List Char → Option (α × List Char)) (close : Char)

/-- Items with commas between them, up to the closing character. -/
def readItems : ℕ → List Char → Option (List α × List Char)
  | 0, _ => none
  | n + 1, cs => do
    let x ← item cs
    match skipBlanks x.2 with
    | ',' :: r => (readItems n r).map fun p => (x.1 :: p.1, p.2)
    | c :: r => if c = close then some ([x.1], r) else none
    | [] => none

def readList (n : ℕ) (cs : List Char) : Option (List α × List Char) :=
  match skipBlanks cs with
  | c :: r => if c = close then some ([], r) else readItems item close n (c :: r)
  | [] => none

end Items

/-- A key, a colon and a value. -/
def readMember (value : List Char → Option (Value × List Char)) (cs : List Char) :
    Option ((String × Value) × List Char) :=
  match skipBlanks cs with
  | '"' :: r => do
    let key ← readBody r
    match skipBlanks key.2 with
    | ':' :: r => (value r).map fun p => ((String.ofList key.1, p.1), p.2)
    | _ => none
  | _ => none

/-- The fuel bounds the nesting and the number of items. -/
def readValue : ℕ → List Char → Option (Value × List Char)
  | 0, _ => none
  | n + 1, cs => match skipBlanks cs with
    | 'n' :: 'u' :: 'l' :: 'l' :: r => some (.null, r)
    | 't' :: 'r' :: 'u' :: 'e' :: r => some (.bool true, r)
    | 'f' :: 'a' :: 'l' :: 's' :: 'e' :: r => some (.bool false, r)
    | '"' :: r => (readBody r).map fun p => (.string (String.ofList p.1), p.2)
    | '[' :: r => (readList (readValue n) ']' n r).map fun p => (.array p.1, p.2)
    | '{' :: r => (readList (readMember (readValue n)) '}' n r).map fun p =>
        (.object (ownProperties p.1), p.2)
    | r => (readNumber r).map fun p => (.number p.1, p.2)

/-- A value takes at least one character, so the length of the text is enough fuel. -/
def parse (cs : List Char) : Option Value :=
  match readValue (cs.length + 1) cs with
  | some (v, r) => if skipBlanks r = [] then some v else none
  | none => none

/-! ## Round trip: numbers -/

theorem head?_digits {n : ℕ} (hn : n ≠ 0) : (digits n).head? ≠ some '0' := by
  induction n using Nat.strongRecOn with
  | ind n ih =>
    rw [digits, Nat.toDigits_eq_if (by norm_num)]
    split_ifs with hlt
    · have hall : ∀ d < 10, d ≠ 0 → [Nat.digitChar d].head? ≠ some '0' := by decide
      exact hall n hlt hn
    · rw [List.head?_append_of_ne_nil _ Nat.toDigits_ne_nil]
      exact ih (n / 10) (by omega) (by omega)

theorem isDigits_zero : IsDigits ['0'] := ⟨List.forall_mem_singleton.mpr (by decide), by decide⟩

/-- The digits before the point: no zero stands before another digit. -/
structure IntegerPart (ip : List Char) : Prop extends IsDigits ip where
  strict : ip = ['0'] ∨ ip.head? ≠ some '0'

/-- The digits of a number that is not zero, as far as `n > 0`, and followed by any. -/
theorem integerPart_take {m n : ℕ} (hm : m ≠ 0) (hn : 0 < n) (zeros : List Char)
    (hzeros : ∀ c ∈ zeros, c.isDigit = true) : IntegerPart ((digits m).take n ++ zeros) := by
  obtain ⟨d, ds, hds⟩ := List.exists_cons_of_ne_nil (JsonText.isDigits_digits m).ne_nil
  obtain ⟨n, rfl⟩ : ∃ n', n = n' + 1 := ⟨n - 1, by omega⟩
  have hhead := head?_digits hm
  rw [hds, List.head?_cons] at hhead
  refine ⟨⟨JsonText.append_isDigit (fun c hc => ?_) hzeros, by simp [hds]⟩, Or.inr ?_⟩
  · exact (JsonText.isDigits_digits m).isDigit c (List.mem_of_mem_take hc)
  · rwa [hds, List.take_succ_cons, List.cons_append, List.head?_cons]

theorem Num.parts_spec (x : Num) : IntegerPart x.parts.ip ∧
    (∀ c ∈ x.parts.fp, c.isDigit = true) ∧
    ∃ k : ℕ, Nat.ofDigitChars 10 (x.parts.ip ++ x.parts.fp) 0 = x.decimal.mant * 10 ^ k ∧
      x.parts.exp.getD 0 - x.parts.fp.length = x.decimal.exp - k := by
  have hd := JsonText.isDigits_digits x.decimal.mant
  have hlen : 0 < (digits x.decimal.mant).length := List.length_pos_of_ne_nil hd.ne_nil
  have hpt : x.decimal.decpt = (digits x.decimal.mant).length + x.decimal.exp := rfl
  have hdrop : ∀ n, ∀ c ∈ (digits x.decimal.mant).drop n, c.isDigit = true :=
    fun n c hc => hd.isDigit c (List.mem_of_mem_drop hc)
  have hvalue := JsonText.ofDigitChars_digits x.decimal.mant
  by_cases hm : x.decimal.mant = 0
  · -- `0`
    have hexp : x.decimal.exp = 0 := by
      rcases x.decimal.canonical with ⟨-, hexp⟩ | hmod
      · exact hexp
      · omega
    have hparts : x.parts = ⟨['0'], [], none⟩ := by
      simp [Num.parts, Decimal.decpt, hm, hexp]
    rw [hparts]
    exact ⟨⟨isDigits_zero, Or.inl rfl⟩, nofun, 0, by rw [hm]; rfl, by simp [hexp]⟩
  have htake : ∀ n, 0 < n → IntegerPart ((digits x.decimal.mant).take n) := fun n hn => by
    simpa using integerPart_take hm hn [] nofun
  by_cases h1 : (digits x.decimal.mant).length ≤ x.decimal.decpt ∧ x.decimal.decpt ≤ 21
  · -- `ddd000`
    simp only [Num.parts, if_pos h1]
    have hwhole := integerPart_take hm hlen
      (List.replicate (x.decimal.decpt.toNat - (digits x.decimal.mant).length) '0')
      (JsonText.replicate_zero_isDigit _)
    rw [List.take_length] at hwhole
    refine ⟨hwhole, nofun, x.decimal.decpt.toNat - (digits x.decimal.mant).length, ?_, ?_⟩
    · rw [List.append_nil, Nat.ofDigitChars_append, hvalue, Nat.ofDigitChars_replicate_zero,
        Nat.mul_comm]
    · simp only [Option.getD_none, List.length_nil]
      omega
  · by_cases h2 : 0 < x.decimal.decpt ∧ x.decimal.decpt ≤ 21
    · -- `dd.d`
      simp only [Num.parts, if_neg h1, if_pos h2]
      refine ⟨htake _ (by omega), hdrop _, 0, ?_, ?_⟩
      · rw [List.take_append_drop, hvalue, pow_zero, Nat.mul_one]
      · simp only [Option.getD_none, List.length_drop]
        omega
    · by_cases h3 : -6 < x.decimal.decpt ∧ x.decimal.decpt ≤ 0
      · -- `0.000ddd`
        simp only [Num.parts, if_neg h1, if_neg h2, if_pos h3]
        refine ⟨⟨isDigits_zero, Or.inl rfl⟩,
          JsonText.append_isDigit (JsonText.replicate_zero_isDigit _) hd.isDigit, 0, ?_, ?_⟩
        · rw [List.singleton_append, Nat.ofDigitChars_cons, Nat.ofDigitChars_append]
          simp [Nat.ofDigitChars_replicate_zero]
        · simp only [Option.getD_none, List.length_append, List.length_replicate]
          omega
      · -- `d.dde+x`
        simp only [Num.parts, if_neg h1, if_neg h2, if_neg h3]
        refine ⟨htake 1 Nat.one_pos, hdrop 1, 0, ?_, ?_⟩
        · rw [List.take_append_drop, hvalue, pow_zero, Nat.mul_one]
        · simp only [Option.getD_some, List.length_drop]
          omega

theorem noDigit_writeExponent (e : Option ℤ) {r : List Char} (hr : NumEnd r) :
    NoDigit (writeExponent e ++ r) := by
  cases e with
  | none => exact hr.noDigit
  | some e =>
    intro c hc
    obtain rfl : 'e' = c := by simpa [writeExponent] using hc
    decide

theorem readExponent_write (e : Option ℤ) {r : List Char} (hr : NumEnd r) :
    readExponent (writeExponent e ++ r) = some (e.getD 0, r) := by
  cases e with
  | none =>
    rw [writeExponent, List.nil_append, readExponent.eq_def]
    split
    · exact absurd rfl (hr 'e' (by simp)).2.2.1
    · exact absurd rfl (hr 'E' (by simp)).2.2.2
    · rfl
  | some e =>
    have hdigits := JsonText.readDigits_append (JsonText.isDigits_digits e.natAbs) hr.noDigit
    rw [JsonText.ofDigitChars_digits] at hdigits
    simp only [writeExponent, List.cons_append, readExponent, Option.getD_some]
    split_ifs with hneg
    · simp only [readExp, hdigits, Option.map_some, Option.some.injEq, Prod.mk.injEq, and_true]
      omega
    · simp only [readExp, hdigits, Option.some.injEq, Prod.mk.injEq, and_true]
      omega

theorem readFraction_write {fp : List Char} (hfp : ∀ c ∈ fp, c.isDigit = true) (e : Option ℤ)
    {r : List Char} (hr : NumEnd r) :
    readFraction (writeFraction fp ++ (writeExponent e ++ r)) =
      some (fp, writeExponent e ++ r) := by
  by_cases hnil : fp = []
  · subst hnil
    have hdot : ∀ t, writeExponent e ++ r ≠ '.' :: t := by
      intro t heq
      cases e with
      | none =>
        rw [writeExponent, List.nil_append] at heq
        exact absurd rfl (hr '.' (by simp [heq])).2.1
      | some e => exact absurd (List.cons.inj heq).1 (by decide)
    rw [writeFraction, if_pos rfl, List.nil_append, readFraction.eq_def]
    split
    · next heq => exact absurd heq (hdot _)
    · rfl
  · rw [writeFraction, if_neg hnil, List.cons_append, readFraction,
      JsonText.spanDigits_append hfp (noDigit_writeExponent e hr), if_neg hnil]

theorem readMagnitude_parts (x : Num) {r : List Char} (hr : NumEnd r) :
    readMagnitude x.decimal.neg (writeParts x.parts ++ r) = some (x, r) := by
  obtain ⟨hip, hfp, k, hmant, hexp⟩ := x.parts_spec
  have hspan : spanDigits (writeParts x.parts ++ r) =
      (x.parts.ip, writeFraction x.parts.fp ++ (writeExponent x.parts.exp ++ r)) := by
    rw [writeParts, List.append_assoc, List.append_assoc]
    refine JsonText.spanDigits_append hip.isDigit ?_
    exact JsonText.noDigit_fraction _ (noDigit_writeExponent _ hr)
  have hstrict : x.parts.ip = ['0'] ∨ x.parts.ip ≠ [] ∧ x.parts.ip.head? ≠ some '0' :=
    hip.strict.imp_right fun h => ⟨hip.ne_nil, h⟩
  have hscale : Num.ofScaled x.decimal.neg (x.decimal.mant * 10 ^ k) (x.decimal.exp - k) = x := by
    refine Num.eq_of_decimal ?_
    have hneg : (x.decimal.neg && x.decimal.mant * 10 ^ k != 0) = x.decimal.neg := by
      by_cases hm : x.decimal.mant = 0
      · rw [x.zero_pos hm, Bool.false_and]
      · simp [hm]
    rw [Num.decimal_ofScaled, hneg, Decimal.ofScaled_scale]
  simp only [readMagnitude, hspan, if_pos hstrict, readFraction_write hfp _ hr,
    readExponent_write _ hr, Option.bind_eq_bind, Option.bind_some, hmant, hexp, hscale,
    Option.pure_def]

/-- A number begins with its sign or with a digit. -/
def NumStart (c : Char) : Prop := c = '-' ∨ c.isDigit = true

theorem numberToString_cons (x : Num) : ∃ c t, numberToString x = c :: t ∧ NumStart c := by
  obtain ⟨hip, -⟩ := x.parts_spec
  obtain ⟨d, ds, hds⟩ := List.exists_cons_of_ne_nil hip.ne_nil
  unfold numberToString
  split_ifs
  · exact ⟨'-', _, rfl, Or.inl rfl⟩
  · exact ⟨d, _, by rw [writeParts, hds, List.cons_append],
      Or.inr (hip.isDigit d (hds ▸ List.mem_cons_self))⟩

theorem readNumber_numberToString (x : Num) {r : List Char} (hr : NumEnd r) :
    readNumber (numberToString x ++ r) = some (x, r) := by
  have hread := readMagnitude_parts x hr
  obtain ⟨hip, -⟩ := x.parts_spec
  obtain ⟨d, ds, hds⟩ := List.exists_cons_of_ne_nil hip.ne_nil
  have hd : d ≠ '-' := by
    rintro rfl
    exact absurd (hip.isDigit '-' (hds ▸ List.mem_cons_self)) (by decide)
  unfold numberToString
  split_ifs with hneg
  · rw [hneg] at hread
    exact hread
  · rw [Bool.eq_false_iff.mpr hneg] at hread
    rw [writeParts, hds, List.cons_append, List.cons_append] at hread ⊢
    rw [readNumber.eq_def]
    split
    · next heq => exact absurd (List.cons.inj heq).1 hd
    · exact hread

/-! ## Round trip: strings -/

theorem readBody_quoteChar (c : Char) (r : List Char) :
    readBody (quoteChar c ++ r) = (readBody r).map fun p => (c :: p.1, p.2) := by
  unfold quoteChar
  split_ifs with h1 h2 h3 h4 h5 h6 h7 h8
  · subst h1; simp [readBody]
  · subst h2; simp [readBody]
  · subst h3; simp [readBody]
  · subst h4; simp [readBody]
  · subst h5; simp [readBody]
  · subst h6; simp [readBody]
  · subst h7; simp [readBody]
  · rw [JsonText.readBody_unicodeEscape (by omega) (by omega), Char.ofNat_toNat]
  · exact JsonText.readBody_cons h6 h7 h8 r

theorem readBody_quote (s : String) (r : List Char) :
    readBody (s.toList.flatMap quoteChar ++ '"' :: r) = some (s.toList, r) :=
  JsonText.readBody_flatMap readBody_quoteChar s.toList r

/-! ## Round trip: items -/

section Items

variable {α : Type} {item : List Char → Option (α × List Char)} {close : Char}

/-- The text is read as `x`, whatever follows it. -/
def Reads (item : List Char → Option (α × List Char)) (x : α) (text : List Char) : Prop :=
  ∀ r, NumEnd r → item (text ++ r) = some (x, r)

/-- The character ends a list: it is no blank, no comma, and no part of a number. -/
structure Closes (close : Char) : Prop where
  blank : isBlank close = false
  comma : close ≠ ','
  numEnd : ∀ r, NumEnd (close :: r)

theorem numEnd_comma (r : List Char) : NumEnd (',' :: r) := by simp [NumEnd]

theorem readItems_intercalate (hclose : Closes close) {xs : List α} {ts : List (List Char)}
    (h : List.Forall₂ (Reads item) xs ts) (hne : xs ≠ []) {n : ℕ} (hn : xs.length ≤ n)
    (r : List Char) :
    readItems item close n ([','].intercalate ts ++ close :: r) = some (xs, r) := by
  induction h generalizing n with
  | nil => exact absurd rfl hne
  | @cons x t xs ts hx hxs ih =>
    obtain ⟨n, rfl⟩ : ∃ n', n = n' + 1 := ⟨n - 1, by simp only [List.length_cons] at hn; omega⟩
    cases hxs with
    | nil =>
      rw [List.intercalate_singleton, readItems, hx _ (hclose.numEnd r)]
      simp only [Option.bind_eq_bind, Option.bind_some, JsonText.skipBlanks_cons hclose.blank]
      split
      · next heq => exact absurd (List.cons.inj heq).1 hclose.comma
      · next heq =>
        obtain ⟨rfl, rfl⟩ := List.cons.inj heq
        rw [if_pos rfl]
      · next heq => exact absurd heq (List.cons_ne_nil _ _)
    | @cons y u ys us hy hys =>
      have hrest := ih (List.cons_ne_nil y ys) (n := n)
        (by simp only [List.length_cons] at hn ⊢; omega)
      rw [List.intercalate_cons_cons, List.append_assoc, List.append_assoc,
        List.singleton_append, readItems, hx _ (numEnd_comma _)]
      simp only [Option.bind_eq_bind, Option.bind_some,
        JsonText.skipBlanks_cons (show isBlank ',' = false by decide), hrest, Option.map_some]

/-- The text of an item begins neither with a blank nor with the closing character. -/
def Begins (close : Char) (text : List Char) : Prop :=
  ∃ c t, text = c :: t ∧ isBlank c = false ∧ c ≠ close

theorem readList_intercalate (hclose : Closes close) {xs : List α} {ts : List (List Char)}
    (h : List.Forall₂ (Reads item) xs ts) (hbegins : ∀ t ∈ ts, Begins close t) {n : ℕ}
    (hn : xs.length ≤ n) (r : List Char) :
    readList item close n ([','].intercalate ts ++ close :: r) = some (xs, r) := by
  cases h with
  | nil =>
    rw [List.intercalate_nil, List.nil_append, readList, JsonText.skipBlanks_cons hclose.blank]
    simp only [if_true]
  | @cons x t xs ts hx hxs =>
    have hitems := readItems_intercalate hclose (.cons hx hxs) (List.cons_ne_nil x xs) hn r
    obtain ⟨c, s, rfl, hblank, hne⟩ := hbegins t List.mem_cons_self
    obtain ⟨s', hs'⟩ : ∃ s', [','].intercalate ((c :: s) :: ts) ++ close :: r = c :: s' := by
      cases ts with
      | nil => exact ⟨_, by rw [List.intercalate_singleton, List.cons_append]⟩
      | cons t ts => exact ⟨_, by rw [List.intercalate_cons_cons]; rfl⟩
    rw [hs'] at hitems ⊢
    rw [readList, JsonText.skipBlanks_cons hblank]
    simp only [if_neg hne, hitems]

end Items

theorem length_le_intercalate {ts : List (List Char)} :
    ∀ t ∈ ts, t.length ≤ ([','].intercalate ts).length := by
  induction ts with
  | nil => exact nofun
  | cons u ts ih =>
    cases ts with
    | nil => simp
    | cons v ts =>
      intro t ht
      rw [List.intercalate_cons_cons, List.length_append, List.length_append]
      rcases List.mem_cons.mp ht with rfl | ht
      · omega
      · have hle := ih t ht
        omega

theorem count_le_intercalate {ts : List (List Char)} (h : ∀ t ∈ ts, t ≠ []) :
    ts.length ≤ ([','].intercalate ts).length := by
  induction ts with
  | nil => exact Nat.zero_le _
  | cons u ts ih =>
    have hu := List.length_pos_of_ne_nil (h u List.mem_cons_self)
    cases ts with
    | nil =>
      rw [List.intercalate_singleton]
      exact hu
    | cons v ts =>
      have hle := ih fun t ht => h t (List.mem_cons_of_mem u ht)
      rw [List.intercalate_cons_cons, List.length_append, List.length_append, List.length_cons]
      omega

/-! ## Round trip: values -/

theorem closes_bracket : Closes ']' := ⟨by decide, by decide, fun r => by simp [NumEnd]⟩

theorem closes_brace : Closes '}' := ⟨by decide, by decide, fun r => by simp [NumEnd]⟩

theorem ne_of_numStart {c d : Char} (hc : NumStart c) (hd : d ≠ '-') (hdigit : d.isDigit = false) :
    c ≠ d := by
  rintro rfl
  rcases hc with rfl | hc
  · exact hd rfl
  · rw [hc] at hdigit
    cases hdigit

theorem isBlank_of_numStart {c : Char} (hc : NumStart c) : isBlank c = false := by
  have hne : ∀ d ∈ [' ', '\t', '\n', '\r'], d ≠ '-' ∧ d.isDigit = false :=
    List.all_iff_forall_prop.mp (by decide)
  simp only [isBlank, decide_eq_false_iff_not, not_or]
  exact ⟨ne_of_numStart hc (hne ' ' (by simp)).1 (hne ' ' (by simp)).2,
    ne_of_numStart hc (hne '\t' (by simp)).1 (hne '\t' (by simp)).2,
    ne_of_numStart hc (hne '\n' (by simp)).1 (hne '\n' (by simp)).2,
    ne_of_numStart hc (hne '\r' (by simp)).1 (hne '\r' (by simp)).2⟩

theorem begins_stringify (v : Value) : Begins ']' (stringify v) := by
  match v with
  | .null => exact ⟨'n', _, rfl, by decide, by decide⟩
  | .bool true => exact ⟨'t', _, rfl, by decide, by decide⟩
  | .bool false => exact ⟨'f', _, rfl, by decide, by decide⟩
  | .string s => exact ⟨'"', _, rfl, by decide, by decide⟩
  | .array xs => exact ⟨'[', _, rfl, by decide, by decide⟩
  | .object ms => exact ⟨'{', _, rfl, by decide, by decide⟩
  | .number x =>
    obtain ⟨c, t, heq, hc⟩ := numberToString_cons x
    exact ⟨c, t, heq, isBlank_of_numStart hc, ne_of_numStart hc (by decide) (by decide)⟩

theorem begins_texts (xs : List Value) : ∀ t ∈ texts xs, Begins ']' t := by
  induction xs with
  | nil => exact nofun
  | cons x xs ih => exact List.forall_mem_cons.mpr ⟨begins_stringify x, ih⟩

theorem begins_memberTexts (ms : List (String × Value)) : ∀ t ∈ memberTexts ms, Begins '}' t := by
  induction ms with
  | nil => exact nofun
  | cons m ms ih =>
    exact List.forall_mem_cons.mpr ⟨⟨'"', _, rfl, by decide, by decide⟩, ih⟩

theorem Begins.ne_nil {close : Char} {t : List Char} (h : Begins close t) : t ≠ [] := by
  obtain ⟨c, s, rfl, -⟩ := h
  exact List.cons_ne_nil c s

theorem length_texts (xs : List Value) : (texts xs).length = xs.length := by
  induction xs with
  | nil => rfl
  | cons x xs ih => simp only [texts, List.length_cons, ih]

theorem length_memberTexts (ms : List (String × Value)) : (memberTexts ms).length = ms.length := by
  induction ms with
  | nil => rfl
  | cons m ms ih => simp only [memberTexts, List.length_cons, ih]

theorem reads_number (n : ℕ) (x : Num) :
    Reads (readValue (n + 1)) (.number x) (numberToString x) := by
  intro r hr
  have hread := readNumber_numberToString x hr
  obtain ⟨c, t, heq, hc⟩ := numberToString_cons x
  rw [heq, List.cons_append] at hread ⊢
  have hne : ∀ d ∈ ['n', 't', 'f', '"', '[', '{'], c ≠ d := by
    have hall : ∀ d ∈ ['n', 't', 'f', '"', '[', '{'], d ≠ '-' ∧ d.isDigit = false :=
      List.all_iff_forall_prop.mp (by decide)
    exact fun d hd => ne_of_numStart hc (hall d hd).1 (hall d hd).2
  rw [readValue, JsonText.skipBlanks_cons (isBlank_of_numStart hc)]
  split
  all_goals first
    | (next h => exact absurd (List.cons.inj h).1 (hne _ (by simp)))
    | rw [hread]; rfl

theorem reads_member {n : ℕ} {v : Value} (key : String)
    (h : Reads (readValue n) v (stringify v)) :
    Reads (readMember (readValue n)) (key, v) (quote key ++ ':' :: stringify v) := by
  intro r hr
  have htext : quote key ++ ':' :: stringify v ++ r =
      '"' :: (key.toList.flatMap quoteChar ++ '"' :: (':' :: (stringify v ++ r))) := by
    simp [quote]
  rw [htext, readMember, JsonText.skipBlanks_cons (by decide)]
  simp only [readBody_quote, Option.bind_eq_bind, Option.bind_some,
    JsonText.skipBlanks_cons (show isBlank ':' = false by decide), h r hr, Option.map_some,
    String.ofList_toList]

mutual
/-- The text of a value is read back, whatever follows it. -/
theorem reads_stringify : ∀ (v : Value) (n : ℕ), v.Ordered → (stringify v).length ≤ n →
    Reads (readValue n) v (stringify v)
  | v, 0, _, h => absurd (Nat.le_zero.mp h)
      (List.length_pos_of_ne_nil (begins_stringify v).ne_nil).ne'
  | .null, n + 1, _, _ => fun r _ => by simp [readValue, stringify, JsonText.skipBlanks, isBlank]
  | .bool true, n + 1, _, _ => fun r _ => by
    simp [readValue, stringify, JsonText.skipBlanks, isBlank]
  | .bool false, n + 1, _, _ => fun r _ => by
    simp [readValue, stringify, JsonText.skipBlanks, isBlank]
  | .number x, n + 1, _, _ => reads_number n x
  | .string s, n + 1, _, _ => fun r _ => by
    have htext : stringify (.string s) ++ r = '"' :: (s.toList.flatMap quoteChar ++ '"' :: r) := by
      simp [stringify, quote]
    rw [htext, readValue, JsonText.skipBlanks_cons (by decide)]
    simp [readBody_quote]
  | .array xs, n + 1, hordered, h => fun r _ => by
    have htext : stringify (.array xs) ++ r =
        '[' :: ([','].intercalate (texts xs) ++ ']' :: r) := by
      simp [stringify]
    have hcount := count_le_intercalate fun t ht => (begins_texts xs t ht).ne_nil
    rw [length_texts] at hcount
    simp only [stringify, List.length_cons, List.length_append, List.length_nil] at h
    have hreads := reads_texts xs n hordered fun t ht =>
      (length_le_intercalate t ht).trans (by omega)
    have hlist := readList_intercalate closes_bracket hreads (begins_texts xs) (n := n)
      (by omega) r
    rw [htext, readValue, JsonText.skipBlanks_cons (by decide)]
    simp [hlist]
  | .object ms, n + 1, hordered, h => fun r _ => by
    have htext : stringify (.object ms) ++ r =
        '{' :: ([','].intercalate (memberTexts ms) ++ '}' :: r) := by
      simp [stringify]
    have hcount := count_le_intercalate fun t ht => (begins_memberTexts ms t ht).ne_nil
    rw [length_memberTexts] at hcount
    simp only [stringify, List.length_cons, List.length_append, List.length_nil] at h
    have hreads := reads_memberTexts ms n hordered.2 fun t ht =>
      (length_le_intercalate t ht).trans (by omega)
    have hlist := readList_intercalate closes_brace hreads (begins_memberTexts ms) (n := n)
      (by omega) r
    rw [htext, readValue, JsonText.skipBlanks_cons (by decide)]
    simp [hlist, hordered.1]

theorem reads_texts : ∀ (xs : List Value) (n : ℕ), OrderedAll xs →
    (∀ t ∈ texts xs, t.length ≤ n) → List.Forall₂ (Reads (readValue n)) xs (texts xs)
  | [], _, _, _ => .nil
  | x :: xs, n, hordered, h => by
    obtain ⟨hx, hxs⟩ := List.forall_mem_cons.mp h
    exact .cons (reads_stringify x n hordered.1 hx) (reads_texts xs n hordered.2 hxs)

theorem reads_memberTexts : ∀ (ms : List (String × Value)) (n : ℕ), OrderedMembers ms →
    (∀ t ∈ memberTexts ms, t.length ≤ n) →
    List.Forall₂ (Reads (readMember (readValue n))) ms (memberTexts ms)
  | [], _, _, _ => .nil
  | (key, v) :: ms, n, hordered, h => by
    obtain ⟨hm, hms⟩ := List.forall_mem_cons.mp h
    rw [List.length_append, List.length_cons] at hm
    exact .cons (reads_member key (reads_stringify v n hordered.1 (by omega)))
      (reads_memberTexts ms n hordered.2 hms)
end

/-- `JSON.parse` undoes `JSON.stringify`. -/
theorem parse_stringify {v : Value} (h : v.Ordered) : parse (stringify v) = some v := by
  have hread := reads_stringify v ((stringify v).length + 1) h (Nat.le_succ _) []
    (by simp [NumEnd])
  rw [List.append_nil] at hread
  simp [parse, hread, JsonText.skipBlanks]

/-! ## Whole numbers -/

def Num.ofInt (n : ℤ) : Num := .ofScaled (decide (n < 0)) n.natAbs 0

theorem digits_mul_pow {m : ℕ} (hm : m ≠ 0) (k : ℕ) :
    digits (m * 10 ^ k) = digits m ++ List.replicate k '0' := by
  induction k with
  | zero => simp
  | succ k ih =>
    have hpos : 0 < m * 10 ^ k := by positivity
    have hscale : m * 10 ^ (k + 1) = 10 * (m * 10 ^ k) + 0 := by ring
    rw [hscale, digits, ← Nat.toDigits_append_toDigits (by norm_num) hpos (by norm_num),
      Nat.toDigits_zero, List.replicate_succ', ← List.append_assoc, ← ih]

theorem strip_spec (f m : ℕ) (e : ℤ) : ∃ k : ℕ, m = (JsonText.strip f m e).1 * 10 ^ k ∧
    (JsonText.strip f m e).2 = e + k := by
  induction f generalizing m e with
  | zero => exact ⟨0, by simp [JsonText.strip], by simp [JsonText.strip]⟩
  | succ f ih =>
    unfold JsonText.strip
    split_ifs with hm
    · obtain ⟨k, hk, he⟩ := ih (m / 10) (e + 1)
      refine ⟨k + 1, ?_, ?_⟩
      · rw [pow_succ, ← Nat.mul_assoc, ← hk]
        omega
      · rw [he]
        push_cast
        ring
    · exact ⟨0, by simp, by simp⟩

/-- Below `10 ^ 21` a whole number is written in its digits. -/
theorem numberToString_ofInt {n : ℤ} (hn : n.natAbs < 10 ^ 21) :
    numberToString (.ofInt n) = JsonText.writeInt n := by
  rcases eq_or_ne n 0 with rfl | hzero
  · decide
  have hne : n.natAbs ≠ 0 := Int.natAbs_ne_zero.mpr hzero
  obtain ⟨k, hmant, hexp⟩ := strip_spec n.natAbs n.natAbs 0
  set d : Decimal := (Num.ofInt n).decimal with hd
  have hdecimal : d.neg = decide (n < 0) ∧ n.natAbs = d.mant * 10 ^ k ∧ d.exp = k := by
    simpa [hd, Num.ofInt, Num.decimal_ofScaled, Decimal.ofScaled, hzero] using
      And.intro hmant hexp
  obtain ⟨hneg, hscale, hdexp⟩ := hdecimal
  have hdigits : digits n.natAbs = digits d.mant ++ List.replicate k '0' := by
    rw [hscale]
    exact digits_mul_pow (fun h => hne (by rw [hscale, h, Nat.zero_mul])) k
  have hlength : (digits d.mant).length + k ≤ 21 := by
    have h21 := (Nat.length_toDigits_le_iff (by norm_num) (by norm_num)).mpr hn
    simpa [hdigits] using h21
  have hparts : (Num.ofInt n).parts = ⟨digits n.natAbs, [], none⟩ := by
    have hpt : d.decpt = (digits d.mant).length + k := by rw [Decimal.decpt, hdexp]
    have hk : d.decpt.toNat - (digits d.mant).length = k := by omega
    rw [Num.parts, ← hd, if_pos ⟨by omega, by omega⟩, hk, ← hdigits]
  rw [numberToString, ← hd, hparts, hneg, JsonText.writeInt]
  simp [writeParts, JsonText.writeFraction, writeExponent]

end JsJson
