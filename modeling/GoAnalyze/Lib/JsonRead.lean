import GoAnalyze.Lib.Json

/-! The reader of JSON text and its round trip: reading back what `write`
printed, in either layout, gives the value, so the printed text determines it. -/

namespace JsonText

/-! ## Reading numbers -/

def spanDigits (cs : List Char) : List Char × List Char := cs.span Char.isDigit

def readDigits (cs : List Char) : Option (ℤ × List Char) :=
  if (spanDigits cs).1 = [] then none
  else some (Nat.ofDigitChars 10 (spanDigits cs).1 0, (spanDigits cs).2)

/-- An exponent after its `e`: an optional sign and digits. -/
def readExp : List Char → Option (ℤ × List Char)
  | '-' :: cs => (readDigits cs).map fun p => (-p.1, p.2)
  | '+' :: cs => readDigits cs
  | cs => readDigits cs

/-- The exponent after the digits of a number, if there is one. Without
fraction and exponent the number is an integer. -/
def readScale (neg : Bool) (ip fp : List Char) (dot : Bool) (cs : List Char) :
    Option (Number × List Char) :=
  match cs with
  | 'e' :: r => (readExp r).map fun p =>
      (.ofDecimal (.ofScaled neg (Nat.ofDigitChars 10 (ip ++ fp) 0) (p.1 - fp.length)), p.2)
  | 'E' :: r => (readExp r).map fun p =>
      (.ofDecimal (.ofScaled neg (Nat.ofDigitChars 10 (ip ++ fp) 0) (p.1 - fp.length)), p.2)
  | r =>
    if dot then
      some (.ofDecimal (.ofScaled neg (Nat.ofDigitChars 10 (ip ++ fp) 0) (-fp.length)), r)
    else some (.int (if neg then -(Nat.ofDigitChars 10 ip 0 : ℤ) else Nat.ofDigitChars 10 ip 0), r)

/-- The fraction, if there is one, and the exponent after an integer part. -/
def readFraction (neg : Bool) (ip : List Char) : List Char → Option (Number × List Char)
  | '.' :: cs => readScale neg ip (spanDigits cs).1 true (spanDigits cs).2
  | cs => readScale neg ip [] false cs

def readUnsigned (neg : Bool) (cs : List Char) : Option (Number × List Char) :=
  if (spanDigits cs).1 = [] then none
  else readFraction neg (spanDigits cs).1 (spanDigits cs).2

/-- The floats that are no decimals are read by their names. -/
def readNumber : List Char → Option (Number × List Char)
  | 'N' :: 'a' :: 'N' :: r => some (.nan, r)
  | 'I' :: 'n' :: 'f' :: 'i' :: 'n' :: 'i' :: 't' :: 'y' :: r => some (.infinity false, r)
  | '-' :: 'I' :: 'n' :: 'f' :: 'i' :: 'n' :: 'i' :: 't' :: 'y' :: r => some (.infinity true, r)
  | '-' :: cs => readUnsigned true cs
  | cs => readUnsigned false cs

/-! ## Reading strings -/

def hexVal (c : Char) : Option ℕ :=
  if '0' ≤ c ∧ c ≤ '9' then some (c.toNat - '0'.toNat)
  else if 'a' ≤ c ∧ c ≤ 'f' then some (c.toNat - 'a'.toNat + 10)
  else if 'A' ≤ c ∧ c ≤ 'F' then some (c.toNat - 'A'.toNat + 10)
  else none

def hex4Val (a b c d : Char) : Option ℕ := do
  let a ← hexVal a
  let b ← hexVal b
  let c ← hexVal c
  let d ← hexVal d
  return ((a * 16 + b) * 16 + c) * 16 + d

/-- The body of a string up to its closing quote. An escaped surrogate is read
only as the first half of a pair. -/
def readBody : List Char → Option (List Char × List Char)
  | '"' :: r => some ([], r)
  | '\\' :: 'u' :: a :: b :: c :: d :: r =>
    match hex4Val a b c d with
    | none => none
    | some u =>
      if 0xd800 ≤ u ∧ u < 0xdc00 then
        match r with
        | '\\' :: 'u' :: a' :: b' :: c' :: d' :: r' =>
          match hex4Val a' b' c' d' with
          | none => none
          | some w =>
            if 0xdc00 ≤ w ∧ w < 0xe000 then
              (readBody r').map fun p =>
                (Char.ofNat (0x10000 + (u - 0xd800) * 0x400 + (w - 0xdc00)) :: p.1, p.2)
            else none
        | _ => none
      else if 0xdc00 ≤ u ∧ u < 0xe000 then none
      else (readBody r).map fun p => (Char.ofNat u :: p.1, p.2)
  | '\\' :: 'u' :: _ => none
  | '\\' :: '"' :: r => (readBody r).map fun p => ('"' :: p.1, p.2)
  | '\\' :: '\\' :: r => (readBody r).map fun p => ('\\' :: p.1, p.2)
  | '\\' :: '/' :: r => (readBody r).map fun p => ('/' :: p.1, p.2)
  | '\\' :: 'n' :: r => (readBody r).map fun p => ('\n' :: p.1, p.2)
  | '\\' :: 'r' :: r => (readBody r).map fun p => ('\r' :: p.1, p.2)
  | '\\' :: 't' :: r => (readBody r).map fun p => ('\t' :: p.1, p.2)
  | '\\' :: 'f' :: r => (readBody r).map fun p => ('\x0c' :: p.1, p.2)
  | '\\' :: 'b' :: r => (readBody r).map fun p => ('\x08' :: p.1, p.2)
  | '\\' :: _ => none
  | c :: r => if c.toNat < 0x20 then none else (readBody r).map fun p => (c :: p.1, p.2)
  | [] => none

/-! ## Reading values -/

def isBlank (c : Char) : Bool := c = ' ' ∨ c = '\t' ∨ c = '\n' ∨ c = '\r'

def skipBlanks (cs : List Char) : List Char := cs.dropWhile isBlank

mutual
/-- A value; the fuel bounds the nesting and the number of elements. -/
def readValue : ℕ → List Char → Option (Json × List Char)
  | 0, _ => none
  | n + 1, cs => match skipBlanks cs with
    | 'n' :: 'u' :: 'l' :: 'l' :: r => some (.null, r)
    | 't' :: 'r' :: 'u' :: 'e' :: r => some (.bool true, r)
    | 'f' :: 'a' :: 'l' :: 's' :: 'e' :: r => some (.bool false, r)
    | '"' :: r => (readBody r).map fun p => (.str (String.ofList p.1), p.2)
    | '[' :: r => match skipBlanks r with
      | ']' :: r' => some (.arr [], r')
      | r' => match readValue n r' with
        | none => none
        | some (x, r'') => (readElems n r'').map fun p => (.arr (x :: p.1), p.2)
    | '{' :: r => match skipBlanks r with
      | '}' :: r' => some (.obj [], r')
      | r' => (readMember n r').bind fun p =>
          (readMembers n p.2).map fun q => (.obj (p.1 :: q.1), q.2)
    | r => (readNumber r).map fun p => (.num p.1, p.2)

/-- The elements after the first one, up to the closing bracket. -/
def readElems : ℕ → List Char → Option (List Json × List Char)
  | 0, _ => none
  | n + 1, cs => match skipBlanks cs with
    | ']' :: r => some ([], r)
    | ',' :: r => match readValue n r with
      | none => none
      | some (x, r') => (readElems n r').map fun p => (x :: p.1, p.2)
    | _ => none

/-- One member: a key, a colon and a value. -/
def readMember : ℕ → List Char → Option ((String × Json) × List Char)
  | 0, _ => none
  | n + 1, cs => match skipBlanks cs with
    | '"' :: r => match readBody r with
      | none => none
      | some (k, r') => match skipBlanks r' with
        | ':' :: r'' => (readValue n r'').map fun p => ((String.ofList k, p.1), p.2)
        | _ => none
    | _ => none

/-- The members after the first one, up to the closing brace. -/
def readMembers : ℕ → List Char → Option (List (String × Json) × List Char)
  | 0, _ => none
  | n + 1, cs => match skipBlanks cs with
    | '}' :: r => some ([], r)
    | ',' :: r => (readMember n r).bind fun p =>
        (readMembers n p.2).map fun q => (p.1 :: q.1, q.2)
    | _ => none
end

/-- `json.loads`: one value and nothing but blanks after it. Every value takes
at least one character, so the length of the text is enough fuel. -/
def loads (cs : List Char) : Option Json :=
  match readValue (cs.length + 1) cs with
  | some (j, r) => if skipBlanks r = [] then some j else none
  | none => none

/-! ## Round trip: numbers -/

/-- What follows does not continue a run of digits. -/
def NoDigit (r : List Char) : Prop := ∀ c ∈ r.head?, c.isDigit = false

/-- What follows does not continue a number. -/
def NumEnd (r : List Char) : Prop :=
  ∀ c ∈ r.head?, c.isDigit = false ∧ c ≠ '.' ∧ c ≠ 'e' ∧ c ≠ 'E'

theorem NumEnd.noDigit {r : List Char} (h : NumEnd r) : NoDigit r := fun c hc => (h c hc).1

/-- A nonempty run of digits. -/
structure IsDigits (ds : List Char) : Prop where
  isDigit : ∀ c ∈ ds, c.isDigit = true
  ne_nil : ds ≠ []

theorem isDigits_digits (n : ℕ) : IsDigits (digits n) :=
  ⟨fun _ hc => Nat.isDigit_of_mem_toDigits (by norm_num) (by norm_num) hc, Nat.toDigits_ne_nil⟩

theorem ofDigitChars_digits (n : ℕ) : Nat.ofDigitChars 10 (digits n) 0 = n :=
  Nat.ofDigitChars_ten_toDigits

theorem isDigits_cons {c : Char} {ds : List Char} (hc : c.isDigit = true)
    (h : ∀ c ∈ ds, c.isDigit = true) : IsDigits (c :: ds) := by
  refine ⟨?_, by simp⟩
  intro c' hc'
  rcases List.mem_cons.mp hc' with rfl | hc'
  · exact hc
  · exact h c' hc'

theorem replicate_zero_isDigit (n : ℕ) : ∀ c ∈ List.replicate n '0', c.isDigit = true := by
  intro c hc
  rw [List.eq_of_mem_replicate hc]
  decide

theorem append_isDigit {ds es : List Char} (hd : ∀ c ∈ ds, c.isDigit = true)
    (he : ∀ c ∈ es, c.isDigit = true) : ∀ c ∈ ds ++ es, c.isDigit = true := by
  intro c hc
  rcases List.mem_append.mp hc with hc | hc
  · exact hd c hc
  · exact he c hc

theorem spanDigits_append {ds r : List Char} (hd : ∀ c ∈ ds, c.isDigit = true)
    (hr : NoDigit r) : spanDigits (ds ++ r) = (ds, r) := by
  rw [spanDigits, List.span_eq_takeWhile_dropWhile]
  have hr0 : r.takeWhile Char.isDigit = [] ∧ r.dropWhile Char.isDigit = r := by
    cases r with
    | nil => simp
    | cons c r => simp [hr c (by simp)]
  rw [List.takeWhile_append_of_pos hd, List.dropWhile_append_of_pos hd, hr0.1, hr0.2,
    List.append_nil]

theorem readDigits_append {ds r : List Char} (hd : IsDigits ds) (hr : NoDigit r) :
    readDigits (ds ++ r) = some (((Nat.ofDigitChars 10 ds 0 : ℕ) : ℤ), r) := by
  simp [readDigits, spanDigits_append hd.isDigit hr, hd.ne_nil]

/-- The digits of an exponent, padded to two. -/
def expDigits (n : ℕ) : List Char := if n < 10 then '0' :: digits n else digits n

theorem expDigits_spec (n : ℕ) :
    IsDigits (expDigits n) ∧ Nat.ofDigitChars 10 (expDigits n) 0 = n := by
  unfold expDigits
  split_ifs
  · refine ⟨isDigits_cons (by decide) (isDigits_digits n).isDigit, ?_⟩
    rw [Nat.ofDigitChars_cons]
    exact ofDigitChars_digits n
  · exact ⟨isDigits_digits n, ofDigitChars_digits n⟩

theorem readExp_write (x : ℤ) {r : List Char} (hr : NoDigit r) :
    readExp (writeExp x ++ r) = some (x, r) := by
  obtain ⟨hd, hv⟩ := expDigits_spec x.natAbs
  have hw : writeExp x = (if x < 0 then '-' else '+') :: expDigits x.natAbs := rfl
  by_cases hx : x < 0
  · rw [hw, if_pos hx, List.cons_append, readExp, readDigits_append hd hr, hv]
    simp only [Option.map_some, Option.some.injEq, Prod.mk.injEq, and_true]
    omega
  · rw [hw, if_neg hx, List.cons_append, readExp, readDigits_append hd hr, hv]
    simp only [Option.some.injEq, Prod.mk.injEq, and_true]
    omega

theorem noDigit_exponent (x : Option ℤ) {r : List Char} (hr : NoDigit r) :
    NoDigit (writeExponent x ++ r) := by
  cases x with
  | none => exact hr
  | some x =>
    intro c hc
    obtain rfl : 'e' = c := by simpa [writeExponent] using hc
    decide

theorem noDigit_fraction (fp : List Char) {r : List Char} (hr : NoDigit r) :
    NoDigit (writeFraction fp ++ r) := by
  unfold writeFraction
  split_ifs
  · exact hr
  · intro c hc
    obtain rfl : '.' = c := by simpa using hc
    decide

/-- The exponent after the digits of a float. -/
theorem readScale_float (neg : Bool) (ip fp : List Char) {dot : Bool} {x : Option ℤ}
    {r : List Char} (hx : dot = true ∨ x ≠ none) (hr : NumEnd r) :
    readScale neg ip fp dot (writeExponent x ++ r) =
      some (.ofDecimal (.ofScaled neg (Nat.ofDigitChars 10 (ip ++ fp) 0)
        (x.getD 0 - fp.length)), r) := by
  cases x with
  | some x => simp [readScale, writeExponent, readExp_write x hr.noDigit]
  | none =>
    have hdot : dot = true := by simpa using hx
    cases r with
    | nil => simp [readScale, writeExponent, hdot]
    | cons c r =>
      obtain ⟨-, -, he, hE⟩ := hr c (by simp)
      simp only [writeExponent, List.nil_append]
      rw [readScale.eq_def]
      split <;> simp_all

theorem readScale_int (neg : Bool) (ip : List Char) {r : List Char} (hr : NumEnd r) :
    readScale neg ip [] false r =
      some (.int (if neg then -(Nat.ofDigitChars 10 ip 0 : ℤ) else Nat.ofDigitChars 10 ip 0), r) := by
  cases r with
  | nil => simp [readScale]
  | cons c r =>
    obtain ⟨-, -, he, hE⟩ := hr c (by simp)
    rw [readScale.eq_def]
    split <;> simp_all

theorem readFraction_of_ne_dot (neg : Bool) (ip : List Char) {cs : List Char}
    (h : ∀ c ∈ cs.head?, c ≠ '.') : readFraction neg ip cs = readScale neg ip [] false cs := by
  cases cs with
  | nil => rfl
  | cons c cs =>
    rw [readFraction.eq_def]
    split
    · next heq =>
      obtain ⟨rfl, -⟩ := List.cons.inj heq
      exact absurd rfl (h '.' (by simp))
    · rfl

/-- Digits that stand for a number: with a fraction or an exponent. -/
structure Parts.Ok (p : Parts) : Prop where
  ip : IsDigits p.ip
  fp : ∀ c ∈ p.fp, c.isDigit = true
  float : p.fp ≠ [] ∨ p.exp ≠ none

theorem readUnsigned_parts (neg : Bool) {p : Parts} (hp : p.Ok) {r : List Char}
    (hr : NumEnd r) : readUnsigned neg (p.write ++ r) =
      some (.ofDecimal (.ofScaled neg (Nat.ofDigitChars 10 (p.ip ++ p.fp) 0)
        (p.exp.getD 0 - p.fp.length)), r) := by
  have hspan : spanDigits (p.write ++ r) =
      (p.ip, writeFraction p.fp ++ (writeExponent p.exp ++ r)) := by
    rw [Parts.write, List.append_assoc, List.append_assoc]
    exact spanDigits_append hp.ip.isDigit
      (noDigit_fraction _ (noDigit_exponent _ hr.noDigit))
  simp only [readUnsigned, hspan, hp.ip.ne_nil, if_false]
  by_cases hf : p.fp = []
  · have hx : p.exp ≠ none := by simpa [hf] using hp.float
    obtain ⟨x, hx'⟩ := Option.ne_none_iff_exists'.mp hx
    have hdot : ∀ c ∈ (writeExponent p.exp ++ r).head?, c ≠ '.' := by
      intro c hc
      obtain rfl : 'e' = c := by simpa [hx', writeExponent] using hc
      decide
    rw [hf, writeFraction, if_pos rfl, List.nil_append, readFraction_of_ne_dot neg p.ip hdot]
    exact readScale_float neg p.ip [] (Or.inr hx) hr
  · rw [writeFraction, if_neg hf, List.cons_append, readFraction,
      spanDigits_append hp.fp (noDigit_exponent _ hr.noDigit)]
    exact readScale_float neg p.ip p.fp (Or.inl rfl) hr

/-- The parts of a decimal are digits for a scaled copy of it. -/
theorem Decimal.parts_spec (d : Decimal) : d.parts.Ok ∧
    ∃ k : ℕ, Nat.ofDigitChars 10 (d.parts.ip ++ d.parts.fp) 0 = d.mant * 10 ^ k ∧
      d.parts.exp.getD 0 - d.parts.fp.length = d.exp - k := by
  have hd := isDigits_digits d.mant
  have hlen : 0 < (digits d.mant).length := List.length_pos_of_ne_nil hd.ne_nil
  have hpt : d.decpt = (digits d.mant).length + d.exp := rfl
  have htake : ∀ n, 0 < n → IsDigits ((digits d.mant).take n) := fun n hn =>
    ⟨fun c hc => hd.isDigit c (List.mem_of_mem_take hc), by
      rw [Ne, List.take_eq_nil_iff, not_or]
      exact ⟨hn.ne', hd.ne_nil⟩⟩
  have hdrop : ∀ n, ∀ c ∈ (digits d.mant).drop n, c.isDigit = true :=
    fun n c hc => hd.isDigit c (List.mem_of_mem_drop hc)
  by_cases h1 : -4 < d.decpt ∧ d.decpt ≤ 16
  · by_cases h2 : d.decpt ≤ 0
    · -- `0.000ddd`
      simp only [Decimal.parts, if_pos h1, if_pos h2]
      refine ⟨⟨isDigits_cons (by decide) (by simp), append_isDigit (replicate_zero_isDigit _)
        hd.isDigit, Or.inl (by simp [hd.ne_nil])⟩, 0, ?_, ?_⟩
      · rw [List.singleton_append, Nat.ofDigitChars_cons, Nat.ofDigitChars_append]
        simp [Nat.ofDigitChars_replicate_zero]
      · simp only [Option.getD_none, List.length_append, List.length_replicate]
        omega
    · by_cases h3 : (digits d.mant).length ≤ d.decpt
      · -- `ddd000.0`
        simp only [Decimal.parts, if_pos h1, if_neg h2, if_pos h3]
        refine ⟨⟨⟨append_isDigit hd.isDigit (replicate_zero_isDigit _), by simp [hd.ne_nil]⟩,
          (isDigits_cons (by decide) (by simp)).isDigit, Or.inl (by simp)⟩,
          (d.decpt.toNat - (digits d.mant).length) + 1, ?_, ?_⟩
        · rw [List.append_assoc, Nat.ofDigitChars_append, ofDigitChars_digits,
            show ['0'] = List.replicate 1 '0' from rfl, List.replicate_append_replicate,
            Nat.ofDigitChars_replicate_zero, Nat.mul_comm]
        · simp only [Option.getD_none, List.length_singleton]
          omega
      · -- `dd.d`
        simp only [Decimal.parts, if_pos h1, if_neg h2, if_neg h3]
        refine ⟨⟨htake _ (by omega), hdrop _, Or.inl ?_⟩, 0, ?_, ?_⟩
        · rw [Ne, List.drop_eq_nil_iff]
          omega
        · simpa only [List.take_append_drop, pow_zero, Nat.mul_one] using
            ofDigitChars_digits d.mant
        · simp only [Option.getD_none, List.length_drop]
          omega
  · -- `d.dde+xx`
    simp only [Decimal.parts, if_neg h1]
    refine ⟨⟨htake 1 Nat.one_pos, hdrop 1, Or.inr (by simp)⟩, 0, ?_, ?_⟩
    · simpa only [List.take_append_drop, pow_zero, Nat.mul_one] using ofDigitChars_digits d.mant
    · simp only [Option.getD_some, List.length_drop]
      omega

theorem readUnsigned_decimal (d : Decimal) {r : List Char} (hr : NumEnd r) :
    readUnsigned d.neg (d.parts.write ++ r) = some (.ofDecimal d, r) := by
  obtain ⟨hp, k, hm, he⟩ := d.parts_spec
  rw [readUnsigned_parts d.neg hp hr, hm, he, Decimal.ofScaled_scale]

theorem readUnsigned_digits (neg : Bool) (n : ℕ) {r : List Char} (hr : NumEnd r) :
    readUnsigned neg (digits n ++ r) = some (.int (if neg then -(n : ℤ) else n), r) := by
  have hd := isDigits_digits n
  simp only [readUnsigned, spanDigits_append hd.isDigit hr.noDigit, hd.ne_nil, if_false]
  rw [readFraction_of_ne_dot neg _ fun c hc => (hr c hc).2.1, readScale_int neg _ hr,
    ofDigitChars_digits]

theorem readNumber_of_isDigit {c : Char} {cs : List Char} (hc : c.isDigit = true) :
    readNumber (c :: cs) = readUnsigned false (c :: cs) := by
  rw [readNumber.eq_def]
  split
  all_goals first
    | rfl
    | next h =>
      obtain ⟨rfl, -⟩ := List.cons.inj h
      exact absurd hc (by decide)

theorem readNumber_of_isDigits {ds r : List Char} (hd : IsDigits ds) :
    readNumber (ds ++ r) = readUnsigned false (ds ++ r) := by
  obtain ⟨d, ds, rfl⟩ := List.exists_cons_of_ne_nil hd.ne_nil
  exact readNumber_of_isDigit (hd.isDigit d (by simp))

theorem readNumber_neg {ds r : List Char} (hd : IsDigits ds) :
    readNumber ('-' :: (ds ++ r)) = readUnsigned true (ds ++ r) := by
  obtain ⟨d, ds, rfl⟩ := List.exists_cons_of_ne_nil hd.ne_nil
  have hdigit := hd.isDigit d (by simp)
  have hne : d ≠ 'I' := by
    rintro rfl
    exact absurd hdigit (by decide)
  rw [readNumber.eq_def]
  split
  · next h => exact absurd (List.cons.inj h).1 (by decide)
  · next h => exact absurd (List.cons.inj h).1 (by decide)
  · next h => exact absurd (List.cons.inj (List.cons.inj h).2).1 hne
  · next h => rw [(List.cons.inj h).2]
  · next h => exact absurd rfl (h _)

theorem readNumber_write (n : Number) {r : List Char} (hr : NumEnd r) :
    readNumber (writeNumber n ++ r) = some (n, r) := by
  cases n with
  | int n =>
    simp only [writeNumber, writeInt]
    split_ifs with h
    · rw [List.cons_append, readNumber_neg (isDigits_digits _), readUnsigned_digits true _ hr]
      simp only [if_true, Option.some.injEq, Prod.mk.injEq, Number.int.injEq, and_true]
      omega
    · rw [readNumber_of_isDigits (isDigits_digits _), readUnsigned_digits false _ hr]
      simp only [Bool.false_eq_true, if_false, Option.some.injEq, Prod.mk.injEq,
        Number.int.injEq, and_true]
      omega
  | float d hfinite =>
    have hd := readUnsigned_decimal d hr
    rw [Number.ofDecimal_of_inRange hfinite] at hd
    simp only [writeNumber, writeDecimal]
    split_ifs with h
    · rw [h] at hd
      rw [Parts.write, List.cons_append, List.append_assoc, readNumber_neg d.parts_spec.1.ip,
        ← List.append_assoc]
      exact hd
    · simp only [Bool.not_eq_true] at h
      rw [h] at hd
      rw [Parts.write, List.append_assoc, readNumber_of_isDigits d.parts_spec.1.ip,
        ← List.append_assoc]
      exact hd
  | infinity neg => cases neg <;> rfl
  | nan => rfl

/-! ## Round trip: strings -/

theorem hexVal_digitChar : ∀ d < 16, hexVal (Nat.digitChar d) = some d := by decide

theorem hex_four (n : ℕ) : hex 4 n = [Nat.digitChar (n / 16 / 16 / 16 % 16),
    Nat.digitChar (n / 16 / 16 % 16), Nat.digitChar (n / 16 % 16), Nat.digitChar (n % 16)] := rfl

theorem hex4Val_hex {n : ℕ} (h : n < 0x10000) :
    hex4Val (Nat.digitChar (n / 16 / 16 / 16 % 16)) (Nat.digitChar (n / 16 / 16 % 16))
      (Nat.digitChar (n / 16 % 16)) (Nat.digitChar (n % 16)) = some n := by
  have hm : ∀ m, hexVal (Nat.digitChar (m % 16)) = some (m % 16) :=
    fun m => hexVal_digitChar _ (Nat.mod_lt _ (by norm_num))
  simp only [hex4Val, hm, Option.bind_eq_bind, Option.bind_some, Option.pure_def,
    Option.some.injEq]
  omega

/-- An escaped code point of the basic plane. -/
theorem readBody_unicodeEscape {n : ℕ} (h : n < 0xd800 ∨ 0xe000 ≤ n) (hn : n < 0x10000)
    (r : List Char) : readBody (unicodeEscape n ++ r) =
      (readBody r).map fun p => (Char.ofNat n :: p.1, p.2) := by
  simp only [unicodeEscape, hex_four, List.cons_append, List.nil_append]
  rw [readBody, hex4Val_hex hn]
  simp only
  rw [if_neg (by omega), if_neg (by omega)]

/-- An escaped surrogate pair. -/
theorem readBody_surrogates {u w : ℕ} (hu : 0xd800 ≤ u ∧ u < 0xdc00)
    (hw : 0xdc00 ≤ w ∧ w < 0xe000) (r : List Char) :
    readBody (unicodeEscape u ++ unicodeEscape w ++ r) = (readBody r).map fun p =>
      (Char.ofNat (0x10000 + (u - 0xd800) * 0x400 + (w - 0xdc00)) :: p.1, p.2) := by
  simp only [unicodeEscape, hex_four, List.cons_append, List.nil_append]
  rw [readBody, hex4Val_hex (by omega)]
  simp only
  rw [if_pos hu, hex4Val_hex (by omega)]
  simp only
  rw [if_pos hw]

theorem Char.toNat_cases (c : Char) :
    c.toNat < 0xd800 ∨ (0xe000 ≤ c.toNat ∧ c.toNat < 0x110000) := by
  have h := c.valid
  simp only [UInt32.isValidChar, Nat.isValidChar] at h
  change c.toNat < 0xd800 ∨ (0xdfff < c.toNat ∧ c.toNat < 0x110000) at h
  omega

theorem readBody_cons {c : Char} (hquote : c ≠ '"') (hbackslash : c ≠ '\\')
    (hcontrol : ¬c.toNat < 0x20) (r : List Char) :
    readBody (c :: r) = (readBody r).map fun p => (c :: p.1, p.2) := by
  rw [readBody.eq_def]
  split <;> simp_all

/-- If each character is read back from its escape, so is a string. -/
theorem readBody_flatMap {escape : Char → List Char}
    (hescape : ∀ c r, readBody (escape c ++ r) = (readBody r).map fun p => (c :: p.1, p.2))
    (cs r : List Char) : readBody (cs.flatMap escape ++ '"' :: r) = some (cs, r) := by
  induction cs with
  | nil => simp [readBody]
  | cons c cs ih =>
    rw [List.flatMap_cons, List.append_assoc, hescape, ih]
    rfl

theorem readBody_escapeChar (c : Char) (r : List Char) :
    readBody (escapeChar c ++ r) = (readBody r).map fun p => (c :: p.1, p.2) := by
  have hc := Char.toNat_cases c
  unfold escapeChar
  split_ifs with h1 h2 h3 h4 h5 h6 h7 h8 h9
  · subst h1; simp [readBody]
  · subst h2; simp [readBody]
  · subst h3; simp [readBody]
  · subst h4; simp [readBody]
  · subst h5; simp [readBody]
  · subst h6; simp [readBody]
  · subst h7; simp [readBody]
  · exact readBody_cons h1 h2 (by omega) r
  · rw [readBody_unicodeEscape (by omega) h9, Char.ofNat_toNat]
  · rw [readBody_surrogates (by omega) (by omega)]
    have hn : 0x10000 + (0xd800 + (c.toNat - 0x10000) / 0x400 - 0xd800) * 0x400 +
        (0xdc00 + (c.toNat - 0x10000) % 0x400 - 0xdc00) = c.toNat := by omega
    rw [hn, Char.ofNat_toNat]

theorem readBody_writeString (s : String) (r : List Char) :
    ∃ t, writeString s ++ r = '"' :: t ∧ readBody t = some (s.toList, r) := by
  refine ⟨s.toList.flatMap escapeChar ++ '"' :: r, ?_, readBody_flatMap readBody_escapeChar _ _⟩
  simp [writeString]

/-! ## Round trip: values -/

theorem skipBlanks_gap (l : Layout) (cs : List Char) : skipBlanks (l.gap ++ cs) = skipBlanks cs := by
  unfold Layout.gap
  split_ifs
  · simp [skipBlanks, isBlank]
  · rfl

theorem skipBlanks_cons {c : Char} {cs : List Char} (h : isBlank c = false) :
    skipBlanks (c :: cs) = c :: cs := by
  simp [skipBlanks, h]

theorem readValue_gap (l : Layout) (n : ℕ) (cs : List Char) :
    readValue n (l.gap ++ cs) = readValue n cs := by
  cases n with
  | zero => rfl
  | succ n => simp only [readValue, skipBlanks_gap]

theorem readMember_gap (l : Layout) (n : ℕ) (cs : List Char) :
    readMember n (l.gap ++ cs) = readMember n cs := by
  cases n with
  | zero => rfl
  | succ n => simp only [readMember, skipBlanks_gap]

/-- The text of a finite number begins with a minus sign or a digit. -/
theorem writeNumber_head {n : Number} (h : n.isFinite) :
    ∃ c t, writeNumber n = c :: t ∧ (c = '-' ∨ c.isDigit = true) := by
  have head : ∀ ds, IsDigits ds → ∀ t, ∃ c t', ds ++ t = c :: t' ∧ (c = '-' ∨ c.isDigit = true) := by
    intro ds hd t
    obtain ⟨d, ds, rfl⟩ := List.exists_cons_of_ne_nil hd.ne_nil
    exact ⟨d, ds ++ t, rfl, Or.inr (hd.isDigit d (by simp))⟩
  cases n with
  | int n =>
    simp only [writeNumber, writeInt]
    split_ifs
    · exact ⟨'-', _, rfl, Or.inl rfl⟩
    · simpa using head _ (isDigits_digits n.natAbs) []
  | float d =>
    simp only [writeNumber, writeDecimal]
    split_ifs
    · exact ⟨'-', _, rfl, Or.inl rfl⟩
    · exact head _ d.parts_spec.1.ip _
  | infinity | nan => cases h

/-- The text of a number begins as no other value does. -/
theorem writeNumber_begins (n : Number) : ∃ c t, writeNumber n = c :: t ∧ isBlank c = false ∧
    ∀ d ∈ ['n', 't', 'f', '"', '[', '{', ']'], c ≠ d := by
  cases hfinite : n.isFinite with
  | false =>
    cases n with
    | int | float => cases hfinite
    | infinity neg =>
      cases neg with
      | false => exact ⟨'I', _, rfl, by decide, by simp⟩
      | true => exact ⟨'-', _, rfl, by decide, by simp⟩
    | nan => exact ⟨'N', _, rfl, by decide, by simp⟩
  | true =>
    obtain ⟨c, t, hw, hc⟩ := writeNumber_head hfinite
    refine ⟨c, t, hw, ?_, ?_⟩
    · rcases hc with rfl | hc
      · decide
      · simp only [isBlank, decide_eq_false_iff_not, not_or]
        refine ⟨?_, ?_, ?_, ?_⟩ <;> (rintro rfl; revert hc; decide)
    · rintro d hd rfl
      rcases hc with rfl | hc
      · revert hd; decide
      · revert hc; fin_cases hd <;> decide

theorem readValue_number (n : ℕ) (m : Number) {r : List Char} (hr : NumEnd r) :
    readValue (n + 1) (writeNumber m ++ r) = some (.num m, r) := by
  have hread := readNumber_write m hr
  obtain ⟨c, t, hw, hblank, hne⟩ := writeNumber_begins m
  rw [hw, List.cons_append] at hread ⊢
  rw [readValue, skipBlanks_cons hblank]
  split
  all_goals first
    | (next h => exact absurd (List.cons.inj h).1 (hne _ (by simp)))
    | rw [hread]; rfl

mutual
/-- Fuel that is enough to read a value back. -/
def size : Json → ℕ
  | .arr (x :: xs) => 1 + size x + sizeElems xs
  | .obj ((_, v) :: ms) => 2 + size v + sizeMembers ms
  | .arr [] | .obj [] | .null | .bool _ | .num _ | .str _ => 1

def sizeElems : List Json → ℕ
  | [] => 1
  | x :: xs => 1 + size x + sizeElems xs

def sizeMembers : List (String × Json) → ℕ
  | [] => 1
  | (_, v) :: ms => 2 + size v + sizeMembers ms
end

theorem numEnd_elems (l : Layout) (xs : List Json) (r : List Char) :
    NumEnd (writeElems l xs ++ r) := by
  cases xs with
  | nil => simp [NumEnd, writeElems]
  | cons x xs => simp [NumEnd, writeElems]

theorem numEnd_members (l : Layout) (ms : List (String × Json)) (r : List Char) :
    NumEnd (writeMembers l ms ++ r) := by
  cases ms with
  | nil => simp [NumEnd, writeMembers]
  | cons m ms => simp [NumEnd, writeMembers]

/-- The first character of a printed value is not blank and not a closing bracket. -/
theorem write_head (l : Layout) (j : Json) :
    ∃ c t, write l j = c :: t ∧ isBlank c = false ∧ c ≠ ']' := by
  match j with
  | .null => exact ⟨'n', _, rfl, by decide, by decide⟩
  | .bool true => exact ⟨'t', _, rfl, by decide, by decide⟩
  | .bool false => exact ⟨'f', _, rfl, by decide, by decide⟩
  | .str s => exact ⟨'"', _, rfl, by decide, by decide⟩
  | .arr [] => exact ⟨'[', _, rfl, by decide, by decide⟩
  | .arr (x :: xs) => exact ⟨'[', _, by rw [write]; rfl, by decide, by decide⟩
  | .obj [] => exact ⟨'{', _, rfl, by decide, by decide⟩
  | .obj ((k, v) :: ms) => exact ⟨'{', _, by rw [write]; rfl, by decide, by decide⟩
  | .num n =>
    obtain ⟨c, t, hw, hblank, hne⟩ := writeNumber_begins n
    exact ⟨c, t, by rw [write, hw], hblank, hne ']' (by simp)⟩

mutual
theorem readValue_write (l : Layout) : ∀ (j : Json) (n : ℕ) (r : List Char),
    size j ≤ n → NumEnd r → readValue n (write l j ++ r) = some (j, r)
  | j, 0, _, h, _ => by
    exfalso
    match j with
    | .null | .bool _ | .num _ | .str _ | .arr [] | .obj [] => simp [size] at h
    | .arr (x :: xs) => rw [size] at h; omega
    | .obj ((k, v) :: ms) => rw [size] at h; omega
  | .null, n + 1, r, _, _ => by simp [readValue, write, skipBlanks, isBlank]
  | .bool true, n + 1, r, _, _ => by simp [readValue, write, skipBlanks, isBlank]
  | .bool false, n + 1, r, _, _ => by simp [readValue, write, skipBlanks, isBlank]
  | .num m, n + 1, r, _, hr => readValue_number n m hr
  | .str s, n + 1, r, _, _ => by
    obtain ⟨t, ht, hs⟩ := readBody_writeString s r
    rw [write, ht, readValue, skipBlanks_cons (by decide)]
    simp [hs]
  | .arr [], n + 1, r, _, _ => by simp [readValue, write, skipBlanks, isBlank]
  | .arr (x :: xs), n + 1, r, h, _ => by
    rw [size] at h
    have hx := readValue_write l x n (writeElems l xs ++ r) (by omega) (numEnd_elems l xs r)
    have hxs := readElems_write l xs n r (by omega)
    obtain ⟨c, t, hw, hb, hne⟩ := write_head l x
    rw [write, List.cons_append, List.cons_append, List.append_assoc, readValue,
      skipBlanks_cons (by decide)]
    rw [hw, List.cons_append] at hx ⊢
    simp only [skipBlanks_cons hb]
    split
    · next heq => exact absurd (List.cons.inj heq).1 hne
    · rw [hx]
      simp [hxs]
  | .obj [], n + 1, r, _, _ => by simp [readValue, write, skipBlanks, isBlank]
  | .obj ((k, v) :: ms), n + 1, r, h, _ => by
    rw [size] at h
    have hv := readMember_write l k v n (writeMembers l ms ++ r) (by omega)
      (numEnd_members l ms r)
    have hms := readMembers_write l ms n r (by omega)
    obtain ⟨t, ht, -⟩ := readBody_writeString k (':' :: l.gap ++ write l v ++ (writeMembers l ms ++ r))
    have hw : write l (.obj ((k, v) :: ms)) ++ r =
        '{' :: (writeString k ++ (':' :: l.gap ++ write l v ++ (writeMembers l ms ++ r))) := by
      rw [write]; simp
    rw [hw, readValue, skipBlanks_cons (by decide)]
    rw [ht] at hv ⊢
    simp only [skipBlanks_cons (show isBlank '"' = false by decide)]
    simp [hv, hms]

theorem readElems_write (l : Layout) : ∀ (xs : List Json) (n : ℕ) (r : List Char),
    sizeElems xs ≤ n → readElems n (writeElems l xs ++ r) = some (xs, r)
  | [], 0, _, h => by simp [sizeElems] at h
  | _ :: _, 0, _, h => by rw [sizeElems] at h; omega
  | [], n + 1, r, _ => by simp [readElems, writeElems, skipBlanks, isBlank]
  | x :: xs, n + 1, r, h => by
    rw [sizeElems] at h
    have hx := readValue_write l x n (writeElems l xs ++ r) (by omega) (numEnd_elems l xs r)
    have hxs := readElems_write l xs n r (by omega)
    have hw : writeElems l (x :: xs) ++ r = ',' :: (l.gap ++ (write l x ++ (writeElems l xs ++ r))) := by
      rw [writeElems]; simp
    rw [hw, readElems, skipBlanks_cons (by decide)]
    simp [readValue_gap, hx, hxs]

theorem readMember_write (l : Layout) (k : String) : ∀ (v : Json) (n : ℕ) (r : List Char),
    size v + 1 ≤ n → NumEnd r →
    readMember n (writeString k ++ (':' :: l.gap ++ write l v ++ r)) = some ((k, v), r)
  | v, 0, _, h, _ => by omega
  | v, n + 1, r, h, hr => by
    have hv := readValue_write l v n r (by omega) hr
    obtain ⟨t, ht, hk⟩ := readBody_writeString k (':' :: l.gap ++ write l v ++ r)
    rw [ht, readMember, skipBlanks_cons (by decide)]
    simp only [hk]
    rw [List.cons_append, List.cons_append, skipBlanks_cons (by decide)]
    simp [readValue_gap, hv]

theorem readMembers_write (l : Layout) : ∀ (ms : List (String × Json)) (n : ℕ) (r : List Char),
    sizeMembers ms ≤ n → readMembers n (writeMembers l ms ++ r) = some (ms, r)
  | [], 0, _, h => by simp [sizeMembers] at h
  | _ :: _, 0, _, h => by rw [sizeMembers] at h; omega
  | [], n + 1, r, _ => by simp [readMembers, writeMembers, skipBlanks, isBlank]
  | (k, v) :: ms, n + 1, r, h => by
    rw [sizeMembers] at h
    have hv := readMember_write l k v n (writeMembers l ms ++ r) (by omega)
      (numEnd_members l ms r)
    have hms := readMembers_write l ms n r (by omega)
    have hw : writeMembers l ((k, v) :: ms) ++ r = ',' :: (l.gap ++
        (writeString k ++ (':' :: l.gap ++ write l v ++ (writeMembers l ms ++ r)))) := by
      rw [writeMembers]; simp
    rw [hw, readMembers, skipBlanks_cons (by decide)]
    simp only [readMember_gap, hv, Option.bind_some, hms, Option.map_some]
end

mutual
theorem size_le_length (l : Layout) : ∀ j : Json, size j ≤ (write l j).length
  | .null | .bool true | .bool false | .str _ | .arr [] | .obj [] => by
    simp [size, write, writeString]
  | .num n => by
    obtain ⟨c, t, hw, -⟩ := writeNumber_begins n
    simp [size, write, hw]
  | .arr (x :: xs) => by
    have hx := size_le_length l x
    have hxs := sizeElems_le_length l xs
    simp only [size, write, List.length_cons, List.length_append]
    omega
  | .obj ((k, v) :: ms) => by
    have hv := size_le_length l v
    have hms := sizeMembers_le_length l ms
    simp only [size, write, List.length_cons, List.length_append]
    omega

theorem sizeElems_le_length (l : Layout) : ∀ xs : List Json,
    sizeElems xs ≤ (writeElems l xs).length
  | [] => by simp [sizeElems, writeElems]
  | x :: xs => by
    have hx := size_le_length l x
    have hxs := sizeElems_le_length l xs
    simp only [sizeElems, writeElems, List.length_cons, List.length_append]
    omega

theorem sizeMembers_le_length (l : Layout) : ∀ ms : List (String × Json),
    sizeMembers ms ≤ (writeMembers l ms).length
  | [] => by simp [sizeMembers, writeMembers]
  | (k, v) :: ms => by
    have hv := size_le_length l v
    have hms := sizeMembers_le_length l ms
    simp only [sizeMembers, writeMembers, List.length_cons, List.length_append]
    omega
end

/-- Reading back what was printed gives the value. -/
theorem loads_write (l : Layout) (j : Json) : loads (write l j) = some j := by
  have h := readValue_write l j ((write l j).length + 1) []
    (by have := size_le_length l j; omega) (by simp [NumEnd])
  rw [List.append_nil] at h
  simp [loads, h, skipBlanks]

/-- The text determines the value. -/
theorem write_injective (l : Layout) : Function.Injective (write l) := by
  intro j k h
  have := loads_write l k
  rw [← h, loads_write] at this
  exact Option.some.inj this

instance : DecidableEq Json := fun _ _ =>
  decidable_of_iff _ (write_injective compact).eq_iff

/-- The text with sorted members determines the value up to their order. -/
theorem same_of_dumpsSorted_eq {l : Layout} {j k : Json} (h : dumpsSorted l j = dumpsSorted l k) :
    Same j k :=
  same_of_canon_eq j k (write_injective l h)

end JsonText
