import GoAnalyze.Lib.JsJson

/-! JSON between a program in JavaScript and one in Python: `json.loads` reads what
`JSON.stringify` writes, and `JSON.parse` what `json.dumps` writes without escaping to ASCII.
Python tells whole numbers from floats by their text, and JavaScript orders the members of an
object. -/

namespace JsonExchange

open JsonText (Json Number Decimal digits NumEnd NoDigit spanDigits writeFraction)
open JsJson (Value IntegerPart ownProperties)

/-! ## From JavaScript to Python -/

/-- A number whose text has no fraction and no exponent is an integer. -/
def number (x : JsJson.Num) : Number :=
  if x.parts.fp = [] ∧ x.parts.exp = none then
    let n : ℤ := Nat.ofDigitChars 10 x.parts.ip 0
    .int (if x.decimal.neg then -n else n)
  else .ofDecimal x.decimal

mutual
/-- What `json.loads` makes of the text of a value. -/
def fromJs : Value → Json
  | .null => .null
  | .bool b => .bool b
  | .number x => .num (number x)
  | .string s => .str s
  | .array xs => .arr (fromJsAll xs)
  | .object ms => .obj (fromJsMembers ms)

def fromJsAll : List Value → List Json
  | [] => []
  | x :: xs => fromJs x :: fromJsAll xs

def fromJsMembers : List (String × Value) → List (String × Json)
  | [] => []
  | (key, v) :: ms => (key, fromJs v) :: fromJsMembers ms
end

/-! ### Numbers -/

theorem readScale_exponent (neg : Bool) (ip fp : List Char) (dot : Bool) (e : ℤ) {r : List Char}
    (hr : NumEnd r) : JsonText.readScale neg ip fp dot (JsJson.writeExponent (some e) ++ r) =
      some (.ofDecimal (.ofScaled neg (Nat.ofDigitChars 10 (ip ++ fp) 0) (e - fp.length)), r) := by
  have hread := JsJson.readExponent_write (some e) hr
  rw [JsJson.writeExponent, List.cons_append, JsJson.readExponent, Option.getD_some] at hread
  rw [JsJson.writeExponent, List.cons_append, JsonText.readScale, hread, Option.map_some]

theorem readUnsigned_writeParts (x : JsJson.Num) {r : List Char} (hr : NumEnd r) :
    JsonText.readUnsigned x.decimal.neg (JsJson.writeParts x.parts ++ r) =
      some (number x, r) := by
  obtain ⟨hip, hfp, k, hmant, hexp⟩ := x.parts_spec
  have hspan : spanDigits (JsJson.writeParts x.parts ++ r) = (x.parts.ip,
      writeFraction x.parts.fp ++ (JsJson.writeExponent x.parts.exp ++ r)) := by
    rw [JsJson.writeParts, List.append_assoc, List.append_assoc]
    refine JsonText.spanDigits_append hip.isDigit ?_
    exact JsonText.noDigit_fraction _ (JsJson.noDigit_writeExponent _ hr)
  have hfloat : Decimal.ofScaled x.decimal.neg (Nat.ofDigitChars 10 (x.parts.ip ++ x.parts.fp) 0)
      (x.parts.exp.getD 0 - x.parts.fp.length) = x.decimal := by
    rw [hmant, hexp, Decimal.ofScaled_scale]
  simp only [JsonText.readUnsigned, hspan, hip.ne_nil, if_false]
  by_cases hnil : x.parts.fp = []
  · rw [hnil, List.append_nil] at hfloat
    rw [hnil, writeFraction, if_pos rfl, List.nil_append]
    cases hx : x.parts.exp with
    | none =>
      rw [number, if_pos ⟨hnil, hx⟩, JsJson.writeExponent, List.nil_append,
        JsonText.readFraction_of_ne_dot _ _ fun c hc => (hr c hc).2.1,
        JsonText.readScale_int _ _ hr]
    | some e =>
      rw [hx, Option.getD_some] at hfloat
      have hdot : ∀ c ∈ (JsJson.writeExponent (some e) ++ r).head?, c ≠ '.' := by
        intro c hc
        obtain rfl : 'e' = c := by simpa [JsJson.writeExponent] using hc
        decide
      rw [number, if_neg fun h => by simp [hx] at h, JsonText.readFraction_of_ne_dot _ _ hdot,
        readScale_exponent _ _ _ _ _ hr, List.append_nil, hfloat]
  · have hfraction : spanDigits (x.parts.fp ++ (JsJson.writeExponent x.parts.exp ++ r)) =
        (x.parts.fp, JsJson.writeExponent x.parts.exp ++ r) :=
      JsonText.spanDigits_append hfp (JsJson.noDigit_writeExponent _ hr)
    rw [number, if_neg fun h => hnil h.1, writeFraction, if_neg hnil, List.cons_append,
      JsonText.readFraction, hfraction]
    cases hx : x.parts.exp with
    | none =>
      have hscale := JsonText.readScale_float x.decimal.neg x.parts.ip x.parts.fp (x := none)
        (Or.inl rfl) hr
      rw [hx] at hfloat
      rw [JsonText.writeExponent, List.nil_append, hfloat] at hscale
      exact hscale
    | some e =>
      rw [hx, Option.getD_some] at hfloat
      rw [readScale_exponent _ _ _ _ _ hr, hfloat]

theorem readNumber_numberToString (x : JsJson.Num) {r : List Char} (hr : NumEnd r) :
    JsonText.readNumber (JsJson.numberToString x ++ r) = some (number x, r) := by
  have hread := readUnsigned_writeParts x hr
  obtain ⟨hip, -⟩ := x.parts_spec
  unfold JsJson.numberToString
  split_ifs with hneg
  · rw [hneg, JsJson.writeParts, List.append_assoc] at hread
    rw [JsJson.writeParts, List.cons_append, List.append_assoc,
      JsonText.readNumber_neg hip.toIsDigits]
    exact hread
  · rw [Bool.eq_false_iff.mpr hneg, JsJson.writeParts, List.append_assoc] at hread
    rw [JsJson.writeParts, List.append_assoc, JsonText.readNumber_of_isDigits hip.toIsDigits]
    exact hread

/-! ### Values -/

/-- The text is read as `j`, whatever follows it. -/
def Loads (j : Json) (t : List Char) : Prop :=
  ∀ (n : ℕ) (r : List Char), t.length ≤ n → NumEnd r →
    JsonText.readValue n (t ++ r) = some (j, r)

theorem Loads.of_succ {j : Json} {t : List Char} (hne : t ≠ [])
    (h : ∀ (n : ℕ) (r : List Char), t.length ≤ n + 1 → NumEnd r →
      JsonText.readValue (n + 1) (t ++ r) = some (j, r)) : Loads j t := by
  intro n r hn hr
  have hpos := List.length_pos_of_ne_nil hne
  obtain ⟨n, rfl⟩ : ∃ n', n = n' + 1 := ⟨n - 1, by omega⟩
  exact h n r hn hr

def LoadsMember (m : String × Json) (t : List Char) : Prop :=
  ∀ (n : ℕ) (r : List Char), t.length ≤ n → NumEnd r →
    JsonText.readMember n (t ++ r) = some (m, r)

/-- Texts after the first one, each with its comma. -/
def others (ts : List (List Char)) : List Char := ts.flatMap (',' :: ·)

theorem intercalate_cons (t : List Char) (ts : List (List Char)) :
    [','].intercalate (t :: ts) = t ++ others ts := by
  induction ts generalizing t with
  | nil => simp [others]
  | cons u ts ih => rw [List.intercalate_cons_cons, ih, others, others, List.flatMap_cons]; simp

theorem numEnd_others (ts : List (List Char)) {close : Char} (hclose : JsJson.Closes close)
    (r : List Char) : NumEnd (others ts ++ close :: r) := by
  cases ts with
  | nil => exact hclose.numEnd r
  | cons t ts => simp [others, NumEnd]

theorem length_others_cons (t : List Char) (ts : List (List Char)) :
    (others (t :: ts)).length = t.length + 1 + (others ts).length := by
  simp only [others, List.flatMap_cons, List.length_append, List.length_cons]

theorem others_cons_append (t : List Char) (ts : List (List Char)) (r : List Char) :
    others (t :: ts) ++ r = ',' :: (t ++ (others ts ++ r)) := by
  simp [others]

theorem readElems_others {js : List Json} {ts : List (List Char)} (h : List.Forall₂ Loads js ts) :
    ∀ (n : ℕ) (r : List Char), (others ts).length + 1 ≤ n →
      JsonText.readElems n (others ts ++ ']' :: r) = some (js, r) := by
  induction h with
  | nil =>
    intro n r hn
    obtain ⟨n, rfl⟩ : ∃ n', n = n' + 1 := ⟨n - 1, by omega⟩
    simp [others, JsonText.readElems, JsonText.skipBlanks, JsonText.isBlank]
  | @cons j t js ts hj hjs ih =>
    intro n r hn
    obtain ⟨n, rfl⟩ : ∃ n', n = n' + 1 := ⟨n - 1, by omega⟩
    rw [length_others_cons] at hn
    have hfirst := hj n _ (by omega) (numEnd_others ts JsJson.closes_bracket r)
    have hrest := ih n r (by omega)
    rw [others_cons_append, JsonText.readElems, JsonText.skipBlanks_cons (by decide)]
    simp [hfirst, hrest]

theorem readMembers_others {ms : List (String × Json)} {ts : List (List Char)}
    (h : List.Forall₂ LoadsMember ms ts) :
    ∀ (n : ℕ) (r : List Char), (others ts).length + 1 ≤ n →
      JsonText.readMembers n (others ts ++ '}' :: r) = some (ms, r) := by
  induction h with
  | nil =>
    intro n r hn
    obtain ⟨n, rfl⟩ : ∃ n', n = n' + 1 := ⟨n - 1, by omega⟩
    simp [others, JsonText.readMembers, JsonText.skipBlanks, JsonText.isBlank]
  | @cons m t ms ts hm hms ih =>
    intro n r hn
    obtain ⟨n, rfl⟩ : ∃ n', n = n' + 1 := ⟨n - 1, by omega⟩
    rw [length_others_cons] at hn
    have hfirst := hm n _ (by omega) (numEnd_others ts JsJson.closes_brace r)
    have hrest := ih n r (by omega)
    rw [others_cons_append, JsonText.readMembers, JsonText.skipBlanks_cons (by decide)]
    simp [hfirst, hrest]

theorem loads_array {js : List Json} {ts : List (List Char)} (h : List.Forall₂ Loads js ts)
    (hbegins : ∀ t ∈ ts, JsJson.Begins ']' t) :
    Loads (.arr js) ('[' :: ([','].intercalate ts ++ [']'])) := by
  refine Loads.of_succ (List.cons_ne_nil _ _) fun n r hn _ => ?_
  cases h with
  | nil => simp [JsonText.readValue, JsonText.skipBlanks, JsonText.isBlank]
  | @cons j t js ts hj hjs =>
    rw [intercalate_cons] at hn ⊢
    simp only [List.length_cons, List.length_append, List.length_nil] at hn
    have hfirst := hj n _ (by omega) (numEnd_others ts JsJson.closes_bracket r)
    have hrest := readElems_others hjs n r (by omega)
    obtain ⟨c, s, rfl, hblank, hne⟩ := hbegins t List.mem_cons_self
    simp only [List.cons_append, List.append_assoc, List.nil_append] at hfirst ⊢
    rw [JsonText.readValue, JsonText.skipBlanks_cons (by decide)]
    simp only [JsonText.skipBlanks_cons hblank]
    split
    · next heq => exact absurd (List.cons.inj heq).1 hne
    · rw [hfirst]
      simp [hrest]

theorem loads_object {ms : List (String × Json)} {ts : List (List Char)}
    (h : List.Forall₂ LoadsMember ms ts) (hbegins : ∀ t ∈ ts, JsJson.Begins '}' t) :
    Loads (.obj ms) ('{' :: ([','].intercalate ts ++ ['}'])) := by
  refine Loads.of_succ (List.cons_ne_nil _ _) fun n r hn _ => ?_
  cases h with
  | nil => simp [JsonText.readValue, JsonText.skipBlanks, JsonText.isBlank]
  | @cons m t ms ts hm hms =>
    rw [intercalate_cons] at hn ⊢
    simp only [List.length_cons, List.length_append, List.length_nil] at hn
    have hfirst := hm n _ (by omega) (numEnd_others ts JsJson.closes_brace r)
    have hrest := readMembers_others hms n r (by omega)
    obtain ⟨c, s, rfl, hblank, hne⟩ := hbegins t List.mem_cons_self
    simp only [List.cons_append, List.append_assoc, List.nil_append] at hfirst ⊢
    rw [JsonText.readValue, JsonText.skipBlanks_cons (by decide)]
    simp only [JsonText.skipBlanks_cons hblank]
    split
    · next heq => exact absurd (List.cons.inj heq).1 hne
    · rw [hfirst]
      simp [hrest]

theorem loads_string (s : String) : Loads (.str s) (JsJson.quote s) := by
  refine Loads.of_succ (List.cons_ne_nil _ _) fun n r _ _ => ?_
  have htext : JsJson.quote s ++ r = '"' :: (s.toList.flatMap JsJson.quoteChar ++ '"' :: r) := by
    simp [JsJson.quote]
  rw [htext, JsonText.readValue, JsonText.skipBlanks_cons (by decide)]
  simp [JsJson.readBody_quote]

theorem loads_member {j : Json} {t : List Char} (key : String) (h : Loads j t) :
    LoadsMember (key, j) (JsJson.quote key ++ ':' :: t) := by
  intro n r hn hr
  obtain ⟨n, rfl⟩ : ∃ n', n = n' + 1 := ⟨n - 1, by simp [JsJson.quote] at hn; omega⟩
  have hvalue := h n r (by simp [JsJson.quote] at hn; omega) hr
  have htext : JsJson.quote key ++ ':' :: t ++ r =
      '"' :: (key.toList.flatMap JsJson.quoteChar ++ '"' :: (':' :: (t ++ r))) := by
    simp [JsJson.quote]
  rw [htext, JsonText.readMember, JsonText.skipBlanks_cons (by decide)]
  simp only [JsJson.readBody_quote, JsonText.skipBlanks_cons (show JsonText.isBlank ':' = false by
    decide), hvalue, Option.map_some, String.ofList_toList]

/-- A text that begins as a number does is read as one. -/
theorem loads_number {m : Number} {t : List Char} {c : Char} {s : List Char} (ht : t = c :: s)
    (hc : JsJson.NumStart c)
    (hread : ∀ r, NumEnd r → JsonText.readNumber (t ++ r) = some (m, r)) : Loads (.num m) t := by
  refine Loads.of_succ (ht ▸ List.cons_ne_nil c s) fun n r _ hr => ?_
  have hread := hread r hr
  rw [ht, List.cons_append] at hread ⊢
  have hne : ∀ d ∈ ['n', 't', 'f', '"', '[', '{'], c ≠ d := by
    have hall : ∀ d ∈ ['n', 't', 'f', '"', '[', '{'], d ≠ '-' ∧ d.isDigit = false :=
      List.all_iff_forall_prop.mp (by decide)
    exact fun d hd => JsJson.ne_of_numStart hc (hall d hd).1 (hall d hd).2
  rw [JsonText.readValue, JsonText.skipBlanks_cons (JsJson.isBlank_of_numStart hc)]
  split
  all_goals first
    | (next h => exact absurd (List.cons.inj h).1 (hne _ (by simp)))
    | rw [hread]; rfl

theorem loads_null : Loads .null "null".toList :=
  .of_succ (by decide) fun n r _ _ => by
    simp [JsonText.readValue, JsonText.skipBlanks, JsonText.isBlank]

theorem loads_bool (b : Bool) : Loads (.bool b) (JsJson.stringify (.bool b)) := by
  cases b <;> refine Loads.of_succ (by simp [JsJson.stringify]) fun n r _ _ => ?_
  all_goals simp [JsJson.stringify, JsonText.readValue, JsonText.skipBlanks, JsonText.isBlank]

theorem loads_numberToString (x : JsJson.Num) :
    Loads (.num (number x)) (JsJson.numberToString x) := by
  obtain ⟨c, s, ht, hc⟩ := JsJson.numberToString_cons x
  exact loads_number ht hc fun r => readNumber_numberToString x

mutual
theorem loads_fromJs : ∀ v : Value, Loads (fromJs v) (JsJson.stringify v)
  | .null => loads_null
  | .bool b => loads_bool b
  | .number x => loads_numberToString x
  | .string s => loads_string s
  | .array xs => loads_array (loads_fromJsAll xs) (JsJson.begins_texts xs)
  | .object ms => loads_object (loads_fromJsMembers ms) (JsJson.begins_memberTexts ms)

theorem loads_fromJsAll : ∀ xs : List Value,
    List.Forall₂ Loads (fromJsAll xs) (JsJson.texts xs)
  | [] => .nil
  | x :: xs => .cons (loads_fromJs x) (loads_fromJsAll xs)

theorem loads_fromJsMembers : ∀ ms : List (String × Value),
    List.Forall₂ LoadsMember (fromJsMembers ms) (JsJson.memberTexts ms)
  | [] => .nil
  | (key, v) :: ms => .cons (loads_member key (loads_fromJs v)) (loads_fromJsMembers ms)
end

theorem Loads.loads {j : Json} {t : List Char} (h : Loads j t) : JsonText.loads t = some j := by
  have hread := h (t.length + 1) [] (Nat.le_succ _) (by simp [NumEnd])
  rw [List.append_nil] at hread
  simp [JsonText.loads, hread, JsonText.skipBlanks]

/-- `json.loads` after `JSON.stringify`. -/
theorem loads_stringify (v : Value) : JsonText.loads (JsJson.stringify v) = some (fromJs v) :=
  (loads_fromJs v).loads

/-! ## From Python to JavaScript -/

/-- The number in JavaScript; an infinite one or `NaN` has no text that is read there. -/
def toNum : Number → JsJson.Num
  | .int n => .ofInt n
  | .float d _ => .ofScaled d.neg d.mant d.exp
  | .infinity _ | .nan => .ofInt 0

/-- A way to write finite numbers that both languages read. -/
structure NumberWriter where
  write : Number → List Char
  starts : ∀ n, n.isFinite → ∃ c t, write n = c :: t ∧ JsJson.NumStart c
  loads : ∀ (n : Number) (r : List Char), n.isFinite → NumEnd r →
    JsonText.readNumber (write n ++ r) = some (n, r)
  parses : ∀ (n : Number) (r : List Char), n.isFinite → NumEnd r →
    JsJson.readNumber (write n ++ r) = some (toNum n, r)

section Render

variable (W : NumberWriter)

mutual
/-- `json.dumps` without blanks and without escaping to ASCII. -/
def render : Json → List Char
  | .null => "null".toList
  | .bool true => "true".toList
  | .bool false => "false".toList
  | .num n => W.write n
  | .str s => JsJson.quote s
  | .arr xs => '[' :: ([','].intercalate (renderAll xs) ++ [']'])
  | .obj ms => '{' :: ([','].intercalate (renderMembers ms) ++ ['}'])

def renderAll : List Json → List (List Char)
  | [] => []
  | x :: xs => render x :: renderAll xs

def renderMembers : List (String × Json) → List (List Char)
  | [] => []
  | (key, v) :: ms => (JsJson.quote key ++ ':' :: render v) :: renderMembers ms
end

end Render

mutual
/-- What `JSON.parse` makes of the text of a value. -/
def toJs : Json → Value
  | .null => .null
  | .bool b => .bool b
  | .num n => .number (toNum n)
  | .str s => .string s
  | .arr xs => .array (toJsAll xs)
  | .obj ms => .object (ownProperties (toJsMembers ms))

def toJsAll : List Json → List Value
  | [] => []
  | x :: xs => toJs x :: toJsAll xs

def toJsMembers : List (String × Json) → List (String × Value)
  | [] => []
  | (key, v) :: ms => (key, toJs v) :: toJsMembers ms
end

mutual
/-- Every number is finite, and an integer is one that JavaScript holds: no text is refused or
rounded where it is read. -/
def Exact : Json → Prop
  | .num (.int n) => n.natAbs ≤ 2 ^ 53
  | .num (.infinity _) | .num .nan => False
  | .arr xs => ExactAll xs
  | .obj ms => ExactMembers ms
  | .null | .bool _ | .num (.float _ _) | .str _ => True

def ExactAll : List Json → Prop
  | [] => True
  | x :: xs => Exact x ∧ ExactAll xs

def ExactMembers : List (String × Json) → Prop
  | [] => True
  | (_, v) :: ms => Exact v ∧ ExactMembers ms
end

mutual
theorem Exact.isFinite : ∀ {j : Json}, Exact j → j.isFinite
  | .num (.int _), _ | .num (.float _ _), _ | .null, _ | .bool _, _ | .str _, _ => rfl
  | .num (.infinity _), h | .num .nan, h => h.elim
  | .arr _, h => ExactAll.allFinite h
  | .obj _, h => ExactMembers.membersFinite h

theorem ExactAll.allFinite : ∀ {xs : List Json}, ExactAll xs → JsonText.allFinite xs
  | [], _ => rfl
  | _ :: _, h => Bool.and_eq_true_iff.mpr ⟨Exact.isFinite h.1, ExactAll.allFinite h.2⟩

theorem ExactMembers.membersFinite : ∀ {ms : List (String × Json)},
    ExactMembers ms → JsonText.membersFinite ms
  | [], _ => rfl
  | (_, _) :: _, h => Bool.and_eq_true_iff.mpr ⟨Exact.isFinite h.1, ExactMembers.membersFinite h.2⟩
end

/-! ### Numbers -/

theorem ofScaled_scale (d : Decimal) (k : ℕ) :
    JsJson.Num.ofScaled d.neg (d.mant * 10 ^ k) (d.exp - k) =
      JsJson.Num.ofScaled d.neg d.mant d.exp := by
  have hzero : (d.mant * 10 ^ k != 0) = (d.mant != 0) := by
    rw [Bool.eq_iff_iff]
    simp
  have hscaled : ∀ neg (j : ℕ),
      Decimal.ofScaled neg (d.mant * 10 ^ j) (d.exp - j) = { d with neg := neg } :=
    fun neg j => Decimal.ofScaled_scale { d with neg := neg } j
  have hplain := hscaled (d.neg && d.mant != 0) 0
  rw [pow_zero, Nat.mul_one, Nat.cast_zero, sub_zero] at hplain
  refine JsJson.Num.eq_of_decimal ?_
  rw [JsJson.Num.decimal_ofScaled, JsJson.Num.decimal_ofScaled, hzero, hscaled, hplain]

/-- A number in parts, before a text that is read as its exponent. -/
theorem readMagnitude_parts (neg : Bool) {ip fp t r : List Char} {e : ℤ} (hip : IntegerPart ip)
    (hfp : ∀ c ∈ fp, c.isDigit = true) (ht : ∀ c ∈ t.head?, c.isDigit = false ∧ c ≠ '.')
    (hread : JsJson.readExponent t = some (e, r)) :
    JsJson.readMagnitude neg (ip ++ (writeFraction fp ++ t)) =
      some (.ofScaled neg (Nat.ofDigitChars 10 (ip ++ fp) 0) (e - fp.length), r) := by
  have hdigit : NoDigit t := fun c hc => (ht c hc).1
  have hspan : spanDigits (ip ++ (writeFraction fp ++ t)) = (ip, writeFraction fp ++ t) :=
    JsonText.spanDigits_append hip.isDigit (JsonText.noDigit_fraction _ hdigit)
  have hstrict : ip = ['0'] ∨ ip ≠ [] ∧ ip.head? ≠ some '0' :=
    hip.strict.imp_right fun h => ⟨hip.ne_nil, h⟩
  have hfraction : JsJson.readFraction (writeFraction fp ++ t) = some (fp, t) := by
    by_cases hnil : fp = []
    · subst hnil
      rw [writeFraction, if_pos rfl, List.nil_append, JsJson.readFraction.eq_def]
      split
      · exact absurd rfl (ht '.' (by simp)).2
      · rfl
    · rw [writeFraction, if_neg hnil, List.cons_append, JsJson.readFraction,
        JsonText.spanDigits_append hfp hdigit, if_neg hnil]
  simp only [JsJson.readMagnitude, hspan, if_pos hstrict, hfraction, hread,
    Option.bind_eq_bind, Option.bind_some, Option.pure_def]

theorem integerPart_digits (n : ℕ) : IntegerPart (digits n) := by
  refine ⟨JsonText.isDigits_digits n, ?_⟩
  rcases eq_or_ne n 0 with rfl | hn
  · exact Or.inl (by decide)
  · exact Or.inr (JsJson.head?_digits hn)

theorem readMagnitude_digits (neg : Bool) (n : ℕ) {r : List Char} (hr : NumEnd r) :
    JsJson.readMagnitude neg (digits n ++ r) = some (.ofScaled neg n 0, r) := by
  have hexponent : JsJson.readExponent r = some (0, r) := JsJson.readExponent_write none hr
  have hread := readMagnitude_parts neg (integerPart_digits n)
    (List.forall_mem_nil (Char.isDigit · = true))
    (fun c hc => ⟨(hr c hc).1, (hr c hc).2.1⟩) hexponent
  rwa [writeFraction, if_pos rfl, List.nil_append, List.append_nil,
    JsonText.ofDigitChars_digits] at hread

/-- The integer part of a float: no zero stands before another digit. -/
theorem integerPart_parts (d : Decimal) : IntegerPart d.parts.ip := by
  by_cases hm : d.mant = 0
  · have hexp : d.exp = 0 := by
      rcases d.canonical with ⟨-, hexp⟩ | hmod
      · exact hexp
      · omega
    have hparts : d.parts.ip = ['0'] := by simp [Decimal.parts, Decimal.decpt, hm, hexp]
    rw [hparts]
    exact ⟨JsJson.isDigits_zero, Or.inl rfl⟩
  have htake : ∀ n, 0 < n → IntegerPart ((digits d.mant).take n) := fun n hn => by
    simpa using JsJson.integerPart_take hm hn [] (List.forall_mem_nil _)
  unfold Decimal.parts
  split_ifs with h1 h2 h3
  · exact ⟨JsJson.isDigits_zero, Or.inl rfl⟩
  · have hwhole := JsJson.integerPart_take hm
      (List.length_pos_of_ne_nil (JsonText.isDigits_digits d.mant).ne_nil)
      (List.replicate (d.decpt.toNat - (digits d.mant).length) '0')
      (JsonText.replicate_zero_isDigit _)
    rwa [List.take_length] at hwhole
  · exact htake _ (by omega)
  · exact htake 1 Nat.one_pos

theorem readExponent_writeExponent (x : Option ℤ) {r : List Char} (hr : NumEnd r) :
    JsJson.readExponent (JsonText.writeExponent x ++ r) = some (x.getD 0, r) := by
  cases x with
  | none => exact JsJson.readExponent_write none hr
  | some e => exact JsonText.readExp_write e hr.noDigit

theorem head_writeExponent (x : Option ℤ) {r : List Char} (hr : NumEnd r) :
    ∀ c ∈ (JsonText.writeExponent x ++ r).head?, c.isDigit = false ∧ c ≠ '.' := by
  intro c hc
  cases x with
  | none => exact ⟨(hr c hc).1, (hr c hc).2.1⟩
  | some e =>
    obtain rfl : 'e' = c := by simpa [JsonText.writeExponent] using hc
    decide

theorem readMagnitude_decimal (d : Decimal) {r : List Char} (hr : NumEnd r) :
    JsJson.readMagnitude d.neg (d.parts.write ++ r) =
      some (.ofScaled d.neg d.mant d.exp, r) := by
  obtain ⟨hok, k, hmant, hexp⟩ := d.parts_spec
  have hread := readMagnitude_parts d.neg (integerPart_parts d) hok.fp
    (head_writeExponent d.parts.exp hr) (readExponent_writeExponent d.parts.exp hr)
  rw [hmant, hexp, ofScaled_scale] at hread
  rw [JsonText.Parts.write, List.append_assoc, List.append_assoc]
  exact hread

theorem readNumber_of_isDigits {ds r : List Char} (h : JsonText.IsDigits ds) :
    JsJson.readNumber (ds ++ r) = JsJson.readMagnitude false (ds ++ r) := by
  obtain ⟨d, ds, rfl⟩ := List.exists_cons_of_ne_nil h.ne_nil
  rw [List.cons_append, JsJson.readNumber.eq_def]
  split
  · next heq =>
    obtain ⟨rfl, -⟩ := List.cons.inj heq
    exact absurd (h.isDigit '-' List.mem_cons_self) (by decide)
  · rfl

theorem readNumber_writeNumber {n : Number} (hn : n.isFinite) {r : List Char} (hr : NumEnd r) :
    JsJson.readNumber (JsonText.writeNumber n ++ r) = some (toNum n, r) := by
  cases n with
  | infinity | nan => cases hn
  | int n =>
    simp only [JsonText.writeNumber, JsonText.writeInt]
    split_ifs with hneg
    · rw [List.cons_append, JsJson.readNumber, readMagnitude_digits true _ hr, toNum,
        JsJson.Num.ofInt,
        decide_eq_true hneg]
    · rw [readNumber_of_isDigits (JsonText.isDigits_digits _), readMagnitude_digits false _ hr,
        toNum, JsJson.Num.ofInt, decide_eq_false hneg]
  | float d =>
    have hread := readMagnitude_decimal d hr
    simp only [JsonText.writeNumber, JsonText.writeDecimal, toNum]
    split_ifs with hneg
    · rw [hneg] at hread ⊢
      exact hread
    · rw [Bool.eq_false_iff.mpr hneg] at hread ⊢
      rw [JsonText.Parts.write, List.append_assoc,
        readNumber_of_isDigits (integerPart_parts d).toIsDigits, ← List.append_assoc]
      exact hread

/-- Numbers as `json.dumps` writes them. -/
def NumberWriter.dumps : NumberWriter where
  write := JsonText.writeNumber
  starts _ := JsonText.writeNumber_head
  loads n _ _ := JsonText.readNumber_write n
  parses _ _ hn := readNumber_writeNumber hn

/-! ### Values -/

section Begins

variable (W : NumberWriter)

theorem begins_render {j : Json} (hj : j.isFinite) : JsJson.Begins ']' (render W j) := by
  match j with
  | .null => exact ⟨'n', _, rfl, by decide, by decide⟩
  | .bool true => exact ⟨'t', _, rfl, by decide, by decide⟩
  | .bool false => exact ⟨'f', _, rfl, by decide, by decide⟩
  | .str s => exact ⟨'"', _, rfl, by decide, by decide⟩
  | .arr xs => exact ⟨'[', _, rfl, by decide, by decide⟩
  | .obj ms => exact ⟨'{', _, rfl, by decide, by decide⟩
  | .num n =>
    obtain ⟨c, t, heq, hc⟩ := W.starts n hj
    exact ⟨c, t, heq, JsJson.isBlank_of_numStart hc,
      JsJson.ne_of_numStart hc (by decide) (by decide)⟩

theorem begins_renderAll {xs : List Json} (hxs : JsonText.allFinite xs) :
    ∀ t ∈ renderAll W xs, JsJson.Begins ']' t := by
  induction xs with
  | nil => exact List.forall_mem_nil _
  | cons x xs ih =>
    obtain ⟨hx, hxs⟩ := Bool.and_eq_true_iff.mp hxs
    exact List.forall_mem_cons.mpr ⟨begins_render W hx, ih hxs⟩

theorem begins_renderMembers (ms : List (String × Json)) :
    ∀ t ∈ renderMembers W ms, JsJson.Begins '}' t := by
  induction ms with
  | nil => exact List.forall_mem_nil _
  | cons m ms ih => exact List.forall_mem_cons.mpr ⟨⟨'"', _, rfl, by decide, by decide⟩, ih⟩

end Begins

/-- The text is read as `v`, whatever follows it. -/
def Parses (v : Value) (t : List Char) : Prop :=
  ∀ n, t.length ≤ n → JsJson.Reads (JsJson.readValue n) v t

def ParsesMember (m : String × Value) (t : List Char) : Prop :=
  ∀ n, t.length ≤ n → JsJson.Reads (JsJson.readMember (JsJson.readValue n)) m t

theorem Parses.of_succ {v : Value} {t : List Char} (hne : t ≠ [])
    (h : ∀ n, t.length ≤ n + 1 → JsJson.Reads (JsJson.readValue (n + 1)) v t) : Parses v t := by
  intro n hn
  have hpos := List.length_pos_of_ne_nil hne
  obtain ⟨n, rfl⟩ : ∃ n', n = n' + 1 := ⟨n - 1, by omega⟩
  exact h n hn

theorem forall_parses {α : Type} {P : α → List Char → Prop}
    (item : List Char → Option (α × List Char)) {n : ℕ} {xs : List α} {ts : List (List Char)}
    (h : List.Forall₂ P xs ts)
    (hread : ∀ x t, P x t → t.length ≤ n → JsJson.Reads item x t)
    (hn : ([','].intercalate ts).length ≤ n) : List.Forall₂ (JsJson.Reads item) xs ts := by
  have hlength : ∀ t ∈ ts, t.length ≤ n := fun t ht =>
    (JsJson.length_le_intercalate t ht).trans hn
  clear hn
  induction h with
  | nil => exact .nil
  | cons hx _ ih =>
    obtain ⟨ht, hts⟩ := List.forall_mem_cons.mp hlength
    exact .cons (hread _ _ hx ht) (ih hts)

theorem parses_array {vs : List Value} {ts : List (List Char)} (h : List.Forall₂ Parses vs ts)
    (hbegins : ∀ t ∈ ts, JsJson.Begins ']' t) :
    Parses (.array vs) ('[' :: ([','].intercalate ts ++ [']'])) := by
  refine Parses.of_succ (List.cons_ne_nil _ _) fun n hn r _ => ?_
  simp only [List.length_cons, List.length_append, List.length_nil] at hn
  have hreads := forall_parses (JsJson.readValue n) (n := n) h
    (fun _ _ hv ht => hv n ht) (by omega)
  have hcount := JsJson.count_le_intercalate fun t ht => (hbegins t ht).ne_nil
  rw [← h.length_eq] at hcount
  have hlist := JsJson.readList_intercalate JsJson.closes_bracket hreads hbegins (n := n)
    (by omega) r
  have htext : '[' :: ([','].intercalate ts ++ [']']) ++ r =
      '[' :: ([','].intercalate ts ++ ']' :: r) := by simp
  rw [htext, JsJson.readValue, JsonText.skipBlanks_cons (by decide)]
  simp [hlist]

theorem parses_object {ms : List (String × Value)} {ts : List (List Char)}
    (h : List.Forall₂ ParsesMember ms ts) (hbegins : ∀ t ∈ ts, JsJson.Begins '}' t) :
    Parses (.object (ownProperties ms)) ('{' :: ([','].intercalate ts ++ ['}'])) := by
  refine Parses.of_succ (List.cons_ne_nil _ _) fun n hn r _ => ?_
  simp only [List.length_cons, List.length_append, List.length_nil] at hn
  have hreads := forall_parses (JsJson.readMember (JsJson.readValue n)) (n := n) h
    (fun _ _ hm ht => hm n ht) (by omega)
  have hcount := JsJson.count_le_intercalate fun t ht => (hbegins t ht).ne_nil
  rw [← h.length_eq] at hcount
  have hlist := JsJson.readList_intercalate JsJson.closes_brace hreads hbegins (n := n)
    (by omega) r
  have htext : '{' :: ([','].intercalate ts ++ ['}']) ++ r =
      '{' :: ([','].intercalate ts ++ '}' :: r) := by simp
  rw [htext, JsJson.readValue, JsonText.skipBlanks_cons (by decide)]
  simp [hlist]

theorem parses_string (s : String) : Parses (.string s) (JsJson.quote s) :=
  .of_succ (List.cons_ne_nil _ _) fun n _ r _ => by
    have htext : JsJson.quote s ++ r =
        '"' :: (s.toList.flatMap JsJson.quoteChar ++ '"' :: r) := by
      simp [JsJson.quote]
    rw [htext, JsJson.readValue, JsonText.skipBlanks_cons (by decide)]
    simp [JsJson.readBody_quote]

theorem parses_member {v : Value} {t : List Char} (key : String) (h : Parses v t) :
    ParsesMember (key, v) (JsJson.quote key ++ ':' :: t) := by
  intro n hn r hr
  simp only [List.length_append, List.length_cons] at hn
  have hvalue := h n (by omega) r hr
  have htext : JsJson.quote key ++ ':' :: t ++ r =
      '"' :: (key.toList.flatMap JsJson.quoteChar ++ '"' :: (':' :: (t ++ r))) := by
    simp [JsJson.quote]
  rw [htext, JsJson.readMember, JsonText.skipBlanks_cons (by decide)]
  simp only [JsJson.readBody_quote, Option.bind_eq_bind, Option.bind_some,
    JsonText.skipBlanks_cons (show JsonText.isBlank ':' = false by decide), hvalue,
    Option.map_some, String.ofList_toList]

theorem parses_null : Parses .null "null".toList :=
  .of_succ (by decide) fun n _ r _ => by
    simp [JsJson.readValue, JsonText.skipBlanks, JsonText.isBlank]

theorem parses_bool (b : Bool) : Parses (.bool b) (JsJson.stringify (.bool b)) := by
  cases b <;> refine Parses.of_succ (by simp [JsJson.stringify]) fun n _ r _ => ?_
  all_goals simp [JsJson.stringify, JsJson.readValue, JsonText.skipBlanks, JsonText.isBlank]

/-- A text that begins as a number does is read as one. -/
theorem parses_number {x : JsJson.Num} {t : List Char} {c : Char} {s : List Char} (ht : t = c :: s)
    (hc : JsJson.NumStart c)
    (hread : ∀ r, NumEnd r → JsJson.readNumber (t ++ r) = some (x, r)) :
    Parses (.number x) t := by
  refine Parses.of_succ (ht ▸ List.cons_ne_nil c s) fun n _ r hr => ?_
  have hread := hread r hr
  rw [ht, List.cons_append] at hread ⊢
  have hne : ∀ d ∈ ['n', 't', 'f', '"', '[', '{'], c ≠ d := by
    have hall : ∀ d ∈ ['n', 't', 'f', '"', '[', '{'], d ≠ '-' ∧ d.isDigit = false :=
      List.all_iff_forall_prop.mp (by decide)
    exact fun d hd => JsJson.ne_of_numStart hc (hall d hd).1 (hall d hd).2
  rw [JsJson.readValue, JsonText.skipBlanks_cons (JsJson.isBlank_of_numStart hc)]
  split
  all_goals first
    | (next h => exact absurd (List.cons.inj h).1 (hne _ (by simp)))
    | rw [hread]; rfl

section Read

variable (W : NumberWriter)

mutual
theorem parses_toJs : ∀ j : Json, j.isFinite → Parses (toJs j) (render W j)
  | .null, _ => parses_null
  | .bool true, _ => parses_bool true
  | .bool false, _ => parses_bool false
  | .num n, h => by
    obtain ⟨c, s, ht, hc⟩ := W.starts n h
    exact parses_number ht hc fun r => W.parses n r h
  | .str s, _ => parses_string s
  | .arr xs, h => parses_array (parses_toJsAll xs h) (begins_renderAll W h)
  | .obj ms, h => parses_object (parses_toJsMembers ms h) (begins_renderMembers W ms)

theorem parses_toJsAll : ∀ xs : List Json, JsonText.allFinite xs →
    List.Forall₂ Parses (toJsAll xs) (renderAll W xs)
  | [], _ => .nil
  | x :: xs, h =>
    have ⟨hx, hxs⟩ := Bool.and_eq_true_iff.mp h
    .cons (parses_toJs x hx) (parses_toJsAll xs hxs)

theorem parses_toJsMembers : ∀ ms : List (String × Json), JsonText.membersFinite ms →
    List.Forall₂ ParsesMember (toJsMembers ms) (renderMembers W ms)
  | [], _ => .nil
  | (key, v) :: ms, h =>
    have ⟨hv, hms⟩ := Bool.and_eq_true_iff.mp h
    .cons (parses_member key (parses_toJs v hv)) (parses_toJsMembers ms hms)
end

/-- `JSON.parse` after `json.dumps`. -/
theorem parse_render {j : Json} (h : j.isFinite) : JsJson.parse (render W j) = some (toJs j) := by
  have hread := parses_toJs W j h ((render W j).length + 1) (Nat.le_succ _) [] (by simp [NumEnd])
  rw [List.append_nil] at hread
  simp [JsJson.parse, hread, JsonText.skipBlanks]

mutual
theorem loads_self : ∀ j : Json, j.isFinite → Loads j (render W j)
  | .null, _ => loads_null
  | .bool true, _ => loads_bool true
  | .bool false, _ => loads_bool false
  | .num n, h => by
    obtain ⟨c, s, ht, hc⟩ := W.starts n h
    exact loads_number ht hc fun r => W.loads n r h
  | .str s, _ => loads_string s
  | .arr xs, h => loads_array (loads_selfAll xs h) (begins_renderAll W h)
  | .obj ms, h => loads_object (loads_selfMembers ms h) (begins_renderMembers W ms)

theorem loads_selfAll : ∀ xs : List Json, JsonText.allFinite xs →
    List.Forall₂ Loads xs (renderAll W xs)
  | [], _ => .nil
  | x :: xs, h =>
    have ⟨hx, hxs⟩ := Bool.and_eq_true_iff.mp h
    .cons (loads_self x hx) (loads_selfAll xs hxs)

theorem loads_selfMembers : ∀ ms : List (String × Json), JsonText.membersFinite ms →
    List.Forall₂ LoadsMember ms (renderMembers W ms)
  | [], _ => .nil
  | (key, v) :: ms, h =>
    have ⟨hv, hms⟩ := Bool.and_eq_true_iff.mp h
    .cons (loads_member key (loads_self v hv)) (loads_selfMembers ms hms)
end

/-- The text determines a finite value. -/
theorem render_injective {j k : Json} (hj : j.isFinite) (hk : k.isFinite)
    (h : render W j = render W k) : j = k := by
  have hread := (loads_self W j hj).loads
  rw [h, (loads_self W k hk).loads] at hread
  exact (Option.some.inj hread).symm

end Read

/-! ## There and back -/

theorem ofScaled_self (x : JsJson.Num) (k : ℕ) :
    JsJson.Num.ofScaled x.decimal.neg (x.decimal.mant * 10 ^ k) (x.decimal.exp - k) = x := by
  rw [ofScaled_scale]
  refine JsJson.Num.eq_of_decimal ?_
  have hneg : (x.decimal.neg && x.decimal.mant != 0) = x.decimal.neg := by
    by_cases hm : x.decimal.mant = 0
    · rw [x.zero_pos hm, Bool.false_and]
    · simp [hm]
  have hplain := x.decimal.ofScaled_scale 0
  rw [pow_zero, Nat.mul_one, Nat.cast_zero, sub_zero] at hplain
  rw [JsJson.Num.decimal_ofScaled, hneg, hplain]

theorem ofInt_signed (neg : Bool) (m : ℕ) :
    JsJson.Num.ofInt (if neg then -(m : ℤ) else m) = JsJson.Num.ofScaled neg m 0 := by
  cases neg with
  | false => simp [JsJson.Num.ofInt, Int.not_lt.mpr (Int.natCast_nonneg m)]
  | true =>
    have hsign : (decide (-(m : ℤ) < 0) && m != 0) = (true && m != 0) := by
      rcases eq_or_ne m 0 with rfl | hm
      · rfl
      · simp [Nat.pos_of_ne_zero hm]
    refine JsJson.Num.eq_of_decimal ?_
    simp only [if_true, JsJson.Num.ofInt, Int.natAbs_neg, Int.natAbs_natCast,
      JsJson.Num.decimal_ofScaled, hsign]

theorem toNum_number {x : JsJson.Num} (hx : x.decimal.InRange) : toNum (number x) = x := by
  by_cases hwhole : x.parts.fp = [] ∧ x.parts.exp = none
  · obtain ⟨-, -, k, hmant, hexp⟩ := x.parts_spec
    rw [hwhole.1, List.append_nil] at hmant
    rw [hwhole.1, hwhole.2, Option.getD_none, List.length_nil, Nat.cast_zero, sub_zero] at hexp
    rw [number, if_pos hwhole, toNum, ofInt_signed, hmant, hexp, ofScaled_self]
  · have hself := ofScaled_self x 0
    rw [pow_zero, Nat.mul_one, Nat.cast_zero, sub_zero] at hself
    rw [number, if_neg hwhole, Number.ofDecimal_of_inRange hx, toNum, hself]

mutual
/-- Every number is one that JavaScript holds. -/
def Held : Value → Prop
  | .number x => x.decimal.InRange
  | .array xs => HeldAll xs
  | .object ms => HeldMembers ms
  | .null | .bool _ | .string _ => True

def HeldAll : List Value → Prop
  | [] => True
  | x :: xs => Held x ∧ HeldAll xs

def HeldMembers : List (String × Value) → Prop
  | [] => True
  | (_, v) :: ms => Held v ∧ HeldMembers ms
end

theorem isFinite_number {x : JsJson.Num} (hx : x.decimal.InRange) : (number x).isFinite := by
  by_cases hwhole : x.parts.fp = [] ∧ x.parts.exp = none
  · rw [number, if_pos hwhole]
    rfl
  · rw [number, if_neg hwhole, Number.ofDecimal_of_inRange hx]
    rfl

mutual
theorem isFinite_fromJs : ∀ v : Value, Held v → (fromJs v).isFinite
  | .null, _ | .bool _, _ | .string _, _ => rfl
  | .number _, h => isFinite_number h
  | .array xs, h => allFinite_fromJsAll xs h
  | .object ms, h => membersFinite_fromJsMembers ms h

theorem allFinite_fromJsAll : ∀ xs : List Value, HeldAll xs → JsonText.allFinite (fromJsAll xs)
  | [], _ => rfl
  | x :: xs, h => Bool.and_eq_true_iff.mpr ⟨isFinite_fromJs x h.1, allFinite_fromJsAll xs h.2⟩

theorem membersFinite_fromJsMembers : ∀ ms : List (String × Value), HeldMembers ms →
    JsonText.membersFinite (fromJsMembers ms)
  | [], _ => rfl
  | (_, v) :: ms, h =>
    Bool.and_eq_true_iff.mpr ⟨isFinite_fromJs v h.1, membersFinite_fromJsMembers ms h.2⟩
end

mutual
/-- A value that comes back from Python as it arrived there is the same. -/
theorem toJs_fromJs : ∀ v : Value, v.Ordered → Held v → toJs (fromJs v) = v
  | .null, _, _ => rfl
  | .bool _, _, _ => rfl
  | .number x, _, h => by rw [fromJs, toJs, toNum_number h]
  | .string _, _, _ => rfl
  | .array xs, ho, h => by rw [fromJs, toJs, toJsAll_fromJsAll xs ho h]
  | .object ms, ho, h => by rw [fromJs, toJs, toJsMembers_fromJsMembers ms ho.2 h, ho.1]

theorem toJsAll_fromJsAll : ∀ xs : List Value, JsJson.OrderedAll xs → HeldAll xs →
    toJsAll (fromJsAll xs) = xs
  | [], _, _ => rfl
  | x :: xs, ho, h => by
    rw [fromJsAll, toJsAll, toJs_fromJs x ho.1 h.1, toJsAll_fromJsAll xs ho.2 h.2]

theorem toJsMembers_fromJsMembers : ∀ ms : List (String × Value), JsJson.OrderedMembers ms →
    HeldMembers ms → toJsMembers (fromJsMembers ms) = ms
  | [], _, _ => rfl
  | (key, v) :: ms, ho, h => by
    rw [fromJsMembers, toJsMembers, toJs_fromJs v ho.1 h.1,
      toJsMembers_fromJsMembers ms ho.2 h.2]
end

end JsonExchange
