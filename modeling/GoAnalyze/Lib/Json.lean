import Mathlib.Data.List.Sort
import Mathlib.Tactic

/-! JSON values and their text: numbers as integers, shortest round-trip decimals or
the floats that are none, strings escaped to ASCII, members in any order or sorted by
key. The reader of this text and the round trip are in `Lib.JsonRead`. -/

namespace JsonText

/-! ## Decimals -/

/-- A finite floating-point number by its shortest round-trip decimal
`± mant * 10 ^ exp`: no trailing zero in `mant`, and zero has exponent `0`. -/
structure Decimal where
  neg : Bool
  mant : ℕ
  exp : ℤ
  canonical : (mant = 0 ∧ exp = 0) ∨ mant % 10 ≠ 0
deriving DecidableEq

theorem Decimal.ext_iff' {d d' : Decimal} :
    d = d' ↔ d.neg = d'.neg ∧ d.mant = d'.mant ∧ d.exp = d'.exp := by
  cases d; cases d'; simp

/-- Move trailing zeros of a mantissa into the exponent; the fuel bounds how many. -/
def strip : ℕ → ℕ → ℤ → ℕ × ℤ
  | 0, m, e => (m, e)
  | f + 1, m, e => if m % 10 = 0 then strip f (m / 10) (e + 1) else (m, e)

theorem strip_mod : ∀ (f m : ℕ) (e : ℤ), m ≤ f → m ≠ 0 → (strip f m e).1 % 10 ≠ 0
  | 0, m, e, hf, hm => absurd (Nat.le_zero.mp hf) hm
  | f + 1, m, e, hf, hm => by
    unfold strip
    split_ifs with h
    · exact strip_mod f (m / 10) (e + 1) (by omega) (by omega)
    · exact h

/-- The canonical decimal of `± m * 10 ^ e`. -/
def Decimal.ofScaled (neg : Bool) (m : ℕ) (e : ℤ) : Decimal :=
  if hm : m = 0 then ⟨neg, 0, 0, Or.inl ⟨rfl, rfl⟩⟩
  else ⟨neg, (strip m m e).1, (strip m m e).2, Or.inr (strip_mod m m e le_rfl hm)⟩

theorem strip_of_mod {f m : ℕ} {e : ℤ} (h : m % 10 ≠ 0) : strip f m e = (m, e) := by
  cases f with
  | zero => rfl
  | succ f => simp [strip, h]

theorem strip_scale : ∀ (k f m : ℕ) (e : ℤ), k ≤ f → m % 10 ≠ 0 →
    strip f (m * 10 ^ k) e = (m, e + k)
  | 0, f, m, e, _, h => by simp [strip_of_mod h]
  | k + 1, f, m, e, hf, h => by
    obtain ⟨f, rfl⟩ : ∃ g, f = g + 1 := ⟨f - 1, by omega⟩
    have hz : m * 10 ^ (k + 1) % 10 = 0 := by
      rw [pow_succ, ← Nat.mul_assoc, Nat.mul_mod_left]
    have hd : m * 10 ^ (k + 1) / 10 = m * 10 ^ k := by
      rw [pow_succ, ← Nat.mul_assoc, Nat.mul_div_cancel _ (by norm_num)]
    rw [strip, if_pos hz, hd, strip_scale k f m (e + 1) (by omega) h]
    congr 1
    push_cast
    ring

/-- A scaled copy of a canonical decimal is that decimal. -/
theorem Decimal.ofScaled_scale (d : Decimal) (k : ℕ) :
    Decimal.ofScaled d.neg (d.mant * 10 ^ k) (d.exp - k) = d := by
  rw [Decimal.ext_iff']
  rcases d.canonical with ⟨hm, he⟩ | hm
  · simp [Decimal.ofScaled, hm, he]
  · have hne : d.mant ≠ 0 := by rintro h; simp [h] at hm
    have hpos : d.mant * 10 ^ k ≠ 0 := by positivity
    have hk : k ≤ d.mant * 10 ^ k := by
      calc k ≤ 10 ^ k := (Nat.lt_pow_self (by norm_num)).le
        _ ≤ d.mant * 10 ^ k := Nat.le_mul_of_pos_left _ (Nat.pos_of_ne_zero hne)
    simp [Decimal.ofScaled, hpos, strip_scale k _ d.mant (d.exp - k) hk hm]

/-! ## Values -/

/-- Halfway between the largest double and `2 ^ 1024`; from here on the nearest one is
infinite. -/
def overflow : ℕ := (2 ^ 54 - 1) * 2 ^ 970

theorem overflow_pos : 0 < overflow := Nat.mul_pos (by norm_num) (by positivity)

def Decimal.overflows (d : Decimal) : Bool :=
  overflow * 10 ^ (-d.exp).toNat ≤ d.mant * 10 ^ d.exp.toNat

/-- Not zero, and nearer to zero than to the smallest double. -/
def Decimal.underflows (d : Decimal) : Bool :=
  d.mant ≠ 0 ∧ d.mant * 10 ^ d.exp.toNat * 2 ^ 1075 ≤ 10 ^ (-d.exp).toNat

def Decimal.InRange (d : Decimal) : Prop := ¬ d.overflows ∧ ¬ d.underflows

instance : DecidablePred Decimal.InRange := fun _ => inferInstanceAs (Decidable (_ ∧ _))

theorem Decimal.inRange_zero {d : Decimal} (h : d.mant = 0) : d.InRange := by
  have hpos : 0 < overflow * 10 ^ (-d.exp).toNat := Nat.mul_pos overflow_pos (by positivity)
  constructor
  · rw [Decimal.overflows, h, Nat.zero_mul, decide_eq_true_iff, not_le]
    exact hpos
  · rw [Decimal.underflows, decide_eq_true_iff]
    exact fun hunder => hunder.1 h

inductive Number where
  | int (n : ℤ)
  | float (d : Decimal) (inRange : d.InRange)
  | infinity (neg : Bool)
  | nan
deriving DecidableEq

/-- The float that a decimal is read as. -/
def Number.ofDecimal (d : Decimal) : Number :=
  if hover : d.overflows then .infinity d.neg
  else if hunder : d.underflows then .float ⟨d.neg, 0, 0, .inl ⟨rfl, rfl⟩⟩ (Decimal.inRange_zero rfl)
  else .float d ⟨hover, hunder⟩

theorem Number.ofDecimal_of_inRange {d : Decimal} (h : d.InRange) :
    Number.ofDecimal d = .float d h := by
  rw [Number.ofDecimal, dif_neg h.1, dif_neg h.2]

def Number.isFinite : Number → Bool
  | .int _ | .float _ _ => true
  | .infinity _ | .nan => false

/-- A JSON value. The members of an object stand in the order of the text, or
of insertion for a dictionary. -/
inductive Json where
  | null
  | bool (b : Bool)
  | num (n : Number)
  | str (s : String)
  | arr (xs : List Json)
  | obj (ms : List (String × Json))

mutual
/-- No number in it is infinite or `NaN`. -/
def Json.isFinite : Json → Bool
  | .num n => n.isFinite
  | .arr xs => allFinite xs
  | .obj ms => membersFinite ms
  | .null | .bool _ | .str _ => true

def allFinite : List Json → Bool
  | [] => true
  | x :: xs => x.isFinite && allFinite xs

def membersFinite : List (String × Json) → Bool
  | [] => true
  | (_, v) :: ms => v.isFinite && membersFinite ms
end

/-- The first value stored under a key. -/
def lookup (k : String) : List (String × Json) → Option Json
  | [] => none
  | (k', v) :: ms => if k = k' then some v else lookup k ms

/-! ## Text of numbers -/

abbrev digits (n : ℕ) : List Char := Nat.toDigits 10 n

def writeInt (n : ℤ) : List Char :=
  if n < 0 then '-' :: digits n.natAbs else digits n.natAbs

/-- An exponent: a sign and at least two digits. -/
def writeExp (x : ℤ) : List Char :=
  (if x < 0 then '-' else '+') ::
    (if x.natAbs < 10 then '0' :: digits x.natAbs else digits x.natAbs)

/-- Where the decimal point falls: `0.d₁d₂… * 10 ^ decpt`. -/
def Decimal.decpt (d : Decimal) : ℤ := (digits d.mant).length + d.exp

/-- Integer part, fraction and exponent of the text of a number. -/
structure Parts where
  ip : List Char
  fp : List Char
  exp : Option ℤ

/-- The parts of a decimal: positional for `-4 < decpt ≤ 16`, scientific outside. -/
def Decimal.parts (d : Decimal) : Parts :=
  if -4 < d.decpt ∧ d.decpt ≤ 16 then
    if d.decpt ≤ 0 then ⟨['0'], List.replicate (-d.decpt).toNat '0' ++ digits d.mant, none⟩
    else if (digits d.mant).length ≤ d.decpt then
      ⟨digits d.mant ++ List.replicate (d.decpt.toNat - (digits d.mant).length) '0', ['0'], none⟩
    else ⟨(digits d.mant).take d.decpt.toNat, (digits d.mant).drop d.decpt.toNat, none⟩
  else ⟨(digits d.mant).take 1, (digits d.mant).drop 1, some (d.decpt - 1)⟩

def writeExponent : Option ℤ → List Char
  | none => []
  | some x => 'e' :: writeExp x

def writeFraction (fp : List Char) : List Char := if fp = [] then [] else '.' :: fp

def Parts.write (p : Parts) : List Char := p.ip ++ (writeFraction p.fp ++ writeExponent p.exp)

def writeDecimal (d : Decimal) : List Char :=
  if d.neg then '-' :: d.parts.write else d.parts.write

def writeNumber : Number → List Char
  | .int n => writeInt n
  | .float d _ => writeDecimal d
  | .infinity neg => if neg then "-Infinity".toList else "Infinity".toList
  | .nan => "NaN".toList

example : String.ofList (writeDecimal (.ofScaled false 342 (-1))) = "34.2" := by decide
example : String.ofList (writeDecimal (.ofScaled true 1 22)) = "-1e+22" := by decide
example : String.ofList (writeDecimal (.ofScaled false 5 (-5))) = "5e-05" := by decide

/-! ## Text of strings -/

/-- The `n` low hexadecimal digits of a number, in lower case. -/
def hex : ℕ → ℕ → List Char
  | 0, _ => []
  | n + 1, v => hex n (v / 16) ++ [Nat.digitChar (v % 16)]

def unicodeEscape (n : ℕ) : List Char := '\\' :: 'u' :: hex 4 n

/-- Escape one character to ASCII: short escapes, printable ASCII as it is, and
`\u` escapes otherwise, as a surrogate pair above the basic plane. -/
def escapeChar (c : Char) : List Char :=
  if c = '"' then ['\\', '"']
  else if c = '\\' then ['\\', '\\']
  else if c = '\n' then ['\\', 'n']
  else if c = '\r' then ['\\', 'r']
  else if c = '\t' then ['\\', 't']
  else if c = '\x0c' then ['\\', 'f']
  else if c = '\x08' then ['\\', 'b']
  else if 0x20 ≤ c.toNat ∧ c.toNat < 0x7f then [c]
  else if c.toNat < 0x10000 then unicodeEscape c.toNat
  else unicodeEscape (0xd800 + (c.toNat - 0x10000) / 0x400) ++
    unicodeEscape (0xdc00 + (c.toNat - 0x10000) % 0x400)

def writeString (s : String) : List Char := '"' :: s.toList.flatMap escapeChar ++ ['"']

/-! ## Text of values -/

/-- What stands after a comma or a colon: nothing in compact text, a blank in
the default layout. -/
structure Layout where
  blank : Bool

def Layout.gap (l : Layout) : List Char := if l.blank then [' '] else []

def compact : Layout := ⟨false⟩
def spaced : Layout := ⟨true⟩

mutual
/-- The text of a value, members in the order they stand in. -/
def write (l : Layout) : Json → List Char
  | .null => ['n', 'u', 'l', 'l']
  | .bool true => ['t', 'r', 'u', 'e']
  | .bool false => ['f', 'a', 'l', 's', 'e']
  | .num n => writeNumber n
  | .str s => writeString s
  | .arr [] => ['[', ']']
  | .arr (x :: xs) => '[' :: write l x ++ writeElems l xs
  | .obj [] => ['{', '}']
  | .obj ((k, v) :: ms) => '{' :: writeString k ++ ':' :: l.gap ++ write l v ++ writeMembers l ms

/-- The elements after the first one, with the closing bracket. -/
def writeElems (l : Layout) : List Json → List Char
  | [] => [']']
  | x :: xs => ',' :: l.gap ++ write l x ++ writeElems l xs

/-- The members after the first one, with the closing brace. -/
def writeMembers (l : Layout) : List (String × Json) → List Char
  | [] => ['}']
  | (k, v) :: ms =>
      ',' :: l.gap ++ writeString k ++ ':' :: l.gap ++ write l v ++ writeMembers l ms
end

/-! ## Sorted members -/

def sortMembers (ms : List (String × Json)) : List (String × Json) :=
  ms.insertionSort fun a b => a.1 ≤ b.1

mutual
/-- The value with the members of every object sorted by key. -/
def canon : Json → Json
  | .arr xs => .arr (canonElems xs)
  | .obj ms => .obj (sortMembers (canonMembers ms))
  | .null => .null
  | .bool b => .bool b
  | .num n => .num n
  | .str s => .str s

def canonElems : List Json → List Json
  | [] => []
  | x :: xs => canon x :: canonElems xs

def canonMembers : List (String × Json) → List (String × Json)
  | [] => []
  | (k, v) :: ms => (k, canon v) :: canonMembers ms
end

/-- `json.dumps` with `sort_keys` and the given separators. -/
def dumpsSorted (l : Layout) (j : Json) : List Char := write l (canon j)

mutual
/-- Equality of values up to the order of members, at every level. -/
inductive Same : Json → Json → Prop where
  | null : Same .null .null
  | bool (b : Bool) : Same (.bool b) (.bool b)
  | num (n : Number) : Same (.num n) (.num n)
  | str (s : String) : Same (.str s) (.str s)
  | arr {xs ys : List Json} : SameElems xs ys → Same (.arr xs) (.arr ys)
  | obj {ms ns' ns : List (String × Json)} :
      SameMembers ms ns' → ns'.Perm ns → Same (.obj ms) (.obj ns)

inductive SameElems : List Json → List Json → Prop where
  | nil : SameElems [] []
  | cons {x y : Json} {xs ys : List Json} :
      Same x y → SameElems xs ys → SameElems (x :: xs) (y :: ys)

inductive SameMembers : List (String × Json) → List (String × Json) → Prop where
  | nil : SameMembers [] []
  | cons {k : String} {v w : Json} {ms ns : List (String × Json)} :
      Same v w → SameMembers ms ns → SameMembers ((k, v) :: ms) ((k, w) :: ns)
end

theorem canonMembers_eq_map (ms : List (String × Json)) :
    canonMembers ms = ms.map fun m => (m.1, canon m.2) := by
  induction ms with
  | nil => rfl
  | cons m ms ih => obtain ⟨k, v⟩ := m; simp [canonMembers, ih]

theorem sortMembers_perm (ms : List (String × Json)) : (sortMembers ms).Perm ms :=
  List.perm_insertionSort _ ms

/-- A permutation of an image is the image of a permutation. -/
theorem exists_perm_of_perm_map {α β : Type*} (f : α → β) {l : List β} {xs : List α}
    (h : l.Perm (xs.map f)) : ∃ ys : List α, ys.map f = l ∧ ys.Perm xs := by
  induction xs generalizing l with
  | nil => exact ⟨[], by simpa using h.eq_nil.symm, List.Perm.refl _⟩
  | cons x xs ih =>
    have hmem : f x ∈ l := h.symm.subset (by simp)
    obtain ⟨l₁, l₂, rfl⟩ := List.append_of_mem hmem
    have hrest : (l₁ ++ l₂).Perm (xs.map f) :=
      (List.perm_middle.symm.trans h).cons_inv
    obtain ⟨ys, hys, hp⟩ := ih hrest
    obtain ⟨y₁, y₂, rfl, rfl, rfl⟩ := List.map_eq_append_iff.mp hys
    exact ⟨y₁ ++ x :: y₂, by simp, List.perm_middle.trans (hp.cons x)⟩

mutual
/-- Values with the same sorted form are the same up to the order of members. -/
theorem same_of_canon_eq : ∀ j k : Json, canon j = canon k → Same j k
  | .null, k, h => by cases k <;> simp_all [canon, Same.null]
  | .bool b, k, h => by cases k <;> simp_all [canon, Same.bool]
  | .num n, k, h => by cases k <;> simp_all [canon, Same.num]
  | .str s, k, h => by cases k <;> simp_all [canon, Same.str]
  | .arr xs, k, h => by
    cases k with
    | arr ys => exact .arr (sameElems_of_canon_eq xs ys (by simpa [canon] using h))
    | _ => simp [canon] at h
  | .obj ms, k, h => by
    cases k with
    | obj ns =>
      have hs : sortMembers (canonMembers ms) = sortMembers (canonMembers ns) := by
        simpa [canon] using h
      have hp : (canonMembers ms).Perm (canonMembers ns) := by
        refine (sortMembers_perm _).symm.trans ?_
        rw [hs]
        exact sortMembers_perm _
      rw [canonMembers_eq_map ns] at hp
      obtain ⟨ns', hns', hperm⟩ := exists_perm_of_perm_map _ hp
      rw [← canonMembers_eq_map] at hns'
      exact .obj (sameMembers_of_canon_eq ms ns' hns'.symm) hperm
    | _ => simp [canon] at h

theorem sameElems_of_canon_eq : ∀ xs ys : List Json,
    canonElems xs = canonElems ys → SameElems xs ys
  | [], [], _ => .nil
  | [], _ :: _, h => by simp [canonElems] at h
  | _ :: _, [], h => by simp [canonElems] at h
  | x :: xs, y :: ys, h => by
    obtain ⟨hx, hxs⟩ : canon x = canon y ∧ canonElems xs = canonElems ys := by
      simpa [canonElems] using h
    exact .cons (same_of_canon_eq x y hx) (sameElems_of_canon_eq xs ys hxs)

theorem sameMembers_of_canon_eq : ∀ ms ns : List (String × Json),
    canonMembers ms = canonMembers ns → SameMembers ms ns
  | [], [], _ => .nil
  | [], _ :: _, h => by simp [canonMembers] at h
  | _ :: _, [], h => by simp [canonMembers] at h
  | (k, v) :: ms, (k', w) :: ns, h => by
    obtain ⟨⟨rfl, hv⟩, hms⟩ : (k = k' ∧ canon v = canon w) ∧
        canonMembers ms = canonMembers ns := by
      simpa [canonMembers] using h
    exact .cons (same_of_canon_eq v w hv) (sameMembers_of_canon_eq ms ns hms)
end

end JsonText
