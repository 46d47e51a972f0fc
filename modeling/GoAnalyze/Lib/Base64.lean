import Mathlib.Data.List.Basic
import Mathlib.Tactic

/-! Base64. Bytes are regrouped to numbers of six bits, which have a digit each; a text is
padded to blocks of four digits, and the forgiving decoder reads it with or without the
padding. -/

namespace Base64

/-! ## Digits -/

def alphabet : List Char :=
  "ABCDEFGHIJKLMNOPQRSTUVWXYZabcdefghijklmnopqrstuvwxyz0123456789+/".toList

def digit (n : ℕ) : Char := alphabet.getD n 'A'

def value (c : Char) : Option ℕ :=
  if alphabet.idxOf c < 64 then some (alphabet.idxOf c) else none

theorem value_digit : ∀ n < 64, value (digit n) = some n := by decide +kernel

theorem digit_ne_pad : ∀ n < 64, digit n ≠ '=' := by decide +kernel

def isWhitespace (c : Char) : Bool :=
  c = '\t' || c = '\n' || c = '\x0c' || c = '\r' || c = ' '

theorem not_isWhitespace_digit : ∀ n < 64, isWhitespace (digit n) = false := by decide +kernel

/-! ## Six bits -/

/-- Three bytes are four numbers of six bits; the last one is filled with zeros. -/
def sextets : List UInt8 → List ℕ
  | a :: b :: c :: bytes =>
    let n := a.toNat * 65536 + b.toNat * 256 + c.toNat
    n / 262144 :: n / 4096 % 64 :: n / 64 % 64 :: n % 64 :: sextets bytes
  | [a, b] =>
    let n := a.toNat * 1024 + b.toNat * 4
    [n / 4096, n / 64 % 64, n % 64]
  | [a] => [a.toNat * 16 / 64, a.toNat * 16 % 64]
  | [] => []

/-- The bytes of the numbers. The bits that make no byte are dropped, and a single number
makes none. -/
def octets : List ℕ → Option (List UInt8)
  | a :: b :: c :: d :: s =>
    let n := ((a * 64 + b) * 64 + c) * 64 + d
    (octets s).map fun bytes =>
      UInt8.ofNat (n / 65536) :: UInt8.ofNat (n / 256) :: UInt8.ofNat n :: bytes
  | [a, b, c] =>
    let n := ((a * 64 + b) * 64 + c) / 4
    some [UInt8.ofNat (n / 256), UInt8.ofNat n]
  | [a, b] => some [UInt8.ofNat ((a * 64 + b) / 16)]
  | [_] => none
  | [] => some []

theorem sextets_lt (bytes : List UInt8) : ∀ n ∈ sextets bytes, n < 64 := by
  induction bytes using sextets.induct with
  | case1 a b c bytes ih =>
    have ha := a.toNat_lt
    have hb := b.toNat_lt
    have hc := c.toNat_lt
    simp only [sextets, List.forall_mem_cons]
    exact ⟨by omega, by omega, by omega, by omega, ih⟩
  | case2 a b =>
    have ha := a.toNat_lt
    have hb := b.toNat_lt
    simp only [sextets, List.forall_mem_cons]
    exact ⟨by omega, by omega, by omega, nofun⟩
  | case3 a =>
    have ha := a.toNat_lt
    simp only [sextets, List.forall_mem_cons]
    exact ⟨by omega, by omega, nofun⟩
  | case4 => exact nofun

theorem ofNat_eq {n : ℕ} {b : UInt8} (h : n % 256 = b.toNat) : UInt8.ofNat n = b := by
  rw [← UInt8.toNat_inj, UInt8.toNat_ofNat']
  exact h

theorem octets_sextets (bytes : List UInt8) : octets (sextets bytes) = some bytes := by
  induction bytes using sextets.induct with
  | case1 a b c bytes ih =>
    have ha := a.toNat_lt
    have hb := b.toNat_lt
    have hc := c.toNat_lt
    simp only [sextets, octets, ih, Option.map_some, Option.some.injEq, List.cons.injEq, and_true]
    exact ⟨ofNat_eq (by omega), ofNat_eq (by omega), ofNat_eq (by omega)⟩
  | case2 a b =>
    have ha := a.toNat_lt
    have hb := b.toNat_lt
    simp only [sextets, octets, Option.some.injEq, List.cons.injEq, and_true]
    exact ⟨ofNat_eq (by omega), ofNat_eq (by omega)⟩
  | case3 a =>
    have ha := a.toNat_lt
    simp only [sextets, octets, Option.some.injEq, List.cons.injEq, and_true]
    exact ofNat_eq (by omega)
  | case4 => rfl

/-! ## Texts -/

/-- The digits of the bytes without padding. -/
def digits (bytes : List UInt8) : List Char := (sextets bytes).map digit

def padding (bytes : List UInt8) : List Char := List.replicate ((3 - bytes.length % 3) % 3) '='

def encode (bytes : List UInt8) : List Char := digits bytes ++ padding bytes

/-- A text of whole blocks without one or two signs of padding. -/
def dropPadding (s : List Char) : List Char :=
  if s.length % 4 = 0 then
    match s.reverse with
    | '=' :: '=' :: t | '=' :: t => t.reverse
    | _ => s
  else s

/-- Forgiving base64 decode. -/
def decode (s : List Char) : Option (List UInt8) :=
  ((dropPadding (s.filter fun c => !isWhitespace c)).mapM value).bind octets

theorem dropPadding_of_not_mem {s : List Char} (h : '=' ∉ s) : dropPadding s = s := by
  unfold dropPadding
  split_ifs
  · split
    · next t heq => exact absurd (List.mem_reverse.mp (heq ▸ List.mem_cons_self)) h
    · next t heq => exact absurd (List.mem_reverse.mp (heq ▸ List.mem_cons_self)) h
    · rfl
  · rfl

theorem forall_mem_digits {motive : Char → Prop} (h : ∀ n < 64, motive (digit n))
    (bytes : List UInt8) : ∀ c ∈ digits bytes, motive c :=
  List.forall_mem_map.mpr fun n hn => h n (sextets_lt bytes n hn)

theorem mapM_value_digit {s : List ℕ} (h : ∀ n ∈ s, n < 64) :
    (s.map digit).mapM value = some s := by
  induction s with
  | nil => rfl
  | cons n s ih =>
    obtain ⟨hn, hs⟩ := List.forall_mem_cons.mp h
    rw [List.map_cons, List.mapM_cons, value_digit n hn, ih hs]
    rfl

/-- The padding may be left out. -/
theorem decode_digits (bytes : List UInt8) : decode (digits bytes) = some bytes := by
  have hfilter : (digits bytes).filter (fun c => !isWhitespace c) = digits bytes := by
    refine List.filter_eq_self.mpr (forall_mem_digits (fun n hn => ?_) bytes)
    rw [not_isWhitespace_digit n hn]
    rfl
  have hpad : '=' ∉ digits bytes := fun h =>
    forall_mem_digits (motive := (· ≠ '=')) digit_ne_pad bytes _ h rfl
  rw [decode, hfilter, dropPadding_of_not_mem hpad, digits, mapM_value_digit (sextets_lt bytes),
    Option.bind_some, octets_sextets]

end Base64
