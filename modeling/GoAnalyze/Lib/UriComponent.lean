import GoAnalyze.Lib.JsonRead

/-! Percent-escaped text. Each run of escapes stands for bytes, and these for characters in
UTF-8; what is not escaped stands for itself. -/

namespace UriComponent

open JsonText (hex hexVal hexVal_digitChar)

def decodeUtf8 (bytes : List UInt8) : Option (List Char) :=
  bytes.toByteArray.utf8Decode?.map Array.toList

theorem decodeUtf8_encode (s : List Char) :
    decodeUtf8 (s.flatMap String.utf8EncodeChar) = some s := by
  have hencode : (s.flatMap String.utf8EncodeChar).toByteArray = s.utf8Encode := rfl
  rw [decodeUtf8, hencode, List.utf8Decode?_utf8Encode, Option.map_some]

/-- The text after the escapes of `bytes`. -/
def decodeAfter (bytes : List UInt8) : List Char → Option (List Char)
  | [] => decodeUtf8 bytes
  | '%' :: x :: y :: s => do
    let high ← hexVal x
    let low ← hexVal y
    decodeAfter (bytes ++ [UInt8.ofNat (16 * high + low)]) s
  | '%' :: _ => none
  | c :: s => do
    let before ← decodeUtf8 bytes
    let after ← decodeAfter [] s
    return before ++ c :: after

def decode (s : List Char) : Option (List Char) := decodeAfter [] s

/-- The escape of a byte, in lower case. -/
def escape (n : ℕ) : List Char := '%' :: hex 2 n

theorem decodeAfter_escape (bytes : List UInt8) (b : UInt8) (s : List Char) :
    decodeAfter bytes (escape b.toNat ++ s) = decodeAfter (bytes ++ [b]) s := by
  have hb := b.toNat_lt
  have hescape : escape b.toNat ++ s =
      '%' :: Nat.digitChar (b.toNat / 16 % 16) :: Nat.digitChar (b.toNat % 16) :: s := rfl
  have hbyte : UInt8.ofNat (16 * (b.toNat / 16 % 16) + b.toNat % 16) = b := by
    rw [← UInt8.toNat_inj, UInt8.toNat_ofNat']
    omega
  rw [hescape, decodeAfter, hexVal_digitChar _ (Nat.mod_lt _ (by norm_num)),
    hexVal_digitChar _ (Nat.mod_lt _ (by norm_num))]
  simp only [Option.bind_eq_bind, Option.bind_some, hbyte]

theorem decodeAfter_escapes (bytes bytes' : List UInt8) :
    decodeAfter bytes (bytes'.flatMap fun b => escape b.toNat) = decodeUtf8 (bytes ++ bytes') := by
  induction bytes' generalizing bytes with
  | nil => rw [List.flatMap_nil, decodeAfter, List.append_nil]
  | cons b bytes' ih =>
    rw [List.flatMap_cons, decodeAfter_escape, ih, List.append_assoc, List.singleton_append]

/-- Escaping all bytes of a text leaves the text. -/
theorem decode_escapes (s : List Char) :
    decode ((s.flatMap String.utf8EncodeChar).flatMap fun b => escape b.toNat) = some s := by
  rw [decode, decodeAfter_escapes, List.nil_append, decodeUtf8_encode]

end UriComponent
