import GoAnalyze.Spec.Jwt

/-! Base64url and the payload of a token read back. -/

namespace GoAnalyze

namespace Auth

/-! ## Binary strings -/

theorem toNat_binaryChar (b : UInt8) : (Char.ofNat b.toNat).toNat = b.toNat := by
  have hall : ∀ n < 256, (Char.ofNat n).toNat = n := by decide +kernel
  exact hall b.toNat b.toNat_lt

theorem btoa_binaryString (bytes : List UInt8) :
    btoa (binaryString bytes) = some (Base64.encode bytes) := by
  have hall : (binaryString bytes).all (·.toNat < 256) = true :=
    List.all_eq_true.mpr (List.forall_mem_map.mpr fun b _ => by
      rw [toNat_binaryChar]
      exact decide_eq_true b.toNat_lt)
  have hback : (binaryString bytes).map (fun c => UInt8.ofNat c.toNat) = bytes := by
    rw [binaryString, List.map_map]
    exact List.map_id'' (fun b => by simp [toNat_binaryChar]) bytes
  rw [btoa, if_pos hall, hback]

/-! ## Digits -/

/-- `A-Z`, `a-z`, `0-9`, `-` and `_`. -/
def UrlSafe (c : Char) : Prop := c.isAlphanum ∨ c = '-' ∨ c = '_'

instance (c : Char) : Decidable (UrlSafe c) := inferInstanceAs (Decidable (_ ∨ _ ∨ _))

theorem urlSafe_digit : ∀ n < 64, UrlSafe (base64UrlDigit n) := by decide +kernel

theorem toBase64Url_append (s t : List Char) :
    toBase64Url (s ++ t) = toBase64Url s ++ toBase64Url t := by
  simp only [toBase64Url, List.map_append]

theorem toBase64Url_digit : ∀ n < 64, toBase64Url [Base64.digit n] = [base64UrlDigit n] := by
  decide +kernel

theorem fromBase64Url_digit : ∀ n < 64, fromBase64Url [base64UrlDigit n] = [Base64.digit n] := by
  decide +kernel

theorem base64UrlDigits_eq (bytes : List UInt8) :
    base64UrlDigits bytes = (Base64.sextets bytes).map base64UrlDigit := by
  induction bytes using base64UrlDigits.induct with
  | case1 a b c bytes ih => simp only [base64UrlDigits, Base64.sextets, List.map_cons, ih]
  | case2 a b => rfl
  | case3 a => rfl
  | case4 => rfl

theorem forall_mem_base64UrlDigits {motive : Char → Prop}
    (h : ∀ n < 64, motive (base64UrlDigit n)) (bytes : List UInt8) :
    ∀ c ∈ base64UrlDigits bytes, motive c := by
  rw [base64UrlDigits_eq]
  exact List.forall_mem_map.mpr fun n hn => h n (Base64.sextets_lt bytes n hn)

theorem not_mem_base64UrlDigits {c : Char} (h : ¬ UrlSafe c) (bytes : List UInt8) :
    c ∉ base64UrlDigits bytes := fun hmem =>
  h (forall_mem_base64UrlDigits urlSafe_digit bytes c hmem)

theorem toBase64Url_digits (bytes : List UInt8) :
    toBase64Url (Base64.digits bytes) = base64UrlDigits bytes := by
  rw [base64UrlDigits_eq, Base64.digits, toBase64Url, List.map_map, List.map_map]
  exact List.map_congr_left fun n hn =>
    (List.cons.inj (toBase64Url_digit n (Base64.sextets_lt bytes n hn))).1

theorem fromBase64Url_digits (bytes : List UInt8) :
    fromBase64Url (base64UrlDigits bytes) = Base64.digits bytes := by
  rw [base64UrlDigits_eq, Base64.digits, fromBase64Url, List.map_map, List.map_map]
  exact List.map_congr_left fun n hn =>
    (List.cons.inj (fromBase64Url_digit n (Base64.sextets_lt bytes n hn))).1

theorem base64UrlEncode_eq (bytes : List UInt8) :
    (btoa (binaryString bytes)).map (fun s => (toBase64Url s).rdropWhile (· = '=')) =
      some (base64UrlEncode bytes).toList := by
  have hpad : toBase64Url (Base64.padding bytes) = Base64.padding bytes := by
    simp [toBase64Url, Base64.padding]
  have hstrip : (base64UrlDigits bytes ++ Base64.padding bytes).rdropWhile (· = '=') =
      base64UrlDigits bytes := by
    rw [List.rdropWhile, List.reverse_append, Base64.padding, List.reverse_replicate,
      List.dropWhile_append_of_pos (by simp), List.dropWhile_eq_self_iff.mpr, List.reverse_reverse]
    intro hlen
    rw [decide_eq_true_eq]
    exact fun hhead => not_mem_base64UrlDigits (by decide) bytes
      (List.mem_reverse.mp (hhead ▸ List.getElem_mem hlen))
  rw [btoa_binaryString, Option.map_some, Base64.encode, toBase64Url_append, hpad,
    toBase64Url_digits, hstrip, base64UrlEncode, String.toList_ofList]

/-! ## Round trip -/

theorem atob_fromBase64Url (bytes : List UInt8) :
    atob (fromBase64Url (base64UrlDigits bytes)) = some (binaryString bytes) := by
  rw [fromBase64Url_digits, atob, Base64.decode_digits, Option.map_some]

theorem splitOn_segments {header payload signature : String} (hheader : '.' ∉ header.toList)
    (hpayload : '.' ∉ payload.toList) (hsignature : '.' ∉ signature.toList) :
    (header ++ "." ++ payload ++ "." ++ signature).toList.splitOn '.' =
      [header.toList, payload.toList, signature.toList] := by
  have hjoin : (header ++ "." ++ payload ++ "." ++ signature).toList =
      ['.'].intercalate [header.toList, payload.toList, signature.toList] := by
    simp [String.toList_append, List.intercalate]
  rw [hjoin]
  refine List.splitOn_intercalate '.' ?_ (List.cons_ne_nil _ _)
  simp [hheader, hpayload, hsignature]

theorem escapes_binaryString (bytes : List UInt8) :
    (binaryString bytes).flatMap (fun c => UriComponent.escape c.toNat) =
      bytes.flatMap fun b => UriComponent.escape b.toNat := by
  rw [binaryString, List.flatMap_map]
  simp only [toNat_binaryChar]

theorem decodeJwt_payload (v : JsonValue) {header signature : String}
    (hheader : '.' ∉ header.toList) (hsignature : '.' ∉ signature.toList) :
    decodeJwt (header ++ "." ++ base64UrlEncode (encodeUtf8 (JsJson.stringify v.value)) ++ "." ++
      signature) = v.value := by
  have hpayload : '.' ∉ (base64UrlEncode (encodeUtf8 (JsJson.stringify v.value))).toList := by
    rw [base64UrlEncode, String.toList_ofList]
    exact not_mem_base64UrlDigits (by decide) _
  have hbinary := atob_fromBase64Url (encodeUtf8 (JsJson.stringify v.value))
  have hjson := UriComponent.decode_escapes (JsJson.stringify v.value)
  rw [decodeJwt, splitOn_segments hheader hpayload hsignature, base64UrlEncode,
    String.toList_ofList]
  simp only [List.getElem?_cons_succ, List.getElem?_cons_zero, Option.bind_eq_bind,
    Option.bind_some, hbinary, escapes_binaryString]
  rw [encodeUtf8, hjson, Option.bind_some, JsJson.parse_stringify v.ordered, Option.getD_some]

/-- Base64url is read back, and so is the payload of a token. -/
theorem base64Url_and_payload_round_trip :
    (∀ bytes : List UInt8, (∀ c ∈ (base64UrlEncode bytes).toList, UrlSafe c) ∧
      atob (fromBase64Url (base64UrlEncode bytes).toList) = some (binaryString bytes)) ∧
    ∀ (v : JsonValue) (header signature : String), '.' ∉ header.toList →
      '.' ∉ signature.toList →
      decodeJwt (header ++ "." ++ base64UrlEncode (encodeUtf8 (JsJson.stringify v.value)) ++
        "." ++ signature) = v.value := by
  refine ⟨fun bytes => ?_, fun v header signature hheader hsignature => ?_⟩
  · rw [base64UrlEncode, String.toList_ofList]
    exact ⟨forall_mem_base64UrlDigits urlSafe_digit bytes, atob_fromBase64Url bytes⟩
  · exact decodeJwt_payload v hheader hsignature

theorem payload_read_back :
    decodeJwt "h.eyJzdWIiOiLDvCJ9.s" = .object [("sub", .string "ü")] := by
  have hordered : (JsJson.Value.object [("sub", .string "ü")]).Ordered :=
    ⟨rfl, trivial, trivial⟩
  have htoken : "h.eyJzdWIiOiLDvCJ9.s" = "h" ++ "." ++ base64UrlEncode (encodeUtf8
      (JsJson.stringify (.object [("sub", .string "ü")]))) ++ "." ++ "s" := by decide +kernel
  rw [htoken]
  exact base64Url_and_payload_round_trip.2 ⟨_, hordered⟩ "h" "s" (by decide) (by decide)

end Auth

end GoAnalyze
