import GoAnalyze.Lib.UriComponent

/-! Texts of names and values with `=` between a name and its value and `&` between pairs.
In a name or value a plus sign stands for a space and an escape for a byte. -/

namespace FormUrlencoded

open JsonText (hexVal)

/-! ## Reading -/

/-- A decoder of UTF-8 that puts something in the place of what is ill-formed. -/
structure Utf8Decoder where
  decode : List UInt8 → List Char
  decode_encode : ∀ s : List Char, decode (s.flatMap String.utf8EncodeChar) = s

/-- The bytes of a text whose escapes stand for bytes. What is no escape stands for itself. -/
def percentDecode : List Char → List UInt8
  | '%' :: x :: y :: s =>
    match hexVal x, hexVal y with
    | some high, some low => UInt8.ofNat (16 * high + low) :: percentDecode s
    | _, _ => UInt8.ofNat '%'.toNat :: percentDecode (x :: y :: s)
  | [] => []
  | c :: s => String.utf8EncodeChar c ++ percentDecode s

def plusToSpace (c : Char) : Char := if c = '+' then ' ' else c

def component (D : Utf8Decoder) (s : List Char) : String :=
  String.ofList (D.decode (percentDecode (s.map plusToSpace)))

/-- The pairs of a text. A value that is not there is empty. -/
def parse (D : Utf8Decoder) (s : List Char) : List (String × String) :=
  ((s.splitOn '&').filter (· ≠ [])).map fun piece =>
    (component D (piece.takeWhile (· ≠ '=')), component D ((piece.dropWhile (· ≠ '=')).drop 1))

/-! ## Writing -/

/-- A name or a value, where `encode` writes a byte. -/
def encodeText (encode : UInt8 → List Char) (s : String) : List Char :=
  (s.toList.flatMap String.utf8EncodeChar).flatMap encode

def encodePair (encode : UInt8 → List Char) (pair : String × String) : List Char :=
  encodeText encode pair.1 ++ '=' :: encodeText encode pair.2

def serialize (encode : UInt8 → List Char) (pairs : List (String × String)) : List Char :=
  ['&'].intercalate (pairs.map (encodePair encode))

/-- The byte that a text is read as, wherever it stands. -/
def spelled (t : List Char) : Option UInt8 :=
  match t with
  | [c] =>
    if c = '+' then some (UInt8.ofNat ' '.toNat)
    else if c.toNat < 128 ∧ c ∉ ['%', '&', '='] then some (UInt8.ofNat c.toNat)
    else none
  | [mark, x, y] =>
    if mark = '%' then
      (hexVal x).bind fun high => (hexVal y).map fun low => UInt8.ofNat (16 * high + low)
    else none
  | _ => none

def Spells (t : List Char) (b : UInt8) : Prop := spelled t = some b

instance (t : List Char) (b : UInt8) : Decidable (Spells t b) :=
  inferInstanceAs (Decidable (spelled t = some b))

/-! ## What is written is read -/

theorem percentDecode_cons {c : Char} (hc : c ≠ '%') (s : List Char) :
    percentDecode (c :: s) = String.utf8EncodeChar c ++ percentDecode s := by
  rw [percentDecode]
  rintro x y s rfl
  exact absurd rfl hc

theorem utf8EncodeChar_ascii {c : Char} (hc : c.toNat < 128) :
    String.utf8EncodeChar c = [UInt8.ofNat c.toNat] := by
  rw [String.utf8EncodeChar, if_pos (show c.val.toNat ≤ 127 by unfold Char.toNat at hc; omega)]
  rfl

theorem plusToSpace_of_ne {c : Char} (hc : c ≠ '+') : plusToSpace c = c := if_neg hc

theorem ne_plus_of_hexVal {c : Char} {n : ℕ} (h : hexVal c = some n) : c ≠ '+' := by
  rintro rfl
  cases h

theorem spells_cases {t : List Char} {b : UInt8} (h : Spells t b) :
    (t = ['+'] ∧ b = UInt8.ofNat ' '.toNat) ∨
    (∃ c, t = [c] ∧ c ≠ '+' ∧ c.toNat < 128 ∧ c ∉ ['%', '&', '='] ∧
      b = UInt8.ofNat c.toNat) ∨
    ∃ x y high low, t = ['%', x, y] ∧ hexVal x = some high ∧ hexVal y = some low ∧
      b = UInt8.ofNat (16 * high + low) := by
  unfold Spells spelled at h
  split at h
  · next c =>
    split at h
    · next hplus => exact .inl ⟨by rw [hplus], (Option.some.inj h).symm⟩
    · next hplus =>
      split at h
      · next hc => exact .inr (.inl ⟨c, rfl, hplus, hc.1, hc.2, (Option.some.inj h).symm⟩)
      · cases h
  · next mark x y =>
    split at h
    · next hmark =>
      obtain ⟨high, hx, h⟩ := Option.bind_eq_some_iff.mp h
      obtain ⟨low, hy, hb⟩ := Option.map_eq_some_iff.mp h
      exact .inr (.inr ⟨x, y, high, low, by rw [hmark], hx, hy, hb.symm⟩)
    · cases h
  · cases h

theorem percentDecode_spells {t : List Char} {b : UInt8} (h : Spells t b) (s : List Char) :
    percentDecode ((t ++ s).map plusToSpace) = b :: percentDecode (s.map plusToSpace) := by
  obtain ⟨rfl, rfl⟩ | ⟨c, rfl, hplus, hascii, hc, rfl⟩ | ⟨x, y, high, low, rfl, hx, hy, rfl⟩ :=
    spells_cases h
  · rw [List.singleton_append, List.map_cons, show plusToSpace '+' = ' ' from rfl,
      percentDecode_cons (by decide), utf8EncodeChar_ascii (by decide), List.singleton_append]
  · have hpercent : c ≠ '%' := fun heq => hc (by rw [heq]; exact List.mem_cons_self)
    rw [List.singleton_append, List.map_cons, plusToSpace_of_ne hplus,
      percentDecode_cons hpercent, utf8EncodeChar_ascii hascii, List.singleton_append]
  · rw [List.cons_append, List.cons_append, List.cons_append, List.nil_append]
    simp only [List.map_cons, plusToSpace_of_ne (ne_plus_of_hexVal hx),
      plusToSpace_of_ne (ne_plus_of_hexVal hy)]
    rw [plusToSpace_of_ne (by decide), percentDecode, hx, hy]

/-- No separator spells a byte, alone or with other characters. -/
theorem not_mem_of_spells {t : List Char} {b : UInt8} (h : Spells t b) : '&' ∉ t ∧ '=' ∉ t := by
  have hne : ∀ {c d : Char} {n : ℕ}, hexVal c = some n → hexVal d = none → d ≠ c := by
    intro c d n hc hd heq
    rw [heq, hc] at hd
    cases hd
  have hamp : hexVal '&' = none := rfl
  have heq : hexVal '=' = none := rfl
  obtain ⟨rfl, -⟩ | ⟨c, rfl, -, -, hc, -⟩ | ⟨x, y, high, low, rfl, hx, hy, -⟩ := spells_cases h
  · decide
  · simp only [List.mem_cons, List.not_mem_nil, or_false, not_or] at hc
    simp [Ne.symm hc.2.1, Ne.symm hc.2.2]
  · simp [hne hx hamp, hne hy hamp, hne hx heq, hne hy heq]

section Encoder

variable {encode : UInt8 → List Char} (h : ∀ b, Spells (encode b) b)

include h

theorem percentDecode_flatMap (bytes : List UInt8) :
    percentDecode ((bytes.flatMap encode).map plusToSpace) = bytes := by
  induction bytes with
  | nil => rfl
  | cons b bytes ih => rw [List.flatMap_cons, percentDecode_spells (h b), ih]

theorem component_encodeText (D : Utf8Decoder) (s : String) :
    component D (encodeText encode s) = s := by
  rw [component, encodeText, percentDecode_flatMap h, D.decode_encode, String.ofList_toList]

theorem amp_notMem_encodeText (s : String) : '&' ∉ encodeText encode s := by
  intro hmem
  obtain ⟨b, -, hb⟩ := List.mem_flatMap.mp hmem
  exact (not_mem_of_spells (h b)).1 hb

theorem eq_notMem_encodeText (s : String) : '=' ∉ encodeText encode s := by
  intro hmem
  obtain ⟨b, -, hb⟩ := List.mem_flatMap.mp hmem
  exact (not_mem_of_spells (h b)).2 hb

theorem amp_notMem_encodePair (p : String × String) : '&' ∉ encodePair encode p := by
  simp [encodePair, amp_notMem_encodeText h]

/-- The texts of the pairs are found again. -/
theorem pieces_serialize (pairs : List (String × String)) :
    ((serialize encode pairs).splitOn '&').filter (· ≠ []) = pairs.map (encodePair encode) := by
  cases pairs with
  | nil => rfl
  | cons p pairs =>
    have hamp : ∀ t ∈ (p :: pairs).map (encodePair encode), '&' ∉ t := by
      intro t ht
      obtain ⟨q, -, rfl⟩ := List.mem_map.mp ht
      exact amp_notMem_encodePair h q
    rw [serialize, List.splitOn_intercalate '&' hamp (by simp)]
    refine List.filter_eq_self.mpr fun t ht => ?_
    obtain ⟨q, -, rfl⟩ := List.mem_map.mp ht
    simp [encodePair]

/-- The pairs are read back, in their order. -/
theorem parse_serialize (D : Utf8Decoder) (pairs : List (String × String)) :
    parse D (serialize encode pairs) = pairs := by
  have hname : ∀ s, ∀ c ∈ encodeText encode s, decide (c ≠ '=') = true := fun s c hc =>
    decide_eq_true fun heq => eq_notMem_encodeText h s (heq ▸ hc)
  rw [parse, pieces_serialize h, List.map_map]
  refine (List.map_congr_left fun p _ => ?_).trans (List.map_id pairs)
  simp only [Function.comp_apply, encodePair]
  rw [List.takeWhile_append_of_pos (hname p.1), List.dropWhile_append_of_pos (hname p.1)]
  simp [component_encodeText h]

end Encoder

end FormUrlencoded
