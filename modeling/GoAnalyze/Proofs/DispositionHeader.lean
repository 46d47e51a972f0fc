import GoAnalyze.Lib.HeaderField
import GoAnalyze.Spec.Handlers

/-! The `Content-Disposition` of a download, read back by the grammar of the header. The filename
stands in a quoted string without its quotes and line breaks, and as a percent-encoded
value, so it reads back exactly where it has no backslash and no other control character
than a tab. -/

namespace GoAnalyze

open HeaderField JsonText

/-! ## What the header says -/

section Header

variable (filename : String)

/-- The filename without CR, LF and double quotes. -/
def safeName : List Char := filename.toList.filter fun c => c ∉ ['\r', '\n', '"']

def asciiName : List Char := (safeName filename).map fun c => if c.toNat < 128 then c else '?'

/-- The value parses as an attachment with the one name in ASCII and the other in UTF-8. -/
def WellFormedDisposition : Prop :=
  ∃ d, disposition (contentDisposition filename).toList = some d ∧ d.type = "attachment".toList ∧
    d.parameters.Perm [.regular "filename".toList (asciiName filename),
      .extended "filename*".toList ⟨"UTF-8".toList, [], encodeUtf8 (safeName filename)⟩]

/-- No backslash, and of the control characters only tabs and line breaks. -/
def PlainName : Prop :=
  ∀ c ∈ filename.toList, c ≠ '\\' ∧ (c.toNat < 32 ∨ c.toNat = 127 → c ∈ ['\t', '\r', '\n'])

end Header

/-! ## The quoted name -/

section Quoted

variable {filename : String}

theorem isQdtext_ascii {c : Char} (hc : c.toNat < 128) : isQdtext c ↔
    c ≠ '"' ∧ c ≠ '\\' ∧ (c.toNat < 32 ∨ c.toNat = 127 → c = '\t') :=
  forall_ascii (motive := fun c => isQdtext c ↔
    c ≠ '"' ∧ c ≠ '\\' ∧ (c.toNat < 32 ∨ c.toNat = 127 → c = '\t')) (by decide +kernel) hc

theorem quote_notMem_asciiName : '"' ∉ asciiName filename := by
  intro h
  obtain ⟨c, hc, heq⟩ := List.mem_map.mp h
  have hsafe : c ∉ ['\r', '\n', '"'] := by simpa using (List.mem_filter.mp hc).2
  split_ifs at heq with hascii
  · exact hsafe (by simp [heq])
  · exact absurd heq (by decide)

theorem isQdtext_asciiName :
    (∀ c ∈ asciiName filename, isQdtext c) ↔ PlainName filename := by
  simp only [asciiName, safeName, List.forall_mem_map, List.forall_mem_filter, PlainName]
  refine forall₂_congr fun c _ => ?_
  by_cases hascii : c.toNat < 128
  · rw [if_pos hascii, isQdtext_ascii hascii]
    by_cases hbreak : c = '\r' ∨ c = '\n'
    · rcases hbreak with rfl | rfl <;> simp
    · by_cases hquote : c = '"'
      · subst hquote
        simp
      · simp_all
  · rw [if_neg hascii]
    refine iff_of_true (fun _ => by decide) ⟨?_, fun h => by omega⟩
    rintro rfl
    exact hascii (by decide)

end Quoted

/-! ## The encoded name -/

theorem hexValue_digitChar : ∀ d < 16, hexValue (Nat.digitChar d).toUpper = some d := by decide

theorem isAttrChar_ofNat : ∀ n < 256, (Char.ofNat n).toNat = n ∧
    ((Char.ofNat n).isAlphanum || Char.ofNat n ∈ ['_', '.', '-', '~'] →
      isAttrChar (Char.ofNat n)) := by
  decide +kernel

theorem encodesByte_quote (b : UInt8) : EncodesByte b
    (let c := Char.ofNat b.toNat
     if c.isAlphanum || c ∈ ['_', '.', '-', '~'] then [c] else '%' :: hexUpper 2 b.toNat) := by
  have hb : b.toNat < 256 := b.toNat_lt
  obtain ⟨htoNat, hattr⟩ := isAttrChar_ofNat b.toNat hb
  dsimp only
  split_ifs with h
  · refine .attr (hattr h) ?_
    rw [htoNat, UInt8.ofNat_toNat]
  · have hhex : hexUpper 2 b.toNat =
        [(Nat.digitChar (b.toNat / 16 % 16)).toUpper, (Nat.digitChar (b.toNat % 16)).toUpper] := rfl
    rw [hhex]
    refine .percent (hexValue_digitChar _ (Nat.mod_lt _ (by decide)))
      (hexValue_digitChar _ (Nat.mod_lt _ (by decide))) ?_
    rw [show 16 * (b.toNat / 16 % 16) + b.toNat % 16 = b.toNat by omega, UInt8.ofNat_toNat]

theorem quote_notMem_quote (s : List Char) : '"' ∉ quote s := by
  intro h
  obtain ⟨b, -, hc⟩ := List.mem_flatMap.mp h
  exact absurd ((encodesByte_quote b).isAttrChar _ hc) (by decide)

/-! ## The whole value -/

section Parse

variable {filename : String}

theorem disposition_attachment (t : List Char) :
    disposition ("attachment; filename=\"".toList ++ t) =
      (quotedString t).bind fun r => (parameters (t.length + 11) r.2).map fun ps =>
        ⟨"attachment".toList, .regular "filename".toList r.1 :: ps⟩ := by
  have htoken : token ("attachment; filename=\"".toList ++ t) =
      some ("attachment".toList, "; filename=\"".toList ++ t) := rfl
  have hlen : ("; filename=\"".toList ++ t).length = t.length + 11 + 1 := by
    rw [List.length_append, Nat.add_comm]
    rfl
  have hparameter : parameter ("filename=\"".toList ++ t) =
      (quotedString t).map fun r => (.regular "filename".toList r.1, r.2) := rfl
  have hparams : parameters (t.length + 11 + 1) ("; filename=\"".toList ++ t) =
      (parameter ("filename=\"".toList ++ t)).bind fun r =>
        (parameters (t.length + 11) r.2).map (r.1 :: ·) :=
    parameters_succ _ (" filename=\"".toList ++ t)
  have hbind : disposition ("attachment; filename=\"".toList ++ t) =
      (parameters ("; filename=\"".toList ++ t).length ("; filename=\"".toList ++ t)).map
        (⟨"attachment".toList, ·⟩) := by
    rw [disposition, htoken, Option.map_eq_bind]
    rfl
  rw [hbind, hlen, hparams, hparameter]
  cases quotedString t with
  | none => rfl
  | some r =>
    rw [Option.map_some, Option.bind_some, Option.bind_some, Option.map_map]
    rfl

theorem parameters_filename (n : ℕ) (s : List Char) :
    parameters (n + 1) ("; filename*=UTF-8''".toList ++ quote s) = some
      [.extended "filename*".toList ⟨"UTF-8".toList, [], encodeUtf8 s⟩] := by
  have hparameter : parameter ("filename*=UTF-8''".toList ++ quote s) =
      (extValue ("UTF-8''".toList ++ quote s)).map fun r =>
        (.extended "filename*".toList r.1, r.2) := rfl
  have hparams : parameters (n + 1) ("; filename*=UTF-8''".toList ++ quote s) =
      (parameter ("filename*=UTF-8''".toList ++ quote s)).bind fun r =>
        (parameters n r.2).map (r.1 :: ·) :=
    parameters_succ _ (" filename*=UTF-8''".toList ++ quote s)
  rw [hparams, hparameter, quote, extValue_utf8 encodesByte_quote, Option.map_some,
    Option.bind_some]
  dsimp only
  rw [parameters_nil, Option.map_some]

theorem toList_contentDisposition : (contentDisposition filename).toList =
    "attachment; filename=\"".toList ++ (asciiName filename ++
      '"' :: ("; filename*=UTF-8''".toList ++ quote (safeName filename))) := by
  have hlit : "\"; filename*=UTF-8''".toList = '"' :: "; filename*=UTF-8''".toList := by decide
  have hunfold : contentDisposition filename = String.ofList ("attachment; filename=\"".toList ++
      asciiName filename ++ "\"; filename*=UTF-8''".toList ++ quote (safeName filename)) := rfl
  rw [hunfold, String.toList_ofList, hlit, List.append_assoc, List.append_assoc, List.cons_append]

/-- The `Content-Disposition` of a download parses back to the names that it is made of
exactly where the filename has no backslash and no control characters but tabs and line
breaks, which are dropped. -/
theorem wellFormedDisposition_iff : WellFormedDisposition filename ↔ PlainName filename := by
  rw [WellFormedDisposition, toList_contentDisposition, disposition_attachment,
    ← isQdtext_asciiName]
  constructor
  · rintro ⟨d, hd, -, hperm⟩
    obtain ⟨⟨value, rest⟩, hquoted, hrest⟩ := Option.bind_eq_some_iff.mp hd
    obtain ⟨ps, hps, rfl⟩ := Option.map_eq_some_iff.mp hrest
    have hmem : Parameter.regular "filename".toList value ∈
        [Parameter.regular "filename".toList (asciiName filename), .extended "filename*".toList
          ⟨"UTF-8".toList, [], encodeUtf8 (safeName filename)⟩] := hperm.mem_iff.mp List.mem_cons_self
    have hvalue : value = asciiName filename := by simpa using hmem
    have hquote : '"' ∉ "; filename*=UTF-8''".toList ++ quote (safeName filename) := by
      rw [List.mem_append, not_or]
      exact ⟨by decide, quote_notMem_quote _⟩
    exact (isQdtext_of_quotedString quote_notMem_asciiName hquote hquoted).2
      (congrArg List.length hvalue)
  · intro hplain
    rw [quotedString_append hplain, Option.bind_some]
    dsimp only
    rw [parameters_filename]
    exact ⟨_, rfl, rfl, List.Perm.refl _⟩

end Parse

/-- The backslash of `a\` takes the quote that ends the name. -/
theorem disposition_backslash : ¬ WellFormedDisposition "a\\" := by
  have hnone : disposition (contentDisposition "a\\").toList = none := by decide +kernel
  rintro ⟨d, hd, -⟩
  rw [hnone] at hd
  cases hd

end GoAnalyze
