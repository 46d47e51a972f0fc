import GoAnalyze.Spec.Audit

/-! What the event hash seals: the text that is hashed determines every field of
the event but the hash itself, and its details up to the order of members. -/

namespace GoAnalyze

open JsonText

/-! ## Fixed-width numerals -/

section Positional

variable {b : ℕ} {f : ℕ → ℕ → List Char} (h0 : ∀ v, f 0 v = [])
  (hs : ∀ n v, f (n + 1) v = f n (v / b) ++ [Nat.digitChar (v % b)])

include hs

include h0 in
theorem positional_length (n v : ℕ) : (f n v).length = n := by
  induction n generalizing v with
  | zero => simp [h0]
  | succ n ih => simp [hs, ih]

theorem positional_injective (hb : 0 < b) (hb16 : b ≤ 16) {n v w : ℕ} (hv : v < b ^ n)
    (hw : w < b ^ n) (h : f n v = f n w) : v = w := by
  have hdigit : ∀ x < 16, ∀ y < 16, Nat.digitChar x = Nat.digitChar y → x = y := by decide
  induction n generalizing v w with
  | zero => simp at hv hw; omega
  | succ n ih =>
    rw [hs, hs] at h
    obtain ⟨hhi, hlo⟩ := List.append_inj' h rfl
    have hdiv : v / b = w / b := by
      refine ih ?_ ?_ hhi <;> rw [Nat.div_lt_iff_lt_mul hb] <;> rwa [← pow_succ]
    have hmod : v % b = w % b :=
      hdigit _ ((Nat.mod_lt _ hb).trans_le hb16) _ ((Nat.mod_lt _ hb).trans_le hb16)
        (by simpa using hlo)
    rw [← Nat.div_add_mod v b, ← Nat.div_add_mod w b, hdiv, hmod]

end Positional

@[simp] theorem length_hex (n v : ℕ) : (hex n v).length = n :=
  positional_length (b := 16) (fun _ => rfl) (fun _ _ => rfl) n v

theorem hex_injective {n v w : ℕ} (hv : v < 16 ^ n) (hw : w < 16 ^ n) (h : hex n v = hex n w) :
    v = w :=
  positional_injective (fun _ _ => rfl) (by norm_num) (by norm_num) hv hw h

@[simp] theorem length_pad (n v : ℕ) : (pad n v).length = n :=
  positional_length (b := 10) (fun _ => rfl) (fun _ _ => rfl) n v

theorem pad_injective {n v w : ℕ} (hv : v < 10 ^ n) (hw : w < 10 ^ n) (h : pad n v = pad n w) :
    v = w :=
  positional_injective (fun _ _ => rfl) (by norm_num) (by norm_num) hv hw h

theorem pad_append_inj {n v w : ℕ} {r r' : List Char} (hv : v < 10 ^ n) (hw : w < 10 ^ n)
    (h : pad n v ++ r = pad n w ++ r') : v = w ∧ r = r' := by
  obtain ⟨hp, hr⟩ := List.append_inj h (by simp)
  exact ⟨pad_injective hv hw hp, hr⟩

/-! ## Identifiers -/

theorem of_mem_hex {p : Char → Prop} (hp : ∀ x < 16, p (Nat.digitChar x)) {n v : ℕ} {c : Char}
    (hc : c ∈ hex n v) : p c := by
  induction n generalizing v with
  | zero => cases hc
  | succ n ih =>
    rcases List.mem_append.mp hc with hc | hc
    · exact ih hc
    · rw [List.mem_singleton.mp hc]
      exact hp _ (Nat.mod_lt _ (by norm_num))

theorem hex_of_uuidChars (u : UUID) : (uuidChars u).filter (· ≠ '-') = hex 32 u.toNat := by
  have hdigit : ∀ c ∈ hex 32 u.toNat, c ≠ '-' := fun c hc =>
    of_mem_hex (p := fun d => d ≠ '-') (by decide) hc
  have hkeep : ∀ l : List Char, l ⊆ hex 32 u.toNat → l.filter (· ≠ '-') = l := fun l hl =>
    List.filter_eq_self.mpr fun c hc => by simpa using hdigit c (hl hc)
  have hdrop : ∀ n, (hex 32 u.toNat).drop n ⊆ hex 32 u.toNat := fun n => List.drop_subset _ _
  have htake : ∀ n m, ((hex 32 u.toNat).drop n).take m ⊆ hex 32 u.toNat := fun n m =>
    List.Subset.trans (List.take_subset _ _) (List.drop_subset _ _)
  simp only [uuidChars, List.filter_append, List.filter_cons, hkeep _ (hdrop _),
    hkeep _ (htake _ _), hkeep _ (List.take_subset _ _)]
  simp only [ne_eq, not_true_eq_false, decide_false, if_false, Bool.false_eq_true]
  -- the five groups put together again
  have hcat : ∀ (l : List Char) (a b : ℕ), (l.drop a).take b ++ l.drop (a + b) = l.drop a :=
    fun l a b => by rw [← List.drop_drop, List.take_append_drop]
  rw [hcat _ 16 4, hcat _ 12 4, hcat _ 8 4, List.take_append_drop]

theorem uuidChars_injective : Function.Injective uuidChars := by
  intro u v h
  have hhex : hex 32 u.toNat = hex 32 v.toNat := by rw [← hex_of_uuidChars, h, hex_of_uuidChars]
  refine BitVec.eq_of_toNat_eq (hex_injective ?_ ?_ hhex)
  · exact u.isLt.trans_le (by norm_num)
  · exact v.isLt.trans_le (by norm_num)

theorem strUuid_injective : Function.Injective strUuid := fun _ _ h =>
  uuidChars_injective (String.ofList_injective h)

theorem length_uuidChars (u : UUID) : (uuidChars u).length = 36 := by
  simp [uuidChars]

theorem varchar_strUuid (u : UUID) : Sql.varchar 255 (strUuid u) := by
  have hnul : ∀ c ∈ uuidChars u, c ≠ '\x00' := by
    intro c hc
    by_cases hdash : c = '-'
    · rw [hdash]
      decide
    · have hmem : c ∈ (uuidChars u).filter (· ≠ '-') :=
        List.mem_filter.mpr ⟨hc, by simpa using hdash⟩
      rw [hex_of_uuidChars] at hmem
      exact of_mem_hex (p := fun d => d ≠ '\x00') (by decide) hmem
  simpa [Sql.varchar, strUuid, length_uuidChars] using hnul

/-! ## Date and time -/

/-- What may stand after the seconds: a fraction or nothing, then the zone. -/
theorem fraction_inj {us us' : Fin 1000000} {z z' : List Char} (hz : z.head? ≠ some '.')
    (hz' : z'.head? ≠ some '.')
    (h : (if us.val = 0 then [] else '.' :: pad 6 us) ++ z =
      (if us'.val = 0 then [] else '.' :: pad 6 us') ++ z') : us = us' ∧ z = z' := by
  split_ifs at h with h0 h0'
  · exact ⟨Fin.ext (h0.trans h0'.symm), h⟩
  · rw [List.nil_append] at h
    exact absurd (by rw [h]; rfl) hz
  · rw [List.nil_append] at h
    exact absurd (by rw [← h]; rfl) hz'
  · obtain ⟨hv, hz⟩ := pad_append_inj us.isLt us'.isLt (List.cons.inj h).2
    exact ⟨Fin.ext hv, hz⟩

def zoneChars : Option UtcOffset → List Char
  | none => []
  | some o => if o.minutes = 0 then ['Z'] else offsetChars o

theorem zoneChars_head (z : Option UtcOffset) : (zoneChars z).head? ≠ some '.' := by
  cases z with
  | none => simp [zoneChars]
  | some o => simp only [zoneChars, offsetChars]; split_ifs <;> simp

theorem offsetChars_injective {o o' : UtcOffset} (h : offsetChars o = offsetChars o') : o = o' := by
  obtain ⟨m, hm⟩ := o
  obtain ⟨m', hm'⟩ := o'
  simp only [offsetChars, List.cons.injEq] at h
  obtain ⟨hsign, habs⟩ := h
  obtain ⟨hhours, hrest⟩ := pad_append_inj (by norm_num; omega) (by norm_num; omega) habs
  have hmins := pad_injective (by norm_num; omega) (by norm_num; omega) (List.cons.inj hrest).2
  have hneg : m < 0 ↔ m' < 0 := by
    by_cases h0 : m < 0 <;> by_cases h0' : m' < 0 <;> simp [h0, h0'] at hsign ⊢
  simp only [UtcOffset.mk.injEq]
  omega

theorem zoneChars_injective : Function.Injective zoneChars := by
  intro z z' h
  have hsign : ∀ o, (offsetChars o).head? ≠ some 'Z' := fun o => by
    simp only [offsetChars]; split_ifs <;> simp
  rcases z with _ | o <;> rcases z' with _ | o' <;> simp only [zoneChars] at h
  · rfl
  · split_ifs at h; simp [offsetChars] at h
  · split_ifs at h; simp [offsetChars] at h
  · split_ifs at h with h0 h0' h0'
    · obtain ⟨m, hm⟩ := o
      obtain ⟨m', hm'⟩ := o'
      simp only at h0 h0'
      simp [h0, h0']
    · exact absurd (by rw [← h]; rfl) (hsign o')
    · exact absurd (by rw [h]; rfl) (hsign o)
    · rw [offsetChars_injective h]

theorem jsonChars_injective : Function.Injective DateTime.jsonChars := by
  intro t t' h
  obtain ⟨year, month, day, hour, minute, second, us, z⟩ := t
  obtain ⟨year', month', day', hour', minute', second', us', z'⟩ := t'
  replace h : _ ++ zoneChars z = _ ++ zoneChars z' := h
  simp only [DateTime.wallChars, List.append_assoc, List.cons_append] at h
  obtain ⟨hyear, h⟩ := pad_append_inj year.isLt year'.isLt h
  obtain ⟨hmonth, h⟩ := pad_append_inj (by omega) (by omega) (List.cons.inj h).2
  obtain ⟨hday, h⟩ := pad_append_inj (by omega) (by omega) (List.cons.inj h).2
  obtain ⟨hhour, h⟩ := pad_append_inj (by omega) (by omega) (List.cons.inj h).2
  obtain ⟨hminute, h⟩ := pad_append_inj (by omega) (by omega) (List.cons.inj h).2
  obtain ⟨hsecond, h⟩ := pad_append_inj (by omega) (by omega) (List.cons.inj h).2
  obtain ⟨hus, hz⟩ := fraction_inj (zoneChars_head z) (zoneChars_head z') h
  simp only [DateTime.mk.injEq]
  exact ⟨Fin.ext hyear, Fin.ext hmonth, Fin.ext hday, Fin.ext hhour, Fin.ext hminute,
    Fin.ext hsecond, hus, zoneChars_injective hz⟩

/-! ## The hashed text -/

theorem encodeUtf8_injective : Function.Injective encodeUtf8 := by
  intro s s' h
  have hofList : (String.ofList s).toByteArray = (String.ofList s').toByteArray := by
    rw [String.toByteArray_ofList, String.toByteArray_ofList]
    exact congrArg (fun l => l.toByteArray) h
  exact String.ofList_injective (String.toByteArray_inj.mp hofList)

theorem setItem_modelDump (event : AuditEvent) :
    setItem "event_hash" .null event.modelDump = { event with eventHash := none }.modelDump := by
  simp [setItem, AuditEvent.modelDump, optStr]

/-- Equal in every field, the details as JSON values whatever the order of members. -/
structure SameEvent (e f : AuditEvent) : Prop where
  id : e.id = f.id
  tenantId : e.tenantId = f.tenantId
  actor : e.actor = f.actor
  action : e.action = f.action
  resourceType : e.resourceType = f.resourceType
  resourceId : e.resourceId = f.resourceId
  purpose : e.purpose = f.purpose
  traceId : e.traceId = f.traceId
  timestamp : e.timestamp = f.timestamp
  details : Same (.obj e.details) (.obj f.details)
  previousHash : e.previousHash = f.previousHash
  eventHash : e.eventHash = f.eventHash

theorem eq_of_same_str {a b : String} (h : Same (.str a) (.str b)) : a = b := by
  cases h; rfl

theorem eq_of_same_optStr {a b : Option String} (h : Same (optStr a) (optStr b)) : a = b := by
  cases a <;> cases b <;> cases h <;> rfl

theorem sameMembers_get {ms ns : Dict} (h : SameMembers ms ns) {k : String} {v : Json}
    (hv : (k, v) ∈ ms) : ∃ w, (k, w) ∈ ns ∧ Same v w := by
  induction ms generalizing ns with
  | nil => cases hv
  | cons m ms ih =>
    cases h with
    | cons hsame hrest =>
      rcases List.mem_cons.mp hv with heq | hv
      · cases heq
        exact ⟨_, List.mem_cons_self, hsame⟩
      · obtain ⟨w, hw, hs⟩ := ih hrest hv
        exact ⟨w, List.mem_cons_of_mem _ hw, hs⟩

theorem mem_of_lookup {k : String} {v : Json} {ms : Dict} (h : lookup k ms = some v) :
    (k, v) ∈ ms := by
  induction ms with
  | nil => cases h
  | cons m ms ih =>
    simp only [lookup] at h
    split_ifs at h with hk
    · cases h; exact hk ▸ List.mem_cons_self
    · exact List.mem_cons_of_mem _ (ih h)

theorem same_of_lookup {ms ns : Dict} (h : Same (.obj ms) (.obj ns))
    (hnd : (ns.map Prod.fst).Nodup) (k : String) {v w : Json} (hv : lookup k ms = some v)
    (hw : lookup k ns = some w) : Same v w := by
  cases h with
  | obj hmem hperm =>
    obtain ⟨w', hw', hs⟩ := sameMembers_get hmem (mem_of_lookup hv)
    have heq := List.inj_on_of_nodup_map hnd (hperm.subset hw') (mem_of_lookup hw) rfl
    cases heq
    exact hs

theorem modelDump_keys_nodup (event : AuditEvent) : (event.modelDump.map Prod.fst).Nodup := by
  simp [AuditEvent.modelDump]

theorem sameEvent_of_modelDump {e f : AuditEvent}
    (h : Same (.obj e.modelDump) (.obj f.modelDump)) : SameEvent e f := by
  have hget := fun k {v w} => same_of_lookup h (modelDump_keys_nodup f) k (v := v) (w := w)
  exact
    { id := strUuid_injective (eq_of_same_str (hget "id" rfl rfl))
      tenantId := eq_of_same_str (hget "tenant_id" rfl rfl)
      actor := eq_of_same_str (hget "actor" rfl rfl)
      action := eq_of_same_str (hget "action" rfl rfl)
      resourceType := eq_of_same_str (hget "resource_type" rfl rfl)
      resourceId := eq_of_same_str (hget "resource_id" rfl rfl)
      purpose := eq_of_same_str (hget "purpose" rfl rfl)
      traceId := eq_of_same_str (hget "trace_id" rfl rfl)
      timestamp := jsonChars_injective
        (String.ofList_injective (eq_of_same_str (hget "timestamp" rfl rfl)))
      details := hget "details" rfl rfl
      previousHash := eq_of_same_optStr (hget "previous_hash" rfl rfl)
      eventHash := eq_of_same_optStr (hget "event_hash" rfl rfl) }

theorem sameEvent_of_hashEvent_eq {hmac : Bytes → Bytes → String} {secret : String}
    (hinj : Function.Injective (hmac (encodeUtf8 secret.toList))) {e f : AuditEvent}
    (h : AuditLog.hashEvent hmac secret e = AuditLog.hashEvent hmac secret f) :
    SameEvent { e with eventHash := none } { f with eventHash := none } := by
  have htext := encodeUtf8_injective (hinj h)
  rw [setItem_modelDump, setItem_modelDump] at htext
  exact sameEvent_of_modelDump (same_of_dumpsSorted_eq htext)

theorem hashEvent_details_congr (hmac : Bytes → Bytes → String) (secret : String)
    (event : AuditEvent) {d d' : Dict} (h : canon (.obj d) = canon (.obj d')) :
    AuditLog.hashEvent hmac secret { event with details := d } =
      AuditLog.hashEvent hmac secret { event with details := d' } := by
  have hmembers : canonMembers { event with details := d, eventHash := none }.modelDump =
      canonMembers { event with details := d', eventHash := none }.modelDump := by
    simp only [AuditEvent.modelDump, canonMembers, h]
  simp only [AuditLog.hashEvent, setItem_modelDump, dumpsSorted, canon, hmembers]

theorem hashEvent_of_eventHash (hmac : Bytes → Bytes → String) (secret : String)
    (event : AuditEvent) (h : Option String) :
    AuditLog.hashEvent hmac secret { event with eventHash := h } =
      AuditLog.hashEvent hmac secret event := by
  simp only [AuditLog.hashEvent, setItem_modelDump]

theorem eventHash_chainEvent (hmac : Bytes → Bytes → String) (secret : String)
    (previousHash : Option String) (event : AuditEvent) :
    let chained := AuditRepository.chainEvent (AuditLog.hashEvent hmac secret) previousHash event
    chained.eventHash = some (AuditLog.hashEvent hmac secret chained) :=
  congrArg some
    (hashEvent_of_eventHash hmac secret { event with previousHash := previousHash } _).symm

/-! ## A digest to run the model with -/

/-- The message itself in place of its digest: what an injective HMAC knows. -/
def transparentHmac (_secret message : Bytes) : String :=
  String.ofList (message.map fun b => Char.ofNat b.toNat)

theorem transparentHmac_injective (secret : Bytes) :
    Function.Injective (transparentHmac secret) := by
  intro m m' h
  have hchar : Function.Injective fun b : UInt8 => Char.ofNat b.toNat := by
    intro b b' hb
    have hval : ∀ c : UInt8, (Char.ofNat c.toNat).toNat = c.toNat := fun c => by
      have hc := c.toNat_lt
      rw [Char.ofNat, dif_pos (Or.inl (by omega))]
      rfl
    exact UInt8.toNat_inj.mp (by rw [← hval b, ← hval b']; exact congrArg Char.toNat hb)
  exact hchar.list_map (String.ofList_injective h)

end GoAnalyze
