import GoAnalyze.Proofs.EventHash
import GoAnalyze.Spec.JsonBodies

/-! JSON bodies on their way from the pages to the handlers and back. An endpoint is run with
the values that the page has posted, and the page reads the values that the endpoint has
returned. -/

namespace GoAnalyze

open JsonText JsonExchange
open JsJson (Value)

/-! ## Requests -/

theorem readJsonBody_jsonBody (v : Value) : readJsonBody (jsonBody v) = some (fromJs v) := by
  rw [readJsonBody, jsonBody, encodeUtf8, UriComponent.decodeUtf8_encode, Option.bind_some,
    loads_stringify]

theorem fromJsMembers_strings (metadata : List (String × String)) :
    fromJsMembers (metadata.map fun m => (m.1, .string m.2)) =
      metadata.map fun m => (m.1, .str m.2) := by
  induction metadata with
  | nil => rfl
  | cons m metadata ih => rw [List.map_cons, fromJsMembers, ih, List.map_cons, fromJs]

theorem fromJsAll_map {α : Type} (json : α → Value) (xs : List α) :
    fromJsAll (xs.map json) = xs.map fun x => fromJs (json x) := by
  induction xs with
  | nil => rfl
  | cons x xs ih => rw [List.map_cons, fromJsAll, ih, List.map_cons]

theorem classification_value (c : ClassificationLevel) :
    Pydantic.classification (.str c.value) = some c := by
  cases c <;> decide

/-- What the endpoint is run with. -/
def IngestPayload.received (V : Pydantic) (payload : IngestPayload) :
    Option DocumentIngestRequest :=
  (payload.caseId.elim (some none) fun text => (V.uuid text).map some).bind fun caseId =>
    if h : payload.sha256.length = 64 then
      some ⟨payload.tenantId, caseId, payload.filename, payload.contentType,
        payload.classification, payload.sha256, h, payload.objectUri,
        payload.metadata.map fun m => (m.1, .str m.2)⟩
    else none

theorem documentIngestRequest_json (V : Pydantic) (payload : IngestPayload) :
    V.documentIngestRequest (fromJs payload.json) = payload.received V := by
  have hcase : Pydantic.optional V.id (some (fromJs (orNull payload.caseId))) =
      payload.caseId.elim (some none) fun text => (V.uuid text).map some := by
    cases payload.caseId <;> rfl
  have hjson : fromJs payload.json = .obj [("tenant_id", .str payload.tenantId),
      ("case_id", fromJs (orNull payload.caseId)), ("filename", .str payload.filename),
      ("content_type", .str payload.contentType),
      ("classification", .str payload.classification.value), ("sha256", .str payload.sha256),
      ("object_uri", .str payload.objectUri),
      ("metadata", .obj (payload.metadata.map fun m => (m.1, .str m.2)))] := by
    simp only [IngestPayload.json, fromJs, fromJsMembers, fromJsMembers_strings]
  rw [hjson, Pydantic.documentIngestRequest]
  simp [Pydantic.dict, Pydantic.field, lookup, Pydantic.str, classification_value, hcase,
    IngestPayload.received]

def CitationDraft.received (V : Pydantic) (draft : CitationDraft) : Option EvidenceCitation := do
  let documentId ← V.uuid draft.documentId
  let version ← V.int (.num (number draft.version))
  return ⟨documentId, version, draft.chunkId, none, none, none, draft.sha256, draft.excerpt⟩

theorem evidenceCitation_json (V : Pydantic) (draft : CitationDraft) :
    V.evidenceCitation (fromJs draft.json) = draft.received V := by
  simp [CitationDraft.json, fromJs, fromJsMembers, Pydantic.evidenceCitation, Pydantic.dict,
    Pydantic.field, lookup, Pydantic.id, Pydantic.str, Pydantic.optional, CitationDraft.received]

theorem citations_json (V : Pydantic) (drafts : List CitationDraft) :
    V.citations (fromJs (.array (drafts.map CitationDraft.json))) =
      drafts.mapM (CitationDraft.received V) := by
  rw [fromJs, fromJsAll_map, Pydantic.citations, Pydantic.list]
  simp [List.mapM_map, Function.comp_def, evidenceCitation_json]

def ReviewForm.received (V : Pydantic) (form : ReviewForm) :
    Option EnvironmentalReviewRequest := do
  let caseId ← V.uuid form.caseId
  let documents ← form.documentIds.mapM V.uuid
  return ⟨form.tenantId, caseId, form.projectType, form.location, form.applicant, documents⟩

theorem environmentalReviewRequest_json (V : Pydantic) (form : ReviewForm) :
    V.environmentalReviewRequest (fromJs form.json) = form.received V := by
  have hid : (V.id ∘ fun s => Json.str s) = V.uuid := rfl
  simp [ReviewForm.json, fromJs, fromJsMembers, fromJsAll_map, Pydantic.environmentalReviewRequest,
    Pydantic.dict, Pydantic.field, lookup, Pydantic.id, Pydantic.str, Pydantic.list,
    ReviewForm.received, hid]

theorem int_ofInt (V : Pydantic) {n : ℤ} (hn : n.natAbs < 10 ^ 21) :
    V.int (.num (number (.ofInt n))) = some n := by
  have htext := JsJson.numberToString_ofInt hn
  have hread := (loads_numberToString (.ofInt n)).loads
  rw [htext, show writeInt n = write compact (.num (.int n)) from rfl, loads_write] at hread
  rw [← Option.some.inj hread, Pydantic.int]

/-! ## Responses -/

theorem responseBody_of_finite (W : NumberWriter) {j : Json} (h : j.isFinite) :
    responseBody W j = some (encodeUtf8 (render W j)) := if_pos h

theorem responseBody_eq_some {W : NumberWriter} {j : Json} {body : Bytes}
    (h : responseBody W j = some body) : j.isFinite ∧ encodeUtf8 (render W j) = body :=
  (Option.ite_none_right_eq_some.mp h).imp_right Option.some.inj

theorem browserJson_render (W : NumberWriter) {j : Json} (h : j.isFinite) :
    browserJson (encodeUtf8 (render W j)) = some (toJs j) := by
  rw [browserJson, encodeUtf8, UriComponent.decodeUtf8_encode, Option.bind_some, parse_render W h]

theorem classification_value_injective : Function.Injective ClassificationLevel.value := by
  intro c d h
  have hc := classification_value c
  rw [h, classification_value d] at hc
  exact (Option.some.inj hc).symm

theorem json_injective : Function.Injective DocumentRecord.json := by
  have hopt : ∀ {a b : Option UUID}, optStr (a.map strUuid) = optStr (b.map strUuid) → a = b := by
    intro a b h
    cases a <;> cases b <;> simp_all [optStr, strUuid_injective.eq_iff]
  intro r r' h
  obtain ⟨⟨_, _, _, _, _, _, _, _, _⟩, _, _, _, _⟩ := r
  obtain ⟨⟨_, _, _, _, _, _, _, _, _⟩, _, _, _, _⟩ := r'
  simp only [DocumentRecord.json, intJson, Json.obj.injEq, List.cons.injEq, Prod.mk.injEq,
    Json.str.injEq, Json.num.injEq, Number.int.injEq, true_and, and_true] at h
  obtain ⟨htenant, hcase, hname, htype, hclass, hsha, huri, hmetadata, hid, hversion, hlineage,
    htime⟩ := h
  simp only [DocumentRecord.mk.injEq, DocumentIngestRequest.mk.injEq]
  exact ⟨⟨htenant, hopt hcase, hname, htype, classification_value_injective hclass, hsha, huri,
    hmetadata⟩, strUuid_injective hid, hversion, strUuid_injective hlineage,
    jsonChars_injective (String.ofList_injective htime)⟩

theorem record_of_body {W : NumberWriter} {r r' : DocumentRecord} {body : Bytes}
    (h : responseBody W r.json = some body) (h' : responseBody W r'.json = some body) : r = r' := by
  obtain ⟨hfinite, hbody⟩ := responseBody_eq_some h
  obtain ⟨hfinite', hbody'⟩ := responseBody_eq_some h'
  exact json_injective (render_injective W hfinite hfinite'
    (encodeUtf8_injective (hbody.trans hbody'.symm)))

/-! ## Both ways -/

/-- Any value that a page posts arrives, and comes back the same where it is returned; the
models read of it the fields that were posted; and of a response the page reads what was
returned, a record with all its fields. -/
theorem bodies_read_as_written (V : Pydantic) (W : NumberWriter) :
    (∀ v : Value, readJsonBody (jsonBody v) = some (fromJs v) ∧
      (v.Ordered → Held v → (responseBody W (fromJs v)).bind browserJson = some v)) ∧
    (∀ payload : IngestPayload, (readJsonBody (jsonBody payload.json)).bind V.documentIngestRequest =
      payload.received V) ∧
    (∀ drafts : List CitationDraft,
      (readJsonBody (jsonBody (.array (drafts.map CitationDraft.json)))).bind V.citations =
        drafts.mapM (CitationDraft.received V)) ∧
    (∀ form : ReviewForm, (readJsonBody (jsonBody form.json)).bind V.environmentalReviewRequest =
      form.received V) ∧
    (∀ j : Json, Exact j → (responseBody W j).bind browserJson = some (toJs j)) ∧
    ∀ (r r' : DocumentRecord) (body : Bytes), responseBody W r.json = some body →
      responseBody W r'.json = some body → r = r' := by
  have hback : ∀ j : Json, j.isFinite → (responseBody W j).bind browserJson = some (toJs j) :=
    fun j h => by rw [responseBody_of_finite W h, Option.bind_some, browserJson_render W h]
  refine ⟨fun v => ⟨readJsonBody_jsonBody v, fun hordered hheld => ?_⟩, fun payload => ?_,
    fun drafts => ?_, fun form => ?_, fun j h => hback j h.isFinite,
    fun _ _ _ => record_of_body⟩
  · rw [hback _ (isFinite_fromJs v hheld), toJs_fromJs v hordered hheld]
  · rw [readJsonBody_jsonBody, Option.bind_some, documentIngestRequest_json]
  · rw [readJsonBody_jsonBody, Option.bind_some, citations_json]
  · rw [readJsonBody_jsonBody, Option.bind_some, environmentalReviewRequest_json]

/-! ## Ids -/

def readHex (s : List Char) : Option ℕ :=
  s.foldl (fun n c => n.bind fun n => (hexVal c).map (16 * n + ·)) (some 0)

theorem readHex_hex (n v : ℕ) : readHex (hex n v) = some (v % 16 ^ n) := by
  induction n generalizing v with
  | zero => simp [readHex, hex, Nat.mod_one]
  | succ n ih =>
    have hprefix : (hex n (v / 16)).foldl
        (fun n c => n.bind fun n => (hexVal c).map (16 * n + ·)) (some 0) =
          some (v / 16 % 16 ^ n) := ih (v / 16)
    rw [readHex, hex, List.foldl_append, hprefix, List.foldl_cons, List.foldl_nil, Option.bind_some,
      hexVal_digitChar _ (Nat.mod_lt _ (by norm_num)), Option.map_some, Option.some.injEq,
      pow_succ', Nat.mod_mul]
    omega

def uuidOfHex (s : String) : Option UUID :=
  (readHex (s.toList.filter (· ≠ '-'))).map (BitVec.ofNat 128)

theorem uuidOfHex_strUuid (u : UUID) : uuidOfHex (strUuid u) = some u := by
  rw [uuidOfHex, strUuid, String.toList_ofList, hex_of_uuidChars, readHex_hex, Option.map_some,
    Nat.mod_eq_of_lt (u.isLt.trans_le (by norm_num)), BitVec.ofNat_toNat, BitVec.setWidth_eq]

/-- Ids in hexadecimal digits, with hyphens anywhere, and integers that are written as such. -/
def hexIds : Pydantic := ⟨uuidOfHex, uuidOfHex_strUuid, fun _ => none⟩

def exampleDraft (version : JsJson.Num) : CitationDraft :=
  ⟨strUuid 7, version, "0", String.ofList (hex 64 0), "plan.pdf"⟩

/-- A citation of version 3 arrives with this version, one of version 1.5 is refused; and a
posted form comes back as it was. -/
theorem bodies_read_as_written_versions :
    (readJsonBody (jsonBody (.array ([exampleDraft (.ofInt 3)].map CitationDraft.json)))).bind
      hexIds.citations =
        some [⟨7, 3, "0", none, none, none, String.ofList (hex 64 0), "plan.pdf"⟩] ∧
    (readJsonBody (jsonBody (.array ([exampleDraft (.ofScaled false 15 (-1))].map
      CitationDraft.json)))).bind hexIds.citations = none ∧
    (responseBody NumberWriter.dumps (fromJs (exampleDraft (.ofInt 3)).json)).bind browserJson =
      some (exampleDraft (.ofInt 3)).json := by
  obtain ⟨hvalues, -, hcitations, -⟩ := bodies_read_as_written hexIds NumberWriter.dumps
  have hid : hexIds.uuid (strUuid 7#128) = some 7#128 := uuidOfHex_strUuid 7
  have hwhole : hexIds.int (.num (number (.ofInt 3))) = some 3 := int_ofInt hexIds (by decide)
  have hpart : hexIds.int (.num (number (.ofScaled false 15 (-1)))) = none := by
    have hnumber : number (.ofScaled false 15 (-1)) =
        .float (.ofScaled false 15 (-1)) (by decide +kernel) := by decide +kernel
    rw [hnumber]
    rfl
  refine ⟨?_, ?_, (hvalues _).2 ?_ ?_⟩
  · rw [hcitations]
    simp [CitationDraft.received, exampleDraft, hid, hwhole]
  · rw [hcitations]
    simp [CitationDraft.received, exampleDraft, hid, hpart]
  · exact ⟨rfl, trivial, trivial, trivial, trivial, trivial, trivial, trivial, trivial, trivial⟩
  · have hversion : (JsJson.Num.ofInt 3).decimal.InRange := by decide +kernel
    exact ⟨trivial, hversion, trivial, trivial, trivial, trivial, trivial, trivial, trivial⟩

end GoAnalyze
