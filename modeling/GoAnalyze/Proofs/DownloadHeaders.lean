import GoAnalyze.Proofs.DispositionHeader
import GoAnalyze.Proofs.Downloads
import GoAnalyze.Spec.Streaming

/-! The header values of a download come from the document as it was ingested. The filename
goes through `_content_disposition`, the content type goes out as it is. -/

namespace GoAnalyze

open HeaderField Sql

/-! ## Header values -/

def isControl (c : Char) : Bool := c.toNat < 32 || 127 ≤ c.toNat && c.toNat < 160

/-- A header value that can be sent: Latin-1 without control characters. -/
def Transmittable (value : String) : Prop := ∀ c ∈ value.toList, c.toNat < 256 ∧ ¬ isControl c

instance : DecidablePred Transmittable := fun _ => List.decidableBAll _ _

theorem isLatin1_of_transmittable {value : String} (h : Transmittable value) : isLatin1 value :=
  List.all_eq_true.mpr fun c hc => decide_eq_true (h c hc).1

/-- Of the control characters only line breaks. -/
def NoControls (filename : String) : Prop :=
  ∀ c ∈ filename.toList, c.toNat < 32 ∨ c.toNat = 127 → c = '\r' ∨ c = '\n'

instance : DecidablePred NoControls := fun _ => List.decidableBAll _ _

/-! What holds of the printable characters of ASCII is passed on by both headers. -/

section Printable

variable {p : Char → Prop} (hp : ∀ c : Char, 32 ≤ c.toNat → c.toNat < 127 → p c)
include hp

theorem forall_contentTypeHeader {P : Platform} {mediaType : String} :
    (∀ c ∈ (contentTypeHeader P mediaType).toList, p c) ↔ ∀ c ∈ mediaType.toList, p c := by
  unfold contentTypeHeader
  split_ifs with h
  · have hsuffix : ∀ c ∈ "; charset=utf-8".toList, 32 ≤ c.toNat ∧ c.toNat < 127 :=
      List.all_iff_forall_prop.mp (by decide)
    rw [String.toList_append, List.forall_mem_append]
    exact and_iff_left fun c hc => hp c (hsuffix c hc).1 (hsuffix c hc).2
  · rfl

theorem forall_contentDisposition {filename : String} :
    (∀ c ∈ (contentDisposition filename).toList, p c) ↔
      ∀ c ∈ filename.toList, c.toNat < 32 ∨ c.toNat = 127 → (c = '\r' ∨ c = '\n') ∨ p c := by
  have hquote : ∀ c ∈ quote (safeName filename), p c := by
    intro c hc
    obtain ⟨b, -, hc⟩ := List.mem_flatMap.mp hc
    rcases Bool.or_eq_true_iff.mp ((encodesByte_quote b).isAttrChar c hc) with hattr | hpercent
    · have := toNat_of_isAttrChar hattr
      exact hp c (by omega) (by omega)
    · rw [of_decide_eq_true hpercent]
      exact hp '%' (by decide) (by decide)
  have hstart : ∀ c ∈ "attachment; filename=\"".toList, 32 ≤ c.toNat ∧ c.toNat < 127 :=
    List.all_iff_forall_prop.mp (by decide)
  have hmid : ∀ c ∈ '"' :: "; filename*=UTF-8''".toList, 32 ≤ c.toNat ∧ c.toNat < 127 :=
    List.all_iff_forall_prop.mp (by decide)
  rw [toList_contentDisposition, ← List.cons_append]
  simp only [List.forall_mem_append]
  rw [and_iff_right fun c hc => hp c (hstart c hc).1 (hstart c hc).2,
    and_iff_left ⟨fun c hc => hp c (hmid c hc).1 (hmid c hc).2, hquote⟩]
  simp only [asciiName, safeName, List.forall_mem_map, List.forall_mem_filter, List.mem_cons,
    List.not_mem_nil, or_false, decide_eq_true_eq]
  refine forall₂_congr fun c _ => ?_
  by_cases hascii : c.toNat < 128
  · rw [if_pos hascii]
    constructor
    · intro hkept hcontrol
      by_contra! hbreak
      refine hbreak.2 (hkept ?_)
      rintro (hr | hn | rfl)
      · exact hbreak.1.1 hr
      · exact hbreak.1.2 hn
      · exact absurd hcontrol (by decide)
    · intro hcontrol hkept
      by_cases hlow : c.toNat < 32 ∨ c.toNat = 127
      · refine (hcontrol hlow).resolve_left fun hbreak => hkept ?_
        exact hbreak.imp_right Or.inl
      · exact hp c (by omega) (by omega)
  · rw [if_neg hascii]
    exact iff_of_true (fun _ => hp '?' (by decide) (by decide)) fun h => by omega

theorem forall_rawHeaders {P : Platform} {data : Bytes} {contentType filename : String} :
    (∀ header ∈ (StreamingResponse.mk data contentType (contentDisposition filename)).rawHeaders P,
      ∀ c ∈ header.2.toList, p c) ↔ (∀ c ∈ contentType.toList, p c) ∧
        ∀ c ∈ filename.toList, c.toNat < 32 ∨ c.toNat = 127 → (c = '\r' ∨ c = '\n') ∨ p c := by
  simp only [StreamingResponse.rawHeaders, List.forall_mem_cons, List.not_mem_nil, false_imp_iff,
    implies_true, and_true]
  rw [forall_contentDisposition hp, forall_contentTypeHeader hp, and_comm]

end Printable

theorem transmittable_rawHeaders_iff {P : Platform} {data : Bytes} {contentType filename : String} :
    (∀ header ∈ (StreamingResponse.mk data contentType (contentDisposition filename)).rawHeaders P,
      Transmittable header.2) ↔ Transmittable contentType ∧ NoControls filename := by
  have hcontrol : ∀ c : Char, c.toNat < 256 ∧ ¬ isControl c ↔
      c.toNat < 256 ∧ ¬ (c.toNat < 32 ∨ 127 ≤ c.toNat ∧ c.toNat < 160) := by
    simp [isControl]
  refine (forall_rawHeaders fun c h32 h127 => (hcontrol c).mpr (by omega)).trans
    (and_congr_right fun _ => forall₂_congr fun c _ => imp_congr_right fun hlow => ?_)
  exact or_iff_left fun h => by
    have := (hcontrol c).mp h
    omega

/-! ## Downloads of a stored document -/

section Download

variable (P : Platform)

/-- A download of the document, in any later state, that the policy allows, whose content
is in the store and whose audit event the columns take, succeeds with header values that
can be sent. -/
def DownloadsTransmittable (w : World) (d : UUID) : Prop :=
  ∀ v inp headers context r, DocumentRepository.find v d = DocumentRepository.find w d →
    DocumentRepository.find v d = some r → Fresh inp v →
    (evaluateAbac context "document:download" r.tenantId r.classification headers.purpose).allowed →
    (v.store (getObjectStorage P inp) (storageKey r.tenantId d)).isSome →
    Recordable P headers context r.tenantId →
    ∃ response v', (downloadDocument P inp headers context d).run v = .ok response v' ∧
      ∀ header ∈ response.rawHeaders P, Transmittable header.2

variable {P} {inp : Inputs} {headers : Headers} {context : TenantContext} {w v : World}

theorem response_of_download {d : UUID} {r : DocumentRecord}
    (hfind : DocumentRepository.find w d = some r) {response : StreamingResponse}
    (h : (downloadDocument P inp headers context d).run w = .ok response v) :
    response = ⟨response.data, r.contentType, contentDisposition r.filename⟩ := by
  obtain ⟨r', hfind', -, hresponse⟩ := downloadDocument_ok h
  obtain rfl : r' = r := Option.some.inj (hfind'.symm.trans hfind)
  exact hresponse

theorem find_ingested {payload : DocumentIngestRequest} {record : DocumentRecord}
    (h : (ingestDocument P inp headers context payload).run w = .ok record v) :
    ∃ r, DocumentRepository.find v record.id = some r ∧ r.filename = payload.filename ∧
      r.contentType = payload.contentType ∧
      (P.dialect = .postgresql → varchar 255 r.tenantId) := by
  rcases ingestDocument_cases (P := P) payload with ⟨e, he⟩ | ⟨u, hins, -, hrun | hrun⟩
  · exact absurd (h.symm.trans he) (by simp)
  · obtain ⟨rfl, rfl⟩ := EStateM.Result.ok.inj (h.symm.trans hrun)
    have hget : v.documents.get (newRecord inp payload).id =
        some (DocumentRepository.toOrm P.dialect (newRecord inp payload)) :=
      (Table.get_insert hins _).trans (if_pos rfl)
    refine ⟨DocumentRepository.toDomain (DocumentRepository.toOrm P.dialect (newRecord inp payload)),
      ?_, rfl, rfl, fun hdialect => ?_⟩
    · rw [DocumentRepository.find, hget, Option.map_some]
    · cases hchecked : w.documents.insertChecked (DocumentORM.fits P.dialect)
          (DocumentRepository.toOrm P.dialect (newRecord inp payload)) with
      | none =>
        have hrefused : ∃ e, (ingestDocument P inp headers context payload).run w = .error e w :=
          run_ingestDocument_refused (Or.inr hchecked)
        obtain ⟨e, he⟩ := hrefused
        exact absurd (h.symm.trans he) (by simp)
      | some documents =>
        have hfits := (Table.insertChecked_eq_some_iff.mp hchecked).1
        rw [hdialect] at hfits
        exact (DocumentORM.fits_postgresql.mp hfits).1
  · exact absurd (h.symm.trans hrun) (by simp)

def readerOf (tenantId : String) : TenantContext := ⟨tenantId, "", ["protected-b-reader"], none⟩

theorem allowed_readerOf (tenantId : String) (classification : ClassificationLevel) :
    (evaluateAbac (readerOf tenantId) "document:download" tenantId classification
      "case-review").allowed := by
  simp [evaluateAbac, readerOf]

theorem exists_downloadable {d : UUID} {r : DocumentRecord}
    (htenant : P.dialect = .postgresql → varchar 255 r.tenantId) (body : Bytes) :
    ∃ v, DocumentRepository.find v d = DocumentRepository.find w d ∧ Fresh (exampleInputs 1) v ∧
      (evaluateAbac (readerOf r.tenantId) "document:download" r.tenantId r.classification
        exampleHeaders.purpose).allowed ∧
      (v.store (getObjectStorage P (exampleInputs 1)) (storageKey r.tenantId d)).map (·.1) =
        some body ∧
      Recordable P exampleHeaders (readerOf r.tenantId) r.tenantId := by
  refine ⟨{ w with
    audit := .empty, minio := fun _ => some (body, ""), fallbackStore := fun _ => some (body, "") },
    rfl, List.not_mem_nil, allowed_readerOf _ _, ?_, fun hdialect =>
      ⟨htenant hdialect, show varchar 255 "api-user" by decide, by decide, by decide⟩⟩
  cases getObjectStorage P (exampleInputs 1) <;> rfl

theorem transmittable_of_downloads {d : UUID} {r : DocumentRecord}
    (hfind : DocumentRepository.find w d = some r)
    (htenant : P.dialect = .postgresql → varchar 255 r.tenantId)
    (h : DownloadsTransmittable P w d) : Transmittable r.contentType ∧ NoControls r.filename := by
  obtain ⟨v, hsame, hfresh, hallowed, hobject, hrecord⟩ :=
    exists_downloadable (w := w) (d := d) htenant []
  have hobject' :
      (v.store (getObjectStorage P (exampleInputs 1)) (storageKey r.tenantId d)).isSome := by
    rw [← Option.isSome_map (f := (·.1)), hobject]
    rfl
  obtain ⟨response, v', hrun, hheaders⟩ := h v (exampleInputs 1) exampleHeaders
    (readerOf r.tenantId) r hsame (hsame.trans hfind) hfresh hallowed hobject' hrecord
  rw [response_of_download (hsame.trans hfind) hrun] at hheaders
  exact transmittable_rawHeaders_iff.mp hheaders

/-- A document that was ingested can be downloaded with headers that can be sent exactly
where its content type is Latin-1 without control characters, and the control characters
of its filename are line breaks. -/
theorem downloads_transmittable_iff {payload : DocumentIngestRequest} {record : DocumentRecord}
    (h : (ingestDocument P inp headers context payload).run w = .ok record v) :
    DownloadsTransmittable P v record.id ↔
      Transmittable payload.contentType ∧ NoControls payload.filename := by
  obtain ⟨r, hfind, hname, htype, htenant⟩ := find_ingested h
  rw [← hname, ← htype]
  refine ⟨transmittable_of_downloads hfind htenant, ?_⟩
  intro hsend u inp headers context r' hsame hfind' hfresh hallowed hobject hrecord
  obtain rfl : r' = r := Option.some.inj ((hsame.symm.trans hfind').symm.trans hfind)
  obtain ⟨object, hobject⟩ := Option.isSome_iff_exists.mp hobject
  obtain ⟨response, v', hrun, -⟩ := (run_downloadDocument_iff hfresh hfind' hallowed object.1).mpr
    ⟨by rw [hobject, Option.map_some], isLatin1_of_transmittable hsend.1, hrecord⟩
  refine ⟨response, v', hrun, ?_⟩
  rw [response_of_download hfind' hrun]
  exact transmittable_rawHeaders_iff.mpr hsend

end Download

theorem downloads_transmittable_example :
    DownloadsTransmittable examplePlatform (exampleIngested.after World.empty) 7 ∧
      Transmittable "application/pdf" ∧ NoControls "plan.pdf" := by
  have hsend : Transmittable "application/pdf" ∧ NoControls "plan.pdf" := by decide
  exact ⟨(downloads_transmittable_iff run_examplePayload).mpr hsend, hsend⟩

/-- A content type that ends its header and starts another one. -/
def injectingPayload : DocumentIngestRequest :=
  { examplePayload with contentType := "text/plain\x0d\nX-Injected: true" }

/-- The document is ingested, and its downloads carry the injected header. -/
theorem download_injects_header :
    ∃ v, (ingestDocument examplePlatform (exampleInputs 1) exampleHeaders exampleContext
      injectingPayload).run World.empty = .ok (newRecord (exampleInputs 1) injectingPayload) v ∧
    ¬ DownloadsTransmittable examplePlatform v 7 := by
  refine ⟨_, rfl, fun h => ?_⟩
  have hsend := (transmittable_of_downloads (r := DocumentRepository.toDomain
    (DocumentRepository.toOrm .postgresql (newRecord (exampleInputs 1) injectingPayload))) rfl
    (fun _ => by decide) h).1
  exact absurd hsend (by decide)

end GoAnalyze
