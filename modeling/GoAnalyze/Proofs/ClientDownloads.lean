import GoAnalyze.Proofs.DownloadHeaders
import GoAnalyze.Spec.ApiClient

/-! A download at the browser. `request` reads a body as JSON where the content type of the
response names `application/json`, and the content type of a download is that of the
document. -/

namespace GoAnalyze

open Sql
open Auth (isOk)

/-! ## Transport -/

/-- The server, the network and the browser between a handler and its `fetch`. -/
abbrev Wire := ServerResponse → FetchOutcome

/-- A header value without the blanks around it. -/
def trimValue (value : String) : String := String.ofList (HeaderField.trim value.toList)

/-- A field value of HTTP: Latin-1, and of the control characters of ASCII only the tab. -/
def FieldValue (value : String) : Prop :=
  ∀ c ∈ value.toList, c.toNat < 256 ∧ (c.toNat < 32 ∨ c.toNat = 127 → c = '\t')

instance : DecidablePred FieldValue := fun _ => List.decidableBAll _ _

/-- Of the control characters of ASCII only line breaks and tabs. -/
def NoControlsButTabs (filename : String) : Prop :=
  ∀ c ∈ filename.toList, c.toNat < 32 ∨ c.toNat = 127 → (c = '\r' ∨ c = '\n') ∨ c = '\t'

instance : DecidablePred NoControlsButTabs := fun _ => List.decidableBAll _ _

theorem isLatin1_of_fieldValue {value : String} (h : FieldValue value) : isLatin1 value :=
  List.all_eq_true.mpr fun c hc => decide_eq_true (h c hc).1

theorem fieldValue_rawHeaders_iff {P : Platform} {data : Bytes} {contentType filename : String} :
    (∀ header ∈ (StreamingResponse.mk data contentType (contentDisposition filename)).rawHeaders P,
      FieldValue header.2) ↔ FieldValue contentType ∧ NoControlsButTabs filename := by
  refine (forall_rawHeaders fun c h32 h127 => ⟨by omega, fun hlow => by omega⟩).trans
    (and_congr_right fun _ => forall₂_congr fun c _ => imp_congr_right fun hlow => ?_)
  exact or_congr_right ⟨fun h => h.2 hlow, fun htab => ⟨by omega, fun _ => htab⟩⟩

/-- Responses whose header values are field values arrive as they are. -/
def Delivers (wire : Wire) : Prop :=
  ∀ response : ServerResponse, (∀ header ∈ response.headers, FieldValue header.2) →
    wire response = .response
      ⟨response.status, (response.headers.lookup "content-type").map trimValue, response.body⟩

/-- The content type names JSON for `request`. -/
def NamesJson (contentType : String) : Prop :=
  "application/json".toList <:+: contentType.toList

instance : DecidablePred NamesJson := fun _ => inferInstanceAs (Decidable (_ <:+: _))

theorem namesJson_trimValue {value : String} : NamesJson (trimValue value) ↔ NamesJson value := by
  have hblank : ∀ c ∈ "application/json".toList, ¬ HeaderField.isOws c :=
    List.all_iff_forall_prop.mp (by decide)
  have htrim : (trimValue value).toList = HeaderField.trim value.toList := String.toList_ofList
  rw [NamesJson, htrim, HeaderField.infix_trim_iff hblank (by decide), NamesJson]

theorem namesJson_contentTypeHeader {P : Platform} {mediaType : String} :
    NamesJson (contentTypeHeader P mediaType) ↔ NamesJson mediaType := by
  unfold contentTypeHeader
  split_ifs
  · have hsuffix : "; charset=utf-8".toList = ';' :: " charset=utf-8".toList := rfl
    have hsemicolon : ';' ∉ "application/json".toList := by decide
    rw [NamesJson, String.toList_append, hsuffix, HeaderField.infix_append_cons_iff hsemicolon]
    exact or_iff_left (by decide)
  · rfl

/-! ## Downloads at the browser -/

section Download

variable (P : Platform)

/-- Whatever carries the response, a download of the document in any later state, that the
policy allows, whose content is these bytes and whose audit event the columns take,
resolves to a blob of these bytes, and the button saves them. -/
def DownloadsExact (w : World) (d : UUID) (body : Bytes) : Prop :=
  ∀ wire config v inp headers context r, Delivers wire →
    DocumentRepository.find v d = DocumentRepository.find w d →
    DocumentRepository.find v d = some r → Fresh inp v →
    (evaluateAbac context "document:download" r.tenantId r.classification headers.purpose).allowed →
    (v.store (getObjectStorage P inp) (storageKey r.tenantId d)).map (·.1) = some body →
    Recordable P headers context r.tenantId →
    documentsApiDownload config d (wire (downloadResponse P inp headers context d v)) =
        .ok (.blob body) ∧
      ∀ filename, ∃ name,
        handleDownload config d filename (wire (downloadResponse P inp headers context d v)) =
          .saved name body

variable {P} {inp : Inputs} {headers : Headers} {context : TenantContext} {w v : World}

theorem request_eq_blob {config : ApiConfig} {path : String} {response : FetchResponse}
    {body : Bytes} (h : request config path (.response response) = .ok (.blob body)) :
    ¬ NamesJson (response.contentType.getD "") ∧ response.body = body := by
  unfold request at h
  dsimp only at h
  split_ifs at h with hstatus hinvalid hcontent hjson
  · split at h <;> cases h
  · cases h
  · obtain rfl : response.body = body := by simpa using h
    refine ⟨fun hnames => ?_, rfl⟩
    have hin : occursIn "application/json".toList (response.contentType.getD "").toList :=
      decide_eq_true hnames
    rw [hin] at hjson
    exact absurd hjson (by decide)
  · split at h <;> cases h

theorem request_of_not_namesJson {config : ApiConfig} {path : String}
    {contentType : Option String} {body : Bytes} (h : ¬ NamesJson (contentType.getD "")) :
    request config path (.response ⟨200, contentType, body⟩) = .ok (.blob body) := by
  have hjson : occursIn "application/json".toList (contentType.getD "").toList = false :=
    decide_eq_false h
  unfold request
  dsimp only
  rw [hjson]
  rfl

def emptyConfig : ApiConfig := ⟨"", 0, fun _ => none, fun _ => "", "", ""⟩

/-- A transport that delivers field values, and nothing else. -/
def strictWire : Wire := fun response =>
  if ∀ header ∈ response.headers, FieldValue header.2 then
    .response ⟨response.status, (response.headers.lookup "content-type").map trimValue,
      response.body⟩
  else .failed

theorem delivers_strictWire : Delivers strictWire := fun _ h => if_pos h

theorem downloadResponse_of_ok {d : UUID} {response : StreamingResponse}
    (h : (downloadDocument P inp headers context d).run w = .ok response v) :
    downloadResponse P inp headers context d w =
      ⟨200, response.rawHeaders P, response.data⟩ := by
  rw [downloadResponse, h]

theorem of_strictWire_blob {config : ApiConfig} {path : String} {d : UUID} {r : DocumentRecord}
    (hfind : DocumentRepository.find w d = some r) {body : Bytes}
    (h : request config path (strictWire (downloadResponse P inp headers context d w)) =
      .ok (.blob body)) :
    FieldValue r.contentType ∧ NoControlsButTabs r.filename ∧ ¬ NamesJson r.contentType := by
  rw [strictWire] at h
  split_ifs at h with hsend
  · obtain ⟨hnames, -⟩ := request_eq_blob h
    cases hrun : (downloadDocument P inp headers context d).run w with
    | error e v =>
      rw [downloadResponse, hrun] at hnames
      have hjson : NamesJson (((([("content-type", "application/json")] :
          List (String × String)).lookup "content-type").map trimValue).getD "") := by decide
      exact absurd hjson hnames
    | ok response v =>
      rw [downloadResponse_of_ok hrun, response_of_download hfind hrun] at hsend hnames
      obtain ⟨htype, hname⟩ := fieldValue_rawHeaders_iff.mp hsend
      refine ⟨htype, hname, fun hjson => hnames ?_⟩
      exact namesJson_trimValue.mpr (namesJson_contentTypeHeader.mpr hjson)
  · cases h

theorem of_downloadsExact {d : UUID} {r : DocumentRecord}
    (hfind : DocumentRepository.find w d = some r)
    (htenant : P.dialect = .postgresql → varchar 255 r.tenantId) {body : Bytes}
    (h : DownloadsExact P w d body) :
    FieldValue r.contentType ∧ NoControlsButTabs r.filename ∧ ¬ NamesJson r.contentType := by
  obtain ⟨u, hsame, hfresh, hallowed, hobject, hrecord⟩ :=
    exists_downloadable (w := w) (d := d) htenant body
  have hfind' := hsame.trans hfind
  exact of_strictWire_blob hfind' (h strictWire emptyConfig u _ _ _ r
    delivers_strictWire hsame hfind' hfresh hallowed hobject hrecord).1

/-- A document that was ingested reaches the page byte for byte exactly where its headers
can be sent and its content type does not name JSON. -/
theorem downloads_exact_iff {payload : DocumentIngestRequest} {record : DocumentRecord}
    (h : (ingestDocument P inp headers context payload).run w = .ok record v) (body : Bytes) :
    DownloadsExact P v record.id body ↔
      FieldValue payload.contentType ∧ NoControlsButTabs payload.filename ∧
        ¬ NamesJson payload.contentType := by
  obtain ⟨r, hfind, hname, htype, htenant⟩ := find_ingested h
  rw [← hname, ← htype]
  refine ⟨of_downloadsExact hfind htenant, ?_⟩
  rintro ⟨hsend, hcontrols, hnames⟩ wire config u inp headers context r' hwire hsame hfind'
    hfresh hallowed hobject hrecord
  obtain rfl : r' = r := Option.some.inj ((hsame.symm.trans hfind').symm.trans hfind)
  obtain ⟨response, u', hrun, hdata⟩ := (run_downloadDocument_iff hfresh hfind' hallowed body).mpr
    ⟨hobject, isLatin1_of_fieldValue hsend, hrecord⟩
  have hresponse := response_of_download hfind' hrun
  have hheaders : ∀ header ∈ response.rawHeaders P, FieldValue header.2 := by
    rw [hresponse]
    exact fieldValue_rawHeaders_iff.mpr ⟨hsend, hcontrols⟩
  have hblob : documentsApiDownload config record.id
      (wire (downloadResponse P inp headers context record.id u)) = .ok (.blob body) := by
    rw [downloadResponse_of_ok hrun, hwire _ hheaders, hdata]
    refine request_of_not_namesJson ?_
    rw [hresponse]
    exact fun hjson => hnames (namesJson_contentTypeHeader.mp (namesJson_trimValue.mp hjson))
  refine ⟨hblob, fun filename => ?_⟩
  rw [handleDownload, hblob]
  exact ⟨_, rfl⟩

end Download

/-! ## Two documents -/

/-- A tab stands in the content type and in the filename. -/
def tabbedPayload : DocumentIngestRequest :=
  { examplePayload with contentType := "text/csv;\theader=present", filename := "permits\t2024.csv" }

theorem downloads_exact_tabbed :
    ∃ v, (ingestDocument examplePlatform (exampleInputs 1) exampleHeaders exampleContext
      tabbedPayload).run World.empty = .ok (newRecord (exampleInputs 1) tabbedPayload) v ∧
    DownloadsExact examplePlatform v 7 [1, 2, 3] := by
  have hsend : FieldValue tabbedPayload.contentType ∧ NoControlsButTabs tabbedPayload.filename ∧
      ¬ NamesJson tabbedPayload.contentType := by decide
  obtain ⟨v, hrun⟩ : ∃ v, (ingestDocument examplePlatform (exampleInputs 1) exampleHeaders
      exampleContext tabbedPayload).run World.empty =
        .ok (newRecord (exampleInputs 1) tabbedPayload) v := ⟨_, rfl⟩
  exact ⟨v, hrun, (downloads_exact_iff hrun [1, 2, 3]).mpr hsend⟩

def jsonPayload : DocumentIngestRequest :=
  { examplePayload with contentType := "application/json" }

/-- A document of JSON is ingested, and its content does not reach the page as a blob. -/
theorem json_download_not_exact :
    ∃ v, (ingestDocument examplePlatform (exampleInputs 1) exampleHeaders exampleContext
      jsonPayload).run World.empty = .ok (newRecord (exampleInputs 1) jsonPayload) v ∧
    ¬ DownloadsExact examplePlatform v 7 [0x7b, 0x7d] := by
  refine ⟨_, rfl, fun h => ?_⟩
  have hnames := (of_downloadsExact (r := DocumentRepository.toDomain
    (DocumentRepository.toOrm .postgresql (newRecord (exampleInputs 1) jsonPayload))) rfl
    (fun _ => by decide) h).2.2
  exact absurd hnames (by decide)

end GoAnalyze
