import GoAnalyze.Proofs.ClientSession

/-! What the detail page of a document finds in the cache. A search and an upload cache what
they receive; a listing receives the same hits and does not, so the cache is complete and up
to date as long as the listings bring what it holds. -/

namespace GoAnalyze

open EventLoop Fragments

/-! ## Documents received -/

/-- The documents of all responses of the session, in their order. -/
def Client.documents (m : Client) : List CachedDocument := m.received.map Reception.document

/-- The value of a field that was received last for a document. -/
def lastReceived (id : UUID) (f : CachedField) (documents : List CachedDocument) :
    Option f.Value :=
  ((documents.filter (·.documentId = id)).filterMap (·.field f)).getLast?

/-- Every document that was received is cached, and each field that the cache holds of a
document is the one that was received last. -/
structure DetailsAvailable (m : Client) : Prop where
  available : ∀ doc ∈ m.documents, getCachedDocument doc.documentId m.cache ≠ none
  latest : ∀ id doc, getCachedDocument id m.cache = some doc → ∀ f v, doc.field f = some v →
    lastReceived id f m.documents = some v

/-- The documents are cached, and no field of them differs from the one that is held. -/
structure AlreadyCached (cache : DocumentCache) (documents : List CachedDocument) : Prop where
  available : ∀ doc ∈ documents, getCachedDocument doc.documentId cache ≠ none
  agrees : ∀ id doc, getCachedDocument id cache = some doc → ∀ f v v', doc.field f = some v →
    lastReceived id f documents = some v' → v' = v

/-- What is received without being cached is in the cache already. -/
def NothingMissed {ι : Type} (l : ClientLoop ι) : Label ι ClientAnswer ClientEvent → Prop
  | .answer i c => ∀ op, l.pending i = some op → op.caches = false →
    AlreadyCached l.memory.cache c.documents
  | _ => True

/-! ## The cache as a store -/

variable {cache : DocumentCache} {documents : List CachedDocument} {m : Client}

theorem latestFor_writes (id : UUID) (f : CachedField) (documents : List CachedDocument) :
    latestFor id (documents.map CachedDocument.write) f = lastReceived id f documents := by
  simp only [latestFor, latest, lastReceived, List.filter_map, List.map_map, List.filterMap_map]
  rfl

theorem found_writes :
    (∀ w ∈ documents.map CachedDocument.write, fieldsOf cache w.1 ≠ none) ↔
      ∀ doc ∈ documents, getCachedDocument doc.documentId cache ≠ none := by
  rw [List.forall_mem_map]
  refine forall₂_congr fun doc _ => not_congr ?_
  rw [fieldsOf, Option.map_eq_none_iff]
  rfl

theorem forall_fieldsOf {motive : UUID → Fragment CachedField.Value → Prop} :
    (∀ id d, fieldsOf cache id = some d → motive id d) ↔
      ∀ id doc, getCachedDocument id cache = some doc → motive id doc.field := by
  constructor
  · intro h id doc hdoc
    exact h id _ (Option.map_eq_some_iff.mpr ⟨doc, hdoc, rfl⟩)
  · intro h id d hd
    obtain ⟨doc, hdoc, rfl⟩ := Option.map_eq_some_iff.mp hd
    exact h id doc hdoc

theorem detailsAvailable_iff :
    DetailsAvailable m ↔ Current (fieldsOf m.cache) (m.documents.map CachedDocument.write) := by
  constructor
  · rintro ⟨havailable, hlatest⟩
    refine ⟨found_writes.mpr havailable, forall_fieldsOf.mpr fun id doc hdoc f v hv => ?_⟩
    rw [latestFor_writes]
    exact hlatest id doc hdoc f v hv
  · rintro ⟨hfound, hlatest⟩
    refine ⟨found_writes.mp hfound, fun id doc hdoc f v hv => ?_⟩
    rw [← latestFor_writes]
    exact forall_fieldsOf.mp hlatest id doc hdoc f v hv

theorem alreadyCached_iff :
    AlreadyCached cache documents ↔
      Covers (fieldsOf cache) (documents.map CachedDocument.write) := by
  constructor
  · rintro ⟨havailable, hagrees⟩
    refine ⟨found_writes.mpr havailable, forall_fieldsOf.mpr fun id doc hdoc f v v' hv hv' => ?_⟩
    rw [latestFor_writes] at hv'
    exact hagrees id doc hdoc f v v' hv hv'
  · rintro ⟨hfound, hagrees⟩
    refine ⟨found_writes.mp hfound, fun id doc hdoc f v v' hv hv' => ?_⟩
    rw [← latestFor_writes] at hv'
    exact forall_fieldsOf.mp hagrees id doc hdoc f v v' hv hv'

/-! ## Every session -/

variable {browser : Browser} {defaultTenantId : String} {ι : Type} [DecidableEq ι]
  {calls : ι → ClientCall} {now : ℤ} {as : List (Label ι ClientAnswer ClientEvent)}
  {l l' : ClientLoop ι} {a : Label ι ClientAnswer ClientEvent}

theorem documents_receive (m : Client) (documents : List CachedDocument) :
    (m.receive documents).documents = m.documents ++ documents := by
  simp [Client.documents, Client.receive, Function.comp_def]

theorem Changes.documents_eq {caching : DocumentCache → DocumentCache} {n k : ℕ} {m m' : Client}
    (h : Changes caching n k m m') : m'.documents = m.documents := by
  rw [Client.documents, h.received, Client.documents]

theorem DetailsAvailable.of_changes {n k : ℕ} {m m' : Client} (h : DetailsAvailable m)
    (hchanges : Changes id n k m m') : DetailsAvailable m' := by
  rw [detailsAvailable_iff] at h ⊢
  rwa [hchanges.documents_eq, hchanges.cache]

theorem detailsAvailable_step (h : ClientReach browser defaultTenantId calls now as l)
    (hl : DetailsAvailable l.memory)
    (hstep : (clientSystem browser defaultTenantId calls).Step l a l') :
    DetailsAvailable l'.memory ↔ NothingMissed l a := by
  cases client_step h hstep with
  | call hchanges => exact iff_of_true (hl.of_changes hchanges) trivial
  | event hchanges => exact iff_of_true (hl.of_changes hchanges) trivial
  | @answer i c op r _ _ hpending hreply hchanges =>
    have hcurrent := detailsAvailable_iff.mp hl
    have hmissed : NothingMissed l (.answer i c) ↔
        (op.caches = false → AlreadyCached l.memory.cache c.documents) := by
      refine ⟨fun h => h op hpending, fun h op' hop' => ?_⟩
      obtain rfl := Option.some.inj (hpending.symm.trans hop')
      exact h
    rw [hmissed, detailsAvailable_iff, hchanges.documents_eq, hchanges.cache, documents_receive,
      List.map_append, fieldsOf_caching hreply]
    cases op.caches with
    | true => exact iff_of_true (hcurrent.mergeAll _) fun h => (nomatch h)
    | false =>
      rw [alreadyCached_iff]
      exact hcurrent.append_iff.trans ⟨fun h _ => h, fun h => h rfl⟩

theorem detailsAvailable_opened (now : ℤ) (defaultTenantId : String) :
    DetailsAvailable (Client.opened now defaultTenantId) :=
  ⟨fun _ hdoc => (nomatch hdoc), fun _ _ hdoc => (nomatch hdoc)⟩

/-- The sessions in which every document is available and up to date throughout are those in
which nothing is missed. -/
theorem details_available_iff :
    Runs.Run.Every (clientSystem browser defaultTenantId calls).Step NothingMissed
        (Loop.init (Client.opened now defaultTenantId)) as l ↔
      Runs.Run.Every (clientSystem browser defaultTenantId calls).Step
        (fun l _ => DetailsAvailable l.memory)
        (Loop.init (Client.opened now defaultTenantId)) as l ∧ DetailsAvailable l.memory := by
  refine Runs.Run.every_iff (I := fun l => ∃ as, ClientReach browser defaultTenantId calls now as l)
    (P := fun l => DetailsAvailable l.memory) ⟨[], .nil⟩ (detailsAvailable_opened now _) ?_ ?_
  · rintro l a l' ⟨as, h⟩ hstep
    exact ⟨_, .snoc h hstep⟩
  · rintro l a l' ⟨as, h⟩ hl hstep
    exact detailsAvailable_step h hl hstep

/-- The documents page lists a document, and its detail page does not find it. -/
theorem listed_document_unavailable :
    ∃ l : ClientLoop Unit, ClientReach exampleBrowser "default" (fun _ => .list {}) 0
        [.call (), .answer () (.search (.ok exampleResults))] l ∧
      exampleHit.received ∈ l.memory.documents ∧
      getCachedDocument exampleHit.documentId l.memory.cache = none ∧
      ¬ DetailsAvailable l.memory := by
  have hrun : ∃ l : ClientLoop Unit, ClientReach exampleBrowser "default" (fun _ => .list {}) 0
      [.call (), .answer () (.search (.ok exampleResults))] l ∧
      l.memory.documents = [exampleHit.received] ∧
      getCachedDocument exampleHit.documentId l.memory.cache = none :=
    ⟨_, Runs.run_of_exec rfl, rfl, rfl⟩
  obtain ⟨l, hl, hdocuments, hnone⟩ := hrun
  have hmem : exampleHit.received ∈ l.memory.documents := by
    rw [hdocuments]
    exact List.mem_singleton_self _
  exact ⟨l, hl, hmem, hnone, fun h => h.available _ hmem hnone⟩

end GoAnalyze
