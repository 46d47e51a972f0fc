import GoAnalyze.Lib.Fragments
import GoAnalyze.Proofs.BrowserSession
import GoAnalyze.Proofs.UploadProgress
import GoAnalyze.Spec.ClientSession

/-! What one step of a client session does to the document cache, to the logins and to the
history of what was received. -/

namespace GoAnalyze

open EventLoop Fragments

/-! ## The cache as a store of fields -/

def fieldsOf (cache : DocumentCache) : Store UUID CachedField.Value :=
  fun id => (getCachedDocument id cache).map CachedDocument.field

def CachedDocument.write (doc : CachedDocument) : Write UUID CachedField.Value :=
  (doc.documentId, doc.field)

theorem fieldsOf_cacheSearchHit (cache : DocumentCache) (hit : SearchHit) :
    fieldsOf (cacheSearchHit cache hit) = (fieldsOf cache).merge hit.received.write := by
  funext id
  by_cases hid : id = hit.documentId
  · subst hid
    have hheld : fieldsOf cache hit.documentId = (cache hit.documentId).map CachedDocument.field :=
      rfl
    simp only [fieldsOf, getCachedDocument, cacheSearchHit, Store.merge, CachedDocument.write,
      SearchHit.received, Function.update_self, Option.map_some, Option.some.injEq]
    funext f
    cases cache hit.documentId <;> cases f <;> rfl
  · have hkey : id ≠ hit.received.write.1 := hid
    rw [merge_of_ne hkey, fieldsOf, getCachedDocument, cacheSearchHit, Function.update_of_ne hid]
    rfl

theorem fieldsOf_cacheSearchHits (hits : List SearchHit) (cache : DocumentCache) :
    fieldsOf (cacheSearchHits hits cache) =
      (fieldsOf cache).mergeAll ((hits.map SearchHit.received).map CachedDocument.write) := by
  induction hits generalizing cache with
  | nil => rfl
  | cons hit hits ih =>
    rw [List.map_cons, List.map_cons, mergeAll_cons, ← fieldsOf_cacheSearchHit]
    exact ih (cacheSearchHit cache hit)

theorem fieldsOf_cacheDocumentRecord (record : DocumentRecord) (cache : DocumentCache) :
    fieldsOf (cacheDocumentRecord record cache) =
      (fieldsOf cache).mergeAll ([record.received].map CachedDocument.write) := by
  funext id
  by_cases hid : id = record.id
  · subst hid
    simp only [fieldsOf, getCachedDocument, cacheDocumentRecord, Store.mergeAll, List.map_cons,
      List.map_nil, List.foldl_cons, List.foldl_nil, Store.merge, CachedDocument.write,
      DocumentRecord.received, Function.update_self, Option.map_some, Option.some.injEq]
    funext f
    cases cache record.id <;> cases f <;> rfl
  · have hkey : id ≠ record.received.write.1 := hid
    rw [List.map_singleton, mergeAll_cons, Store.mergeAll, List.foldl_nil, merge_of_ne hkey, fieldsOf,
      getCachedDocument, cacheDocumentRecord, Function.update_of_ne hid]
    rfl

/-! ## The functions -/

/-- What a function makes of the cache when it is answered. -/
def ClientOp.caching : (op : ClientOp) → ClientReply op → DocumentCache → DocumentCache
  | .search _, .ok response => cacheSearchHits response.results
  | .upload (.ingest _ _), .ok record => cacheDocumentRecord record
  | _, _ => id

def ClientOp.completesLogin : (op : ClientOp) → ClientReply op → Bool
  | .auth (.json (.authorizationCode _ _ _ _)), some _ => true
  | _, _ => false

theorem caching_of_completesLogin {op : ClientOp} {r : ClientReply op}
    (h : op.completesLogin r = true) : op.caching r = id := by
  cases op with
  | auth op => rfl
  | search params | list params | ingest payload | upload op => cases h

/-- The part of a step that matters to the cache: nothing else writes it. -/
structure Changes (caching : DocumentCache → DocumentCache) (logins logouts : ℕ)
    (m m' : Client) : Prop where
  cache : m'.cache = caching m.cache
  logins : m'.logins = m.logins + logins
  logouts : m'.logouts = m.logouts + logouts
  received : m'.received = m.received

theorem redemptions_begun {browser : Browser} {call : AuthCall} {s s' : Tab}
    (h : Begun browser call s s') : s'.redemptions = s.redemptions := by
  have hexchange : ∀ code state, (s.exchange browser code state).redemptions = s.redemptions := by
    intro code state
    unfold Tab.exchange
    split <;> rfl
  have hrefresh : (s' = s ∨ ∃ current token, s.storage.tokens = some current ∧
      s' = { s with
        sent := s.sent ++ [.refreshToken browser.keycloakClientId token current] }) →
      s'.redemptions = s.redemptions := by
    rintro (rfl | ⟨current, token, -, rfl⟩) <;> rfl
  cases call with
  | login redirectAfter => obtain rfl := h; rfl
  | completeLogin code state => obtain rfl := h; exact hexchange code state
  | callbackInner search =>
    simp only [Begun] at h
    split at h
    · rw [h]
    · rw [h]; exact hexchange _ _
  | refreshTokens | getValidAccessToken | useAuthRefresh => exact hrefresh h
  | logout => obtain ⟨location, rfl⟩ := h; rfl

theorem redemptions_answered {op : AuthOp} {r : AuthReply op} {s s' : Tab}
    (h : Answered op r s s') : s'.redemptions.length =
      s.redemptions.length + ((ClientOp.auth op).completesLogin r).toNat := by
  cases op with
  | digest verifier =>
    cases r with
    | none => obtain rfl := h; rfl
    | some bytes => obtain ⟨state, redirectAfter, location, rfl⟩ := h; rfl
  | fetch url grant =>
    cases grant with
    | authorizationCode clientId redirectUri code verifier => obtain rfl := h; rfl
    | refreshToken clientId token current =>
      cases r with
      | networkError => obtain rfl := h; rfl
      | response status =>
        obtain rfl := h
        split_ifs <;> rfl
  | json grant =>
    cases grant with
    | authorizationCode clientId redirectUri code verifier =>
      cases r with
      | none => obtain rfl := h; rfl
      | some data => obtain ⟨state, rfl⟩ := h; exact List.length_append
    | refreshToken clientId token current =>
      cases r with
      | none => obtain rfl := h; rfl
      | some data => obtain rfl := h; rfl
  | microtask => obtain ⟨redirect, rfl⟩ := h; rfl

def kept {α : Type} (keep : α → DocumentCache → DocumentCache) :
    Except RequestError α → DocumentCache → DocumentCache
  | .ok result => keep result
  | .error _ => id

theorem flows_runRequest {Request α : Type} (request : Request)
    (keep : α → DocumentCache → DocumentCache) (m : HookMemory α) :
    (runRequest request keep).Flows
      (fun _ r m next m' => m'.cache = kept keep r m.cache ∧ next = none)
      (fun next m' => m'.cache = m.cache ∧ next = some request) m := by
  refine ⟨⟨rfl, rfl⟩, fun r m' => ?_⟩
  cases r <;> exact ⟨rfl, rfl⟩

theorem flows_useIngestDocument (payload : DocumentIngestRequest) (m : HookMemory DocumentRecord) :
    (useIngestDocument payload).Flows (fun _ _ m next m' => m'.cache = m.cache ∧ next = none)
      (fun next m' => m'.cache = m.cache ∧ next = some payload) m :=
  ⟨⟨rfl, rfl⟩, fun _ _ => ⟨rfl, rfl⟩⟩

theorem cache_of_upload {op : UploadOp} {r : UploadReply op} {s s' : UploadState}
    (h : op.Effect r s s') : s'.cache = (ClientOp.upload op).caching r s.cache := by
  cases op with
  | digest file => cases r <;> (obtain rfl := h; rfl)
  | ingest payload file => cases r <;> (obtain rfl := h; rfl)
  | uploadContent documentId file =>
    cases r with
    | error err => obtain rfl := h; rfl
    | ok reply => rcases h with rfl | rfl <;> rfl
  | process documentId => cases r <;> (obtain rfl := h; rfl)

theorem cache_clicked (s : UploadState) : s.clicked.cache = s.cache := by
  unfold UploadState.clicked
  split_ifs <;> rfl

def ClientCall.logouts : ClientCall → ℕ
  | .auth call => call.logouts
  | _ => 0

/-- What a call waits for is of its own function. -/
def ClientCall.Asks : ClientCall → ClientOp → Prop
  | .auth call, .auth op => ∀ grant, op.grant = some grant → call.Sends grant
  | .search _, .search _ | .list _, .list _ | .ingest _, .ingest _ | .upload, .upload _ => True
  | _, _ => False

/-- What a call makes of the session up to its first stop. -/
def ClientCall.Start (call : ClientCall) (m : Client) (next : Option ClientOp) (m' : Client) :
    Prop :=
  Changes id 0 call.logouts m m' ∧ ∀ op, next = some op → call.Asks op

/-- What an answer makes of the session, up to the next stop of the call. -/
def ClientOp.Effect (op : ClientOp) (r : ClientReply op) (m : Client) (next : Option ClientOp)
    (m' : Client) : Prop :=
  Changes (op.caching r) (op.completesLogin r).toNat 0 m m' ∧
    ∀ call : ClientCall, call.Asks op → ∀ op', next = some op' → call.Asks op'

theorem asks_auth {call : AuthCall} {next : Option AuthOp}
    (h : ∀ grant, next.bind AuthOp.grant = some grant → call.Sends grant) :
    ∀ op, next.map ClientOp.auth = some op → (ClientCall.auth call).Asks op := by
  intro op hop
  obtain ⟨op, rfl, rfl⟩ := Option.map_eq_some_iff.mp hop
  exact h

theorem flows_clientCall (browser : Browser) (defaultTenantId : String) (call : ClientCall)
    (m : Client) : (call.run browser defaultTenantId).Flows ClientOp.Effect (call.Start m) m := by
  cases call with
  | auth call =>
    have hzoom : ((call.run browser).run.zoom Client.tabPart ClientOp.auth fun _ r => r).Flows
        ClientOp.Effect ((ClientCall.auth call).Start m)
        { m with logouts := m.logouts + call.logouts } := by
      refine Async.Flows.zoom ?_ ?_ (flows_run browser call m.tab)
      · refine fun op r t next s hs => ⟨⟨rfl, redemptions_answered hs.1, rfl, rfl⟩, ?_⟩
        intro call' hasks
        cases call' with
        | auth call' =>
          exact asks_auth fun grant hgrant => hasks grant (grantOf_accepted (hs.2.symm.trans hgrant))
        | search _ | list _ | ingest _ | upload => cases hasks
      · refine fun next s hs => ⟨⟨rfl, congrArg List.length (redemptions_begun hs.1), rfl, rfl⟩, ?_⟩
        exact asks_auth fun grant hgrant => FirstGrant.sends (hgrant ▸ hs.2)
    exact hzoom
  | search params | list params =>
    refine Async.Flows.zoom ?_ ?_ (flows_runRequest _ _ _)
    · rintro op r t _ s ⟨hs, rfl⟩
      refine ⟨⟨?_, rfl, rfl, rfl⟩, fun _ _ _ hnone => (nomatch hnone)⟩
      cases r <;> exact hs
    · rintro _ s ⟨hs, rfl⟩
      refine ⟨⟨hs, rfl, rfl, rfl⟩, ?_⟩
      rintro _ ⟨⟩
      trivial
  | ingest payload =>
    refine Async.Flows.zoom ?_ ?_ (flows_useIngestDocument payload _)
    · rintro op r t _ s ⟨hs, rfl⟩
      exact ⟨⟨hs, rfl, rfl, rfl⟩, fun _ _ _ hnone => (nomatch hnone)⟩
    · rintro _ s ⟨hs, rfl⟩
      refine ⟨⟨hs, rfl, rfl, rfl⟩, ?_⟩
      rintro _ ⟨⟩
      trivial
  | upload =>
    refine Async.Flows.zoom ?_ ?_ (stops_clickUpload defaultTenantId m.form)
    · refine fun op r t next s hs => ⟨⟨cache_of_upload hs, rfl, rfl, rfl⟩, ?_⟩
      intro call' hasks op' hop'
      obtain ⟨op', -, rfl⟩ := Option.map_eq_some_iff.mp hop'
      cases call' with
      | upload => trivial
      | auth _ | search _ | list _ | ingest _ => cases hasks
    · rintro next s rfl
      refine ⟨⟨cache_clicked m.form, rfl, rfl, rfl⟩, fun op hop => ?_⟩
      obtain ⟨op, -, rfl⟩ := Option.map_eq_some_iff.mp hop
      trivial

/-! ## Every step -/

/-- `useDocumentsList` and `useIngestDocument` keep nothing of what they receive. -/
def ClientOp.caches : ClientOp → Bool
  | .list _ | .ingest _ => false
  | _ => true

theorem fieldsOf_caching {m m' : Client} {op : ClientOp} {c : ClientAnswer} {r : ClientReply op}
    (h : m.reply op c = some (r, m')) (cache : DocumentCache) :
    fieldsOf (op.caching r cache) = (fieldsOf cache).mergeAll
      ((if op.caches then c.documents else []).map CachedDocument.write) := by
  unfold Client.reply at h
  split at h
  · rfl
  · next response =>
    cases h
    cases response with
    | ok response => exact fieldsOf_cacheSearchHits response.results cache
    | error err => rfl
  · rfl
  · rfl
  · next op c =>
    obtain ⟨r, hr, heq⟩ := Option.map_eq_some_iff.mp h
    cases heq
    cases op with
    | ingest payload file =>
      cases c with
      | ingest reply =>
        cases hr
        cases r with
        | ok record => exact fieldsOf_cacheDocumentRecord record cache
        | error err => rfl
      | digest _ | uploadContent _ | process _ => cases hr
    | digest _ | uploadContent _ _ | process _ =>
      cases c with
      | ingest reply => cases hr
      | digest _ | uploadContent _ | process _ => rfl
  · cases h

theorem Changes.trans {f g : DocumentCache → DocumentCache} {n n' k k' : ℕ} {m m' m'' : Client}
    (h : Changes f n k m m') (h' : Changes g n' k' m' m'') :
    Changes (g ∘ f) (n + n') (k + k') m m'' where
  cache := by rw [h'.cache, h.cache, Function.comp]
  logins := by rw [h'.logins, h.logins, Nat.add_assoc]
  logouts := by rw [h'.logouts, h.logouts, Nat.add_assoc]
  received := h'.received.trans h.received

theorem changes_reply {m m' : Client} {op : ClientOp} {c : ClientAnswer} {r : ClientReply op}
    (h : m.reply op c = some (r, m')) (documents : List CachedDocument) :
    Changes id 0 0 (m.receive documents) (m'.receive documents) := by
  unfold Client.reply at h
  split at h
  · obtain ⟨⟨r, s⟩, hs, heq⟩ := Option.map_eq_some_iff.mp h
    cases heq
    obtain ⟨-, accepted, rfl⟩ := answer_cases hs
    exact ⟨rfl, rfl, rfl, rfl⟩
  · cases h; exact ⟨rfl, rfl, rfl, rfl⟩
  · cases h; exact ⟨rfl, rfl, rfl, rfl⟩
  · cases h; exact ⟨rfl, rfl, rfl, rfl⟩
  · obtain ⟨r, -, heq⟩ := Option.map_eq_some_iff.mp h
    cases heq
    exact ⟨rfl, rfl, rfl, rfl⟩
  · cases h

theorem changes_event {m m' : Client} {defaultTenantId : String} {e : ClientEvent}
    (h : m.event defaultTenantId e = some m') : Changes id 0 0 m m' := by
  cases e with
  | tick now => cases h; exact ⟨rfl, rfl, rfl, rfl⟩
  | mount => cases h; exact ⟨rfl, rfl, rfl, rfl⟩
  | form e =>
    obtain ⟨form, hform, rfl⟩ := Option.map_eq_some_iff.mp h
    refine ⟨?_, rfl, rfl, rfl⟩
    cases e with
    | pick file => cases file <;> (cases hform; rfl)
    | remove =>
      simp only [UploadState.event] at hform
      split_ifs at hform
      cases hform
      rfl
    | setTenantId _ | setCaseId _ | setClassification _ | setDescription _ | setAutoProcess _ =>
      cases hform
      rfl

variable {browser : Browser} {defaultTenantId : String} {ι : Type} [DecidableEq ι]
  {calls : ι → ClientCall} {now : ℤ} {as : List (Label ι ClientAnswer ClientEvent)}
  {l l' : ClientLoop ι} {a : Label ι ClientAnswer ClientEvent}

variable (browser defaultTenantId) in
/-- The states that some order of the calls, their answers and the events reaches in a new
session. -/
def ClientReach (calls : ι → ClientCall) (now : ℤ) (as : List (Label ι ClientAnswer ClientEvent))
    (l : ClientLoop ι) : Prop :=
  Runs.Run (clientSystem browser defaultTenantId calls).Step
    (Loop.init (Client.opened now defaultTenantId)) as l

inductive ClientStep (calls : ι → ClientCall) (l : ClientLoop ι) :
    Label ι ClientAnswer ClientEvent → Client → Prop where
  | call {i : ι} {m : Client} : Changes id 0 (calls i).logouts l.memory m →
      ClientStep calls l (.call i) m
  | answer {i : ι} {c : ClientAnswer} {op : ClientOp} {r : ClientReply op} {m m' : Client} :
      l.pending i = some op → l.memory.reply op c = some (r, m') →
      Changes (op.caching r) (op.completesLogin r).toNat 0 (l.memory.receive c.documents) m →
      ClientStep calls l (.answer i c) m
  | event {e : ClientEvent} {m : Client} : Changes id 0 0 l.memory m →
      ClientStep calls l (.event e) m

theorem client_step (h : ClientReach browser defaultTenantId calls now as l)
    (hstep : (clientSystem browser defaultTenantId calls).Step l a l') :
    ClientStep calls l a l'.memory := by
  cases effect_of_step (fun i m => flows_clientCall browser defaultTenantId (calls i) m) h hstep with
  | call _ hstart _ => exact .call hstart.1
  | event hevent => exact .event (changes_event hevent)
  | answer hpending hanswer heffect _ =>
    obtain ⟨⟨r, m'⟩, hreply, heq⟩ := Option.map_eq_some_iff.mp hanswer
    cases heq
    refine .answer hpending hreply ?_
    have hchanges := (changes_reply hreply _).trans heffect.1
    rwa [Function.comp_id, Nat.zero_add] at hchanges

theorem asks_of_run (h : ClientReach browser defaultTenantId calls now as l) {i : ι}
    {op : ClientOp} (hpending : l.pending i = some op) : (calls i).Asks op := by
  induction h generalizing i op with
  | nil => cases hpending
  | snoc hrun hstep ih =>
    cases effect_of_step (fun i m => flows_clientCall browser defaultTenantId (calls i) m) hrun
      hstep with
    | event _ => exact ih hpending
    | @call j _ _ hstart hothers =>
      by_cases hij : i = j
      · subst hij
        exact hstart.2 op hpending
      · exact ih ((hothers i hij).symm.trans hpending)
    | @answer j c op' r m _ hpending' _ heffect hothers =>
      by_cases hij : i = j
      · subst hij
        exact heffect.2 _ (ih hpending') op hpending
      · exact ih ((hothers i hij).symm.trans hpending)

/-! ## A search result -/

def exampleHit : SearchHit where
  documentId := 7
  filename := "permit.pdf"
  contentType := "application/pdf"
  classification := .internal
  score := 1
  highlight := none
  createdAt := exampleTime

def exampleResults : SearchResponse := ⟨"", 1, 1, 20, "opensearch", [exampleHit]⟩

end GoAnalyze
