import GoAnalyze.Proofs.DetailPages

/-! The document cache across logins. Logging out clears the tokens and nothing else, so the
documents of one user are still there for the next one. -/

namespace GoAnalyze

open EventLoop Fragments

/-! ## Documents of a login -/

/-- The documents that came since the login that was completed last. -/
def Client.receivedSinceLogin (m : Client) : List CachedDocument :=
  (m.received.filter (·.logins = m.logins)).map Reception.document

/-- What the cache holds was received since the login that was completed last. -/
def OfThisLogin (m : Client) : Prop :=
  ∀ id doc, getCachedDocument id m.cache = some doc → ∀ f v, doc.field f = some v →
    ∃ received ∈ m.receivedSinceLogin, received.documentId = id ∧ received.field f = some v

/-- Once a user has logged out, what the cache holds is of the last login. -/
def EndsWithSession (m : Client) : Prop := 0 < m.logouts → OfThisLogin m

/-! ## The order of logins, responses and logouts -/

section Order

variable {ι : Type} (calls : ι → ClientCall)

/-- `useDocumentsList` and `useIngestDocument` keep nothing of what they receive. -/
def ClientCall.caches : ClientCall → Bool
  | .list _ | .ingest _ => false
  | _ => true

/-- The documents of a response that are cached. -/
def cachedBy : Label ι ClientAnswer ClientEvent → List CachedDocument
  | .answer i c => if (calls i).caches then c.documents else []
  | _ => []

/-- `completeLogin` is given tokens. -/
def completesLogin : Label ι ClientAnswer ClientEvent → Bool
  | .answer i (.auth (.body (some _))) =>
    match calls i with
    | .auth call => call.redeems.isSome
    | _ => false
  | _ => false

def logsOut : Label ι ClientAnswer ClientEvent → Bool
  | .call i => 0 < (calls i).logouts
  | _ => false

/-- The steps up to the login that was completed last. -/
def untilLogin (as : List (Label ι ClientAnswer ClientEvent)) :
    List (Label ι ClientAnswer ClientEvent) :=
  as.rdropWhile fun a => !completesLogin calls a

/-- When a user logs out, no document was cached before the login that was completed last;
and when a login is completed after a logout, none was cached at all. -/
structure NothingLeftBehind (as : List (Label ι ClientAnswer ClientEvent))
    (a : Label ι ClientAnswer ClientEvent) : Prop where
  logout : logsOut calls a → (untilLogin calls as).flatMap (cachedBy calls) = []
  login : completesLogin calls a → as.any (logsOut calls) → as.flatMap (cachedBy calls) = []

variable {calls} {as : List (Label ι ClientAnswer ClientEvent)}
  {a : Label ι ClientAnswer ClientEvent}

theorem untilLogin_concat (ha : completesLogin calls a = false) :
    untilLogin calls (as ++ [a]) = untilLogin calls as :=
  List.rdropWhile_concat_pos _ _ _ (by simp [ha])

theorem untilLogin_concat_login (ha : completesLogin calls a = true) :
    untilLogin calls (as ++ [a]) = as ++ [a] :=
  List.rdropWhile_concat_neg _ _ _ (by simp [ha])

theorem cachedBy_concat :
    (as ++ [a]).flatMap (cachedBy calls) = as.flatMap (cachedBy calls) ++ cachedBy calls a := by
  simp

end Order

/-! ## The cache as a store -/

variable {m m' : Client}

theorem ofThisLogin_iff : OfThisLogin m ↔
    Sourced (fieldsOf m.cache) (m.receivedSinceLogin.map CachedDocument.write) := by
  constructor
  · intro h
    refine forall_fieldsOf.mpr fun id doc hdoc f v hv => ?_
    obtain ⟨received, hmem, hid, hfield⟩ := h id doc hdoc f v hv
    exact ⟨received.write, List.mem_map_of_mem hmem, hid, hfield⟩
  · intro h id doc hdoc f v hv
    obtain ⟨w, hw, hid, hfield⟩ := forall_fieldsOf.mp h id doc hdoc f v hv
    obtain ⟨received, hmem, rfl⟩ := List.mem_map.mp hw
    exact ⟨received, hmem, hid, hfield⟩

theorem ofThisLogin_of_nil (h : m.receivedSinceLogin = []) :
    OfThisLogin m ↔ ∀ id, getCachedDocument id m.cache = none := by
  constructor
  · intro hlogin id
    refine Option.eq_none_iff_forall_ne_some.mpr fun doc hdoc => ?_
    obtain ⟨received, hmem, -⟩ := hlogin id doc hdoc .documentId doc.documentId rfl
    rw [h] at hmem
    cases hmem
  · intro hempty id doc hdoc
    rw [hempty id] at hdoc
    cases hdoc

theorem receivedSinceLogin_receive (m : Client) (documents : List CachedDocument) :
    (m.receive documents).receivedSinceLogin = m.receivedSinceLogin ++ documents := by
  have hlogins : (m.receive documents).logins = m.logins := rfl
  rw [Client.receivedSinceLogin, hlogins, Client.receive, List.filter_append, List.map_append,
    Client.receivedSinceLogin]
  congr 1
  rw [List.filter_eq_self.mpr (by simp)]
  simp [Function.comp_def]

theorem receivedSinceLogin_of_changes {caching : DocumentCache → DocumentCache} {k : ℕ}
    (hchanges : Changes caching 0 k m m') : m'.receivedSinceLogin = m.receivedSinceLogin := by
  rw [Client.receivedSinceLogin, hchanges.received, hchanges.logins, Nat.add_zero,
    Client.receivedSinceLogin]

theorem OfThisLogin.iff_of_changes {k : ℕ} (hchanges : Changes id 0 k m m') :
    OfThisLogin m' ↔ OfThisLogin m := by
  rw [ofThisLogin_iff, ofThisLogin_iff, receivedSinceLogin_of_changes hchanges, hchanges.cache, id]

/-! ## Every session -/

variable {browser : Browser} {defaultTenantId : String} {ι : Type} [DecidableEq ι]
  {calls : ι → ClientCall} {now : ℤ} {as : List (Label ι ClientAnswer ClientEvent)}
  {l l' : ClientLoop ι} {a : Label ι ClientAnswer ClientEvent}

theorem ofThisLogin_answer {op : ClientOp} {c : ClientAnswer} {r : ClientReply op}
    {s : Client} (hl : OfThisLogin m) (hreply : m.reply op c = some (r, s))
    (hchanges : Changes (op.caching r) 0 0 (m.receive c.documents) m') : OfThisLogin m' := by
  rw [ofThisLogin_iff] at hl ⊢
  rw [receivedSinceLogin_of_changes hchanges, receivedSinceLogin_receive, List.map_append,
    hchanges.cache, fieldsOf_caching hreply]
  refine (hl.mergeAll _).mono (List.append_subset.mpr ⟨List.subset_append_left _ _, ?_⟩)
  split_ifs
  · exact List.subset_append_right _ _
  · exact List.nil_subset _

/-! ## What the steps tell of the cache -/

omit [DecidableEq ι] in
theorem completesLogin_auth {i : ι} {call : AuthCall} (hcall : calls i = .auth call) {op : AuthOp}
    (hsends : ∀ grant, op.grant = some grant → call.Sends grant) (r : AuthReply op) :
    completesLogin calls (.answer i (.auth (.of op r))) = (ClientOp.auth op).completesLogin r := by
  cases op with
  | digest _ | fetch _ _ | microtask => rfl
  | json grant =>
    have hsent := hsends grant rfl
    cases r with
    | none => cases grant <;> rfl
    | some data =>
      have hlabel : completesLogin calls (.answer i (.auth (.of (.json grant) (some data)))) =
          call.redeems.isSome := by
        simp [completesLogin, AuthAnswer.of, hcall]
      rw [hlabel]
      cases grant with
      | authorizationCode clientId redirectUri code verifier => exact hsent
      | refreshToken clientId token current =>
        cases hredeems : call.redeems.isSome with
        | false => rfl
        | true =>
          rw [AuthCall.Sends, AuthCall.refreshes_eq_false hredeems] at hsent
          cases hsent

theorem caches_of_asks {call : ClientCall} {op : ClientOp} (h : call.Asks op) :
    call.caches = op.caches := by
  cases call <;> cases op <;> first | rfl | cases h

/-- The order of the steps tells which answers complete logins, and what they add to the
cache. -/
theorem label_answer (h : ClientReach browser defaultTenantId calls now as l) {i : ι}
    {op : ClientOp} {c : ClientAnswer} {r : ClientReply op} {m : Client}
    (hpending : l.pending i = some op) (hreply : l.memory.reply op c = some (r, m)) :
    completesLogin calls (.answer i c) = op.completesLogin r ∧
      cachedBy calls (.answer i c) = if op.caches then c.documents else [] := by
  have hasks := asks_of_run h hpending
  refine ⟨?_, by simp only [cachedBy, caches_of_asks hasks]⟩
  cases op with
  | search _ | list _ | ingest _ | upload _ =>
    cases c with
    | auth c => cases hreply
    | search _ | ingest _ | upload _ => rfl
  | auth op =>
    cases c with
    | search _ | ingest _ | upload _ => cases hreply
    | auth c =>
      obtain ⟨p, hp, heq⟩ := Option.map_eq_some_iff.mp hreply
      cases heq
      obtain ⟨rfl, -⟩ := answer_cases hp
      cases hcall : calls i with
      | auth call =>
        rw [hcall] at hasks
        exact completesLogin_auth hcall hasks p.1
      | search _ | list _ | ingest _ | upload =>
        rw [hcall] at hasks
        cases hasks

/-- What the cache holds was cached before the last login or received since, and all of it
was cached. -/
structure CacheHistory (calls : ι → ClientCall) (as : List (Label ι ClientAnswer ClientEvent))
    (m : Client) : Prop where
  cached : Sourced (fieldsOf m.cache) ((as.flatMap (cachedBy calls)).map CachedDocument.write)
  since : Sourced (fieldsOf m.cache)
    (((untilLogin calls as).flatMap (cachedBy calls) ++ m.receivedSinceLogin).map
      CachedDocument.write)
  logouts : 0 < m.logouts → as.any (logsOut calls)

omit [DecidableEq ι] in
theorem CacheHistory.of_changes {k : ℕ} (h : CacheHistory calls as m) (hchanges : Changes id 0 k m m')
    (hcached : cachedBy calls a = []) (ha : completesLogin calls a = false)
    (hk : 0 < k → logsOut calls a) : CacheHistory calls (as ++ [a]) m' := by
  refine ⟨?_, ?_, fun hlogouts => ?_⟩
  · rw [hchanges.cache, id, cachedBy_concat, hcached, List.append_nil]
    exact h.cached
  · rw [hchanges.cache, id, untilLogin_concat ha, receivedSinceLogin_of_changes hchanges]
    exact h.since
  · rw [List.any_append, Bool.or_eq_true]
    rw [hchanges.logouts] at hlogouts
    by_cases hbefore : 0 < m.logouts
    · exact Or.inl (h.logouts hbefore)
    · exact Or.inr (by simpa using hk (by omega))

theorem cacheHistory_of_run (h : ClientReach browser defaultTenantId calls now as l) :
    CacheHistory calls as l.memory := by
  induction h with
  | nil =>
    have hempty : ∀ history, Sourced (fieldsOf (Client.opened now defaultTenantId).cache) history :=
      fun history id d hd => (nomatch hd)
    exact ⟨hempty _, hempty _, fun hlogouts => (nomatch hlogouts)⟩
  | @snoc as l l' a hrun hstep ih =>
    cases client_step hrun hstep with
    | event hchanges => exact ih.of_changes hchanges rfl rfl fun h => (nomatch h)
    | call hchanges => exact ih.of_changes hchanges rfl rfl fun h => decide_eq_true h
    | @answer i c op r _ s hpending hreply hchanges =>
      obtain ⟨hcompletes, hcached⟩ := label_answer hrun hpending hreply
      have hmerged : fieldsOf l'.memory.cache = (fieldsOf l.memory.cache).mergeAll
          ((cachedBy calls (.answer i c)).map CachedDocument.write) := by
        rw [hchanges.cache, hcached]
        exact fieldsOf_caching hreply _
      have hsource : Sourced (fieldsOf l'.memory.cache)
          (((as ++ [Label.answer i c]).flatMap (cachedBy calls)).map CachedDocument.write) := by
        rw [hmerged, cachedBy_concat, List.map_append]
        exact ih.cached.mergeAll _
      refine ⟨hsource, ?_, fun hlogouts => ?_⟩
      · cases hlogin : completesLogin calls (.answer i c) with
        | true =>
          -- everything that is cached was cached before this login
          rw [untilLogin_concat_login hlogin, List.map_append]
          exact hsource.mono (List.subset_append_left _ _)
        | false =>
          rw [← hcompletes, hlogin] at hchanges
          rw [untilLogin_concat hlogin, receivedSinceLogin_of_changes hchanges,
            receivedSinceLogin_receive, hmerged, ← List.append_assoc, List.map_append]
          refine (ih.since.mergeAll _).mono (List.append_subset.mpr
            ⟨List.subset_append_left _ _, ?_⟩)
          rw [hcached]
          split_ifs
          · exact List.subset_append_right _ _
          · exact List.nil_subset _
      · rw [hchanges.logouts] at hlogouts
        rw [List.any_append, ih.logouts hlogouts, Bool.true_or]

theorem endsWithSession_step (h : ClientReach browser defaultTenantId calls now as l)
    (hl : EndsWithSession l.memory) (hbehind : NothingLeftBehind calls as a)
    (hstep : (clientSystem browser defaultTenantId calls).Step l a l') :
    EndsWithSession l'.memory := by
  have hhistory := cacheHistory_of_run h
  intro hlogouts
  cases client_step h hstep with
  | event hchanges =>
    rw [hchanges.logouts] at hlogouts
    exact (OfThisLogin.iff_of_changes hchanges).mpr (hl hlogouts)
  | @call i _ hchanges =>
    rw [OfThisLogin.iff_of_changes hchanges]
    by_cases hlogout : 0 < (calls i).logouts
    · have hsince := hhistory.since
      rw [hbehind.logout (decide_eq_true hlogout), List.nil_append] at hsince
      exact ofThisLogin_iff.mpr hsince
    · rw [hchanges.logouts] at hlogouts
      exact hl (by omega)
  | @answer i c op r _ s hpending hreply hchanges =>
    obtain ⟨hcompletes, -⟩ := label_answer h hpending hreply
    have hlogouts' : 0 < l.memory.logouts := by rwa [hchanges.logouts] at hlogouts
    cases hlogin : op.completesLogin r with
    | false =>
      rw [hlogin] at hchanges
      exact ofThisLogin_answer (hl hlogouts') hreply hchanges
    | true =>
      -- nothing was cached, and a login caches nothing
      have hcached := hhistory.cached
      rw [hbehind.login (hcompletes.trans hlogin) (hhistory.logouts hlogouts')] at hcached
      rw [ofThisLogin_iff, hchanges.cache, caching_of_completesLogin hlogin, id]
      exact hcached.mono (List.nil_subset _)

/-- In the sessions in which nothing is left behind no document outlives its login. -/
theorem documents_end_with_session
    (h : Runs.Run.Throughout (clientSystem browser defaultTenantId calls).Step
      (fun as _ => NothingLeftBehind calls as) (Loop.init (Client.opened now defaultTenantId)) as l) :
    Runs.Run.Every (clientSystem browser defaultTenantId calls).Step
        (fun l _ => EndsWithSession l.memory)
        (Loop.init (Client.opened now defaultTenantId)) as l ∧ EndsWithSession l.memory :=
  h.always (P := fun l : ClientLoop ι => EndsWithSession l.memory)
    (fun hlogouts => (nomatch hlogouts))
    fun _ _ _ _ hrun hl hbehind hstep => endsWithSession_step hrun hl hbehind hstep

/-! ## Two users -/

/-- The states that `exampleBrowser` draws for the two logins. -/
def drawnStates : Bool → String
  | false => "AQEBAQEBAQEBAQEBAQEBAQEB"
  | true => "AwMDAwMDAwMDAwMDAwMDAwMD"

/-- A user signs in, searches and logs out, and another one signs in. -/
def sharedTab : ℕ → ClientCall
  | 0 => .auth (.login "/dashboard")
  | 1 => .auth (.completeLogin "code-1" (drawnStates false))
  | 2 => .search {}
  | 3 => .auth .logout
  | 4 => .auth (.login "/dashboard")
  | 5 => .auth (.completeLogin "code-2" (drawnStates true))
  | _ => .auth .logout

def signIn (i j : ℕ) : List (Label ℕ ClientAnswer ClientEvent) :=
  [.call i, .answer i (.auth (.digest (some []))), .call j,
    .answer j (.auth (.response (.response 200))),
    .answer j (.auth (.body (some ⟨some "access", some "refresh", none, none, some 300⟩)))]

/-- The second user signs in before anything is cached. -/
def emptyHandOver : List (Label ℕ ClientAnswer ClientEvent) :=
  signIn 0 1 ++ [.call 3] ++ signIn 4 5 ++
    [.call 2, .answer 2 (.search (.ok exampleResults)), .call 6]

theorem documents_end_with_session_example :
    ∃ l : ClientLoop ℕ, EndsWithSession l.memory ∧ l.memory.logouts = 2 ∧
      getCachedDocument exampleHit.documentId l.memory.cache = some exampleHit.received := by
  have hrun : ∃ l : ClientLoop ℕ,
      Runs.Run.Throughout (clientSystem exampleBrowser "default" sharedTab).Step
        (fun as _ => NothingLeftBehind sharedTab as) (Loop.init (Client.opened 0 "default"))
        emptyHandOver l ∧ l.memory.logouts = 2 ∧
      getCachedDocument exampleHit.documentId l.memory.cache = some exampleHit.received := by
    refine ⟨_, Runs.throughout_of_exec rfl ?_, rfl, rfl⟩
    -- nothing is cached before the second login
    refine ⟨?_, ?_, ?_, ?_, ?_, ?_, ?_, ?_, ?_, ?_, ?_, ?_, ?_, ⟨fun _ => rfl, fun h => (nomatch h)⟩,
      trivial⟩ <;> exact ⟨fun _ => rfl, fun _ _ => rfl⟩
  obtain ⟨l, hl, hlogouts, hdoc⟩ := hrun
  exact ⟨l, (documents_end_with_session hl).2, hlogouts, hdoc⟩

def handOver : List (Label ℕ ClientAnswer ClientEvent) :=
  signIn 0 1 ++ [.call 2, .answer 2 (.search (.ok exampleResults)), .call 3] ++ signIn 4 5

/-- The second user finds the document of the first one. -/
theorem documents_outlive_session :
    ∃ l : ClientLoop ℕ, ClientReach exampleBrowser "default" sharedTab 0 handOver l ∧
      l.memory.logouts = 1 ∧ l.memory.logins = 2 ∧ l.memory.receivedSinceLogin = [] ∧
      getCachedDocument exampleHit.documentId l.memory.cache = some exampleHit.received ∧
      ¬ EndsWithSession l.memory := by
  have hrun : ∃ l : ClientLoop ℕ, ClientReach exampleBrowser "default" sharedTab 0 handOver l ∧
      l.memory.logouts = 1 ∧ l.memory.logins = 2 ∧ l.memory.receivedSinceLogin = [] ∧
      getCachedDocument exampleHit.documentId l.memory.cache = some exampleHit.received :=
    ⟨_, Runs.run_of_exec rfl, rfl, rfl, rfl, rfl⟩
  obtain ⟨l, hl, hlogouts, hlogins, hreceived, hdoc⟩ := hrun
  refine ⟨l, hl, hlogouts, hlogins, hreceived, hdoc, fun h => ?_⟩
  have hempty := (ofThisLogin_of_nil hreceived).mp (h (by omega)) exampleHit.documentId
  rw [hdoc] at hempty
  cases hempty

end GoAnalyze
