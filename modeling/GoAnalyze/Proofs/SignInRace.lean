import GoAnalyze.Spec.SignIn

/-! Concurrent sign-ins. A request is served where it finds its row, or no other request
inserts it in between; and the row is the last upsert's where no column that an upsert
leaves as loaded is changed by another before its commit. -/

namespace GoAnalyze

open EventLoop ReadCommitted Sql

variable {ι : Type}

/-! ## One request -/

def contextOf (claims : TokenClaims) : TenantContext :=
  ⟨claims.tenantId, claims.ministry, claims.roles, some claims.subject⟩

/-- The request from its COMMIT on. -/
def committing (claims : TokenClaims) (loaded : Option UserORM) : UserSession ι TenantContext := do
  UserSession.commit claims.subject loaded claims.row
  return contextOf claims

/-- The request from the flush of its upsert on. -/
def flushing (claims : TokenClaims) (loaded : Option UserORM) : UserSession ι TenantContext :=
  match loaded with
  | none => do
    UserSession.insert claims.subject claims.row
    committing claims none
  | some old =>
    if claims.row ≠ old then do
      UserSession.update claims.subject old claims.row
      committing claims (some old)
    else committing claims (some old)

theorem getCurrentContext_eq (claims : TokenClaims) :
    (getCurrentContext claims : UserSession ι TenantContext).run =
      (do let loaded ← UserSession.select claims.subject
          flushing claims loaded : UserSession ι TenantContext).run := by
  unfold getCurrentContext contextAfterUpsert UserRepository.upsertFromToken
  rw [bind_assoc]
  congr 2
  funext loaded
  unfold flushing committing
  cases loaded with
  | none => exact bind_assoc _ _ _
  | some old =>
    by_cases hrow : claims.row ≠ old
    · simp only [if_pos hrow]
      exact bind_assoc _ _ _
    · simp only [if_neg hrow]
      rfl

variable [DecidableEq ι] {claims : TokenClaims} {s s' : UserTables ι} {i j : ι}

/-! ## Where a request stands -/

/-- The upsert is flushed: the request sees its row, or its changes to the committed row
if that is how it was loaded. -/
structure Flushed (claims : TokenClaims) (db : Db ι String UserORM Empty) (i : ι)
    (loaded : Option UserORM) : Prop where
  locks : ∀ k, db.lock k = some i → k = claims.subject
  written : loaded = none → db.lock claims.subject = some i ∧
    db.visible i claims.subject = some claims.row
  changed : ∀ old, loaded = some old → (claims.row ≠ old → db.lock claims.subject = some i) ∧
    ∃ current, db.rows claims.subject = some current ∧
      db.visible i claims.subject = some (UserORM.update old claims.row current)

/-- How far request `i` has come, and what it has locked and written by then. -/
inductive SignInAt (claims : TokenClaims) (db : Db ι String UserORM Empty) (i : ι) :
    Option (UserTask ι (Except Raised TenantContext)) → Prop where
  | idle : (∀ k, db.lock k ≠ some i) → SignInAt claims db i none
  | selecting : (∀ k, db.lock k ≠ some i) →
      SignInAt claims db i (some (getCurrentContext claims).run)
  | flushing {loaded : Option UserORM} : (∀ k, db.lock k ≠ some i) →
      (∀ old, loaded = some old → claims.row ≠ old ∧ db.rows claims.subject ≠ none) →
      SignInAt claims db i (some (flushing claims loaded).run)
  | committing {loaded : Option UserORM} : Flushed claims db i loaded →
      SignInAt claims db i (some (committing claims loaded).run)
  | ended (result : Except Raised TenantContext) : (∀ k, db.lock k ≠ some i) →
      (∀ context, result = .ok context → db.rows claims.subject ≠ none) →
      SignInAt claims db i (some (.done result))

theorem update_self (row current : UserORM) : UserORM.update row row current = current := by
  simp [UserORM.update]

theorem Flushed.of_frame {db db' : Db ι String UserORM Empty} {loaded : Option UserORM}
    (h : Flushed claims db i loaded) (hf : Frame i db db')
    (hrows : ∀ k, db.rows k ≠ none → db'.rows k ≠ none) : Flushed claims db' i loaded := by
  refine ⟨fun k hk => h.locks k ((hf.lock k).mp hk), fun hnone => ?_, fun old hold => ?_⟩
  · obtain ⟨hlock, hvisible⟩ := h.written hnone
    exact ⟨(hf.lock _).mpr hlock, (hf.visible hlock).trans hvisible⟩
  · obtain ⟨hlock, current, hcurrent, hvisible⟩ := h.changed old hold
    refine ⟨fun hne => (hf.lock _).mpr (hlock hne), ?_⟩
    by_cases hl : db.lock claims.subject = some i
    · exact ⟨current, (hf.rows _ hl).trans hcurrent, (hf.visible hl).trans hvisible⟩
    · -- nothing was sent, so whatever the others commit is what is seen
      have hrow : claims.row = old := by
        by_contra hne
        exact hl (hlock hne)
      obtain ⟨current', hcurrent'⟩ :=
        Option.ne_none_iff_exists'.mp (hrows claims.subject (by simp [hcurrent]))
      refine ⟨current', hcurrent', ?_⟩
      rw [visible_of_not_lock fun hl' => hl ((hf.lock _).mp hl'), hrow, update_self, hcurrent']

theorem SignInAt.of_frame {db db' : Db ι String UserORM Empty}
    {c : Option (UserTask ι (Except Raised TenantContext))} (h : SignInAt claims db i c)
    (hf : Frame i db db') (hrows : ∀ k, db.rows k ≠ none → db'.rows k ≠ none) :
    SignInAt claims db' i c := by
  have hunlocked : (∀ k, db.lock k ≠ some i) → ∀ k, db'.lock k ≠ some i :=
    fun hno k hk => hno k ((hf.lock k).mp hk)
  cases h with
  | idle hno => exact .idle (hunlocked hno)
  | selecting hno => exact .selecting (hunlocked hno)
  | flushing hno hloaded =>
    exact .flushing (hunlocked hno) fun old hold =>
      ⟨(hloaded old hold).1, hrows _ (hloaded old hold).2⟩
  | committing hflushed => exact .committing (hflushed.of_frame hf hrows)
  | ended result hno hrow =>
    exact .ended result (hunlocked hno) fun context hok => hrows _ (hrow context hok)

/-! ## What one step does -/

/-- The table after an insert or an update that went through. -/
def UserTables.lockRow (m : UserTables ι) (i : ι) (subject : String) (row : UserORM) :
    UserTables ι :=
  { m with db := { m.db with
      lock := Function.update m.db.lock subject (some i)
      dirty := Function.update m.db.dirty subject (some row) } }

def UserTables.commit (m : UserTables ι) (i : ι) (subject : String) (row : UserORM) :
    UserTables ι :=
  ⟨ReadCommitted.commit m.db i, Function.update m.lastUpsert subject (some row)⟩

/-- The steps of request `i`. -/
inductive SignInMove (claims : TokenClaims) (i : ι) (m : UserTables ι) :
    Option (UserTask ι (Except Raised TenantContext)) →
    UserTask ι (Except Raised TenantContext) × UserTables ι → Prop where
  | begin : (∀ k, m.db.lock k ≠ some i) →
      SignInMove claims i m none ((getCurrentContext claims).run, m)
  | select : (∀ k, m.db.lock k ≠ some i) →
      SignInMove claims i m (some (getCurrentContext claims).run)
        ((flushing claims (m.db.rows claims.subject)).run, m)
  | insert : (∀ k, m.db.lock k ≠ some i) → m.db.rows claims.subject = none →
      m.db.lock claims.subject = none → claims.row.fits claims.subject →
      SignInMove claims i m (some (flushing claims none).run)
        ((committing claims none).run, m.lockRow i claims.subject claims.row)
  | insertFails : (∀ k, m.db.lock k ≠ some i) →
      ¬(m.db.rows claims.subject = none ∧ claims.row.fits claims.subject) →
      SignInMove claims i m (some (flushing claims none).run)
        (.done (.error .other), { m with db := abort m.db i })
  | update {old current : UserORM} : (∀ k, m.db.lock k ≠ some i) →
      m.db.rows claims.subject = some current → m.db.lock claims.subject = none →
      claims.row ≠ old → UserORM.updateFits old claims.row →
      SignInMove claims i m (some (flushing claims (some old)).run)
        ((committing claims (some old)).run,
          m.lockRow i claims.subject (UserORM.update old claims.row current))
  | updateFails {old : UserORM} : (∀ k, m.db.lock k ≠ some i) → claims.row ≠ old →
      ¬UserORM.updateFits old claims.row →
      SignInMove claims i m (some (flushing claims (some old)).run)
        (.done (.error .other), { m with db := abort m.db i })
  | commit {loaded : Option UserORM} : Flushed claims m.db i loaded →
      SignInMove claims i m (some (committing claims loaded).run)
        (.done (.ok (contextOf claims)), m.commit i claims.subject claims.row)

variable {requests : ι → TokenClaims}

omit [DecidableEq ι] in
theorem settle_flushing (claims : TokenClaims) (loaded : Option UserORM) (m : UserTables ι) :
    (flushing claims loaded : UserSession ι TenantContext).run.settle m =
      ((flushing claims loaded).run, m) := by
  unfold flushing
  cases loaded with
  | none => rfl
  | some old =>
    dsimp only
    split_ifs
    · rfl
    · rfl

theorem execute_insert_cases {m t : UserTables ι} {subject : String} {row : UserORM}
    {r : Except Raised Unit} (hno : ∀ k, m.db.lock k ≠ some i)
    (h : m.execute i (.insert subject row) = some (r, t)) :
    ((m.db.rows subject = none ∧ row.fits subject) ∧ m.db.lock subject = none ∧
      r = .ok () ∧ t = m.lockRow i subject row) ∨
    (¬(m.db.rows subject = none ∧ row.fits subject) ∧
      r = .error .other ∧ t = { m with db := abort m.db i }) := by
  simp only [UserTables.execute] at h
  split_ifs at h with hfits
  · obtain ⟨result, hinsert, hresult⟩ := Option.map_eq_some_iff.mp h
    rcases insertRow_cases hinsert with ⟨rfl, hrow⟩ | ⟨hrow, hlock, rfl⟩
    · cases hresult
      have htaken := hrow.resolve_right (hno _)
      exact Or.inr ⟨fun hfree => htaken hfree.1, rfl, rfl⟩
    · cases hresult
      exact Or.inl ⟨⟨hrow, hfits⟩, hlock, rfl, rfl⟩
  · cases h
    exact Or.inr ⟨fun hfree => hfits hfree.2, rfl, rfl⟩

theorem execute_update_cases {m t : UserTables ι} {subject : String} {old row current : UserORM}
    {r : Except Raised Unit} (hno : ∀ k, m.db.lock k ≠ some i)
    (hcurrent : m.db.rows subject = some current)
    (h : m.execute i (.update subject old row) = some (r, t)) :
    (UserORM.updateFits old row ∧ m.db.lock subject = none ∧
      r = .ok () ∧ t = m.lockRow i subject (UserORM.update old row current)) ∨
    (¬UserORM.updateFits old row ∧ r = .error .other ∧ t = { m with db := abort m.db i }) := by
  simp only [UserTables.execute] at h
  split_ifs at h with hfits
  · obtain ⟨result, hmodify, hresult⟩ := Option.map_eq_some_iff.mp h
    obtain ⟨hlock, rfl⟩ := modifyRow_cases hmodify
    rw [visible_of_not_lock (hno _), hcurrent] at hresult
    cases hresult
    exact Or.inl ⟨hfits, hlock.resolve_right (hno _), rfl, rfl⟩
  · cases h
    exact Or.inr ⟨hfits, rfl, rfl⟩

theorem signInMove_of_moves {m : UserTables ι}
    {c : Option (UserTask ι (Except Raised TenantContext))}
    {m' : UserTask ι (Except Raised TenantContext) × UserTables ι}
    (hc : SignInAt (requests i) m.db i c) (hm : (signIns requests).Moves i c m m') :
    SignInMove (requests i) i m c m' := by
  cases hm with
  | call =>
    generalize hpoint : none = c at hc
    cases hc with
    | idle hno => exact .begin hno
    | selecting hno => cases hpoint
    | flushing hno hloaded => cases hpoint
    | committing hflushed => cases hpoint
    | ended result hno hrow => cases hpoint
  | @answer statement k _ t r _ hanswer =>
    generalize hpoint : some (Async.await statement k) = c at hc
    have hanswer : m.execute i statement = some (r, t) := hanswer
    cases hc with
    | idle hno => cases hpoint
    | ended result hno hrow => cases hpoint
    | selecting hno =>
      rw [getCurrentContext_eq] at hpoint
      have hselect : SignInMove (requests i) i m (some (getCurrentContext (requests i)).run)
          ((flushing (requests i) (m.db.rows (requests i).subject)).run, m) := .select hno
      rw [← settle_flushing, ← visible_of_not_lock (hno _)] at hselect
      cases hpoint
      cases hanswer
      exact hselect
    | @flushing loaded hno hloaded =>
      cases loaded with
      | none =>
        cases hpoint
        rcases execute_insert_cases hno hanswer with
          ⟨⟨hrow, hfits⟩, hlock, rfl, rfl⟩ | ⟨hfails, rfl, rfl⟩
        · exact .insert hno hrow hlock hfits
        · exact .insertFails hno hfails
      | some old =>
        obtain ⟨hne, hrow⟩ := hloaded old rfl
        obtain ⟨current, hcurrent⟩ := Option.ne_none_iff_exists'.mp hrow
        have hpoint : some (Async.await statement k) = some (do
            UserSession.update (requests i).subject old (requests i).row
            committing (requests i) (some old) : UserSession ι TenantContext).run := by
          rw [hpoint, flushing, if_pos hne]
        cases hpoint
        rcases execute_update_cases hno hcurrent hanswer with
          ⟨hfits, hlock, rfl, rfl⟩ | ⟨hfits, rfl, rfl⟩
        · exact .update hno hcurrent hlock hne hfits
        · exact .updateFails hno hne hfits
    | committing hflushed =>
      cases hpoint
      cases hanswer
      exact .commit hflushed

section Moves

variable {m : UserTables ι} {c : Option (UserTask ι (Except Raised TenantContext))}
  {m' : UserTask ι (Except Raised TenantContext) × UserTables ι}

theorem frame_of_move (h : SignInMove claims i m c m') (hij : j ≠ i) : Frame j m.db m'.2.db := by
  cases h with
  | begin => exact .refl j _
  | select => exact .refl j _
  | insert hno hrow hlock hfits =>
    exact frame_lock hij (Or.inl hlock) fun k hk => Function.update_of_ne hk _ _
  | insertFails => exact frame_abort hij _
  | update hno hrow hlock hne hfits =>
    exact frame_lock hij (Or.inl hlock) fun k hk => Function.update_of_ne hk _ _
  | updateFails => exact frame_abort hij _
  | commit => exact frame_commit hij _

theorem rows_of_move (h : SignInMove claims i m c m') (k : String) (hk : m.db.rows k ≠ none) :
    m'.2.db.rows k ≠ none := by
  cases h with
  | begin => exact hk
  | select => exact hk
  | insert => exact hk
  | insertFails => exact hk
  | update => exact hk
  | updateFails => exact hk
  | commit hflushed =>
    show m.db.visible i k ≠ none
    by_cases hlock : m.db.lock k = some i
    · rw [visible_of_lock hlock]
      cases hd : m.db.dirty k with
      | none => simpa using hk
      | some row => simp
    · rwa [visible_of_not_lock hlock]

theorem visible_lockRow (m : UserTables ι) (i : ι) (subject : String) (row : UserORM) :
    (m.lockRow i subject row).db.visible i subject = some row := by
  simp [UserTables.lockRow, Db.visible]

omit [DecidableEq ι] in
theorem lock_lockRow {subject k : String} {row : UserORM} (hno : ∀ k, m.db.lock k ≠ some i) :
    (m.lockRow i subject row).db.lock k = some i ↔ k = subject := by
  by_cases hk : k = subject
  · subst hk; simp [UserTables.lockRow]
  · simp [UserTables.lockRow, hk, hno k]

theorem signInAt_of_move (h : SignInMove claims i m c m') :
    SignInAt claims m'.2.db i (some m'.1) := by
  cases h with
  | begin hno => exact .selecting hno
  | select hno =>
    cases hrow : m.db.rows claims.subject with
    | none =>
      have hloaded : ∀ old, none = some old →
          claims.row ≠ old ∧ m.db.rows claims.subject ≠ none := nofun
      exact .flushing hno hloaded
    | some old =>
      by_cases hne : claims.row ≠ old
      · have hloaded : ∀ old', some old = some old' →
            claims.row ≠ old' ∧ m.db.rows claims.subject ≠ none := by
          rintro old' hold
          cases hold
          exact ⟨hne, by simp [hrow]⟩
        exact .flushing hno hloaded
      · -- the flush has nothing to send
        have hflush : flushing claims (some old) = committing (ι := ι) claims (some old) :=
          if_neg hne
        rw [hflush]
        refine .committing ⟨fun k hk => absurd hk (hno k), nofun,
          fun old' hold => ?_⟩
        cases hold
        obtain rfl := not_not.mp hne
        exact ⟨fun h => absurd rfl h, claims.row, hrow,
          by rw [visible_of_not_lock (hno _), hrow, update_self]⟩
  | insert hno hrow hlock hfits =>
    refine .committing ⟨fun k hk => (lock_lockRow hno).mp hk,
      fun _ => ⟨(lock_lockRow hno).mpr rfl, visible_lockRow _ _ _ _⟩, nofun⟩
  | insertFails hno hfails => exact .ended _ (lock_release _ _) nofun
  | @update old current hno hrow hlock hne hfits =>
    refine .committing ⟨fun k hk => (lock_lockRow hno).mp hk, nofun,
      fun old' hold => ?_⟩
    cases hold
    exact ⟨fun _ => (lock_lockRow hno).mpr rfl, current, hrow, visible_lockRow _ _ _ _⟩
  | updateFails hno hne hfits => exact .ended _ (lock_release _ _) nofun
  | @commit loaded hflushed =>
    refine .ended _ (lock_release _ _) fun context _ => ?_
    show m.db.visible i claims.subject ≠ none
    cases loaded with
    | none => simp [(hflushed.written rfl).2]
    | some old =>
      obtain ⟨-, current, -, hvisible⟩ := hflushed.changed old rfl
      simp [hvisible]

end Moves

/-! ## All interleavings -/

abbrev SignInLoop (ι : Type) :=
  Loop ι (UserTables ι) UserStatement UserReply (Except Raised TenantContext)

/-- The columns this upsert leaves as it loaded them still have those values. -/
structure Untouched (old row current : UserORM) : Prop where
  tenantId : row.tenantId = old.tenantId → current.tenantId = old.tenantId
  ministry : row.ministry = old.ministry → current.ministry = old.ministry
  email : row.email = old.email → current.email = old.email
  roles : row.roles = old.roles → current.roles = old.roles

/-- The step finds what the request has loaded: no row to insert over, and at the COMMIT
no change to the columns it leaves alone. The values it sends fit their columns. -/
def Undisturbed (s : SignInLoop ι) : Label ι Unit Empty → Prop
  | .answer i _ =>
    match s.pending i with
    | some (.insert subject row) => s.memory.db.rows subject = none ∧ row.fits subject
    | some (.update _ loaded row) => UserORM.updateFits loaded row
    | some (.commit subject (some loaded) row) =>
      ∀ current, s.memory.db.rows subject = some current → Untouched loaded row current
    | _ => True
  | _ => True

/-- No request has failed, and every row is that of the upsert that committed last. -/
structure Served (s : SignInLoop ι) : Prop where
  noError : ∀ i e, s.result i ≠ some (.error e)
  lastUpsert : s.memory.db.rows = s.memory.lastUpsert

theorem update_eq_iff (old row current : UserORM) :
    UserORM.update old row current = row ↔ Untouched old row current := by
  constructor
  · intro h
    have htenant := congrArg UserORM.tenantId h
    have hministry := congrArg UserORM.ministry h
    have hemail := congrArg UserORM.email h
    have hroles := congrArg UserORM.roles h
    simp only [UserORM.update] at htenant hministry hemail hroles
    refine ⟨fun heq => ?_, fun heq => ?_, fun heq => ?_, fun heq => ?_⟩
    · rwa [if_pos heq, heq] at htenant
    · rwa [if_pos heq, heq] at hministry
    · rwa [if_pos heq, heq] at hemail
    · rwa [if_pos heq, heq] at hroles
  · intro h
    simp only [UserORM.update]
    congr 1
    · split_ifs with heq
      · rw [h.tenantId heq, heq]
      · rfl
    · split_ifs with heq
      · rw [h.ministry heq, heq]
      · rfl
    · split_ifs with heq
      · rw [h.email heq, heq]
      · rfl
    · split_ifs with heq
      · rw [h.roles heq, heq]
      · rfl

theorem commit_eq_iff {m : UserTables ι} (hrows : m.db.rows = m.lastUpsert) {subject : String}
    {row : UserORM} (hlocks : ∀ k, m.db.lock k = some i → k = subject) :
    (m.commit i subject row).db.rows = (m.commit i subject row).lastUpsert ↔
      m.db.visible i subject = some row := by
  constructor
  · intro h
    simpa [UserTables.commit, ReadCommitted.commit] using congrFun h subject
  · intro h
    funext k
    show m.db.visible i k = Function.update m.lastUpsert subject (some row) k
    by_cases hk : k = subject
    · subst hk; simpa using h
    · rw [visible_of_not_lock fun hl => hk (hlocks k hl), hrows]
      simp [hk]

variable {l l' : SignInLoop ι} {a : Label ι Unit Empty}

theorem served_put (hl : Served l) (i : ι)
    (m : UserTask ι (Except Raised TenantContext) × UserTables ι) :
    Served (l.put i m) ↔
      (∀ e, m.1.result ≠ some (.error e)) ∧ m.2.db.rows = m.2.lastUpsert := by
  constructor
  · intro h
    exact ⟨fun e => by simpa [Loop.result] using h.noError i e, h.lastUpsert⟩
  · rintro ⟨hresult, hlast⟩
    refine ⟨fun j e => ?_, hlast⟩
    by_cases hj : j = i
    · subst hj; simpa [Loop.result] using hresult e
    · simpa [Loop.result, hj] using hl.noError j e

omit [DecidableEq ι] in
theorem result_flushing (claims : TokenClaims) (loaded : Option UserORM) :
    (flushing claims loaded : UserSession ι TenantContext).run.result = none := by
  unfold flushing
  cases loaded with
  | none => rfl
  | some old =>
    dsimp only
    split_ifs
    · rfl
    · rfl

theorem served_put_iff (hl : Served l) {i : ι} {claims : TokenClaims}
    {c : Option (UserTask ι (Except Raised TenantContext))}
    {m : UserTask ι (Except Raised TenantContext) × UserTables ι} (hc : l.calls i = c)
    (h : SignInMove claims i l.memory c m) :
    Served (l.put i m) ↔ c = none ∨ Undisturbed l (.answer i ()) := by
  rw [served_put hl]
  have hpending : l.pending i = c.bind Async.pending := by rw [Loop.pending, hc]
  cases h with
  | begin hno =>
    have hresult : (getCurrentContext claims : UserSession ι TenantContext).run.result = none := by
      rw [getCurrentContext_eq]; rfl
    simp [hresult, hl.lastUpsert]
  | select hno =>
    have hselect : l.pending i = some (.select claims.subject) := hpending
    simp [Undisturbed, hselect, result_flushing, hl.lastUpsert]
  | insert hno hrow hlock hfits =>
    have hinsert : l.pending i = some (.insert claims.subject claims.row) := hpending
    have hresult : (committing claims none : UserSession ι TenantContext).run.result = none := rfl
    simp [Undisturbed, hinsert, hresult, hrow, hfits, UserTables.lockRow, hl.lastUpsert]
  | insertFails hno hfails =>
    have hinsert : l.pending i = some (.insert claims.subject claims.row) := hpending
    simpa [Undisturbed, hinsert, Async.result] using hfails
  | @update old current hno hrow hlock hne hfits =>
    have hupdate : l.pending i = some (.update claims.subject old claims.row) := by
      rw [hpending, flushing, if_pos hne]; rfl
    have hresult : (committing claims (some old) : UserSession ι TenantContext).run.result =
      none := rfl
    simp [Undisturbed, hupdate, hresult, hfits, UserTables.lockRow, hl.lastUpsert]
  | @updateFails old hno hne hfits =>
    have hupdate : l.pending i = some (.update claims.subject old claims.row) := by
      rw [hpending, flushing, if_pos hne]; rfl
    simpa [Undisturbed, hupdate, Async.result] using hfits
  | @commit loaded hflushed =>
    have hcommit : l.pending i = some (.commit claims.subject loaded claims.row) := hpending
    rw [commit_eq_iff hl.lastUpsert hflushed.locks]
    cases loaded with
    | none => simp [Undisturbed, hcommit, Async.result, (hflushed.written rfl).2]
    | some old =>
      obtain ⟨-, current, hcurrent, hvisible⟩ := hflushed.changed old rfl
      simp [Undisturbed, hcommit, Async.result, hvisible, hcurrent, update_eq_iff]

/-! ## Runs -/

/-- The states that some interleaving of the requests reaches. -/
def SignInsReach (requests : ι → TokenClaims) (users : String → Option UserORM)
    (as : List (Label ι Unit Empty)) (l : SignInLoop ι) : Prop :=
  Runs.Run (signIns requests).Step (Loop.init (.before users)) as l

theorem standing_of_run {users : String → Option UserORM} {as : List (Label ι Unit Empty)}
    (h : SignInsReach requests users as l) (i : ι) :
    SignInAt (requests i) l.memory.db i (l.calls i) := by
  refine (invariant_of_local (I := fun _ => True)
    (A := fun i c m => SignInAt (requests i) m.db i c) trivial ?_ ?_ ?_ ?_ h).2 i
  · exact fun i => .idle fun k => nofun
  · intro i c m m' _ hc hmoves
    exact ⟨trivial, signInAt_of_move (signInMove_of_moves hc hmoves)⟩
  · intro i j cᵢ cⱼ m m' hij _ hci hcj hmoves
    have hmove := signInMove_of_moves hci hmoves
    exact hcj.of_frame (frame_of_move hmove hij) (rows_of_move hmove)
  · exact fun e => e.elim

theorem waits_for_commit {users : String → Option UserORM} {as : List (Label ι Unit Empty)}
    (h : SignInsReach requests users as l) {i : ι} {statement : UserStatement}
    (hwaits : l.memory.execute i statement = none) :
    ∃ j subject loaded row, l.pending j = some (.commit subject loaded row) := by
  have hlocked : ∃ j k, l.memory.db.lock k = some j := by
    cases statement with
    | select subject => cases hwaits
    | commit subject loaded row => cases hwaits
    | insert subject row =>
      simp only [UserTables.execute] at hwaits
      split_ifs at hwaits
      simp only [Option.map_eq_none_iff, insertRow] at hwaits
      split at hwaits
      · cases hwaits
      · next hlock => exact ⟨_, _, hlock⟩
      · cases hwaits
    | update subject loaded row =>
      simp only [UserTables.execute] at hwaits
      split_ifs at hwaits
      simp only [Option.map_eq_none_iff, modifyRow] at hwaits
      split_ifs at hwaits with hlock
      obtain ⟨j, hj⟩ := Option.ne_none_iff_exists'.mp (not_or.mp hlock).1
      exact ⟨j, subject, hj⟩
  obtain ⟨j, k, hj⟩ := hlocked
  have hpoint := standing_of_run h j
  generalize hcall : l.calls j = c at hpoint
  cases hpoint with
  | idle hno => exact absurd hj (hno k)
  | selecting hno => exact absurd hj (hno k)
  | flushing hno hloaded => exact absurd hj (hno k)
  | ended result hno hrow => exact absurd hj (hno k)
  | committing hflushed => exact ⟨j, _, _, _, by rw [Loop.pending, hcall]; rfl⟩

theorem served_of_step (hl : Served l)
    (hpoint : ∀ i, SignInAt (requests i) l.memory.db i (l.calls i))
    (h : (signIns requests).Step l a l') : Served l' ↔ Undisturbed l a := by
  cases step_takes h with
  | @call i hnone =>
    have hmoves : (signIns requests).Moves i (l.calls i) l.memory
        (((signIns requests).program i).settle l.memory) := hnone ▸ .call _
    rw [served_put_iff hl rfl (signInMove_of_moves (hpoint i) hmoves)]
    simp [hnone, Undisturbed]
  | @answer i u statement k r m hc hanswer =>
    have hmoves : (signIns requests).Moves i (l.calls i) l.memory ((k r).settle m) :=
      hc ▸ .answer u hanswer
    rw [served_put_iff hl rfl (signInMove_of_moves (hpoint i) hmoves)]
    simp [hc]
  | @event e => exact e.elim

/-- Every step of the run finds what its request has loaded. -/
def UndisturbedRun (requests : ι → TokenClaims) (users : String → Option UserORM)
    (as : List (Label ι Unit Empty)) (l : SignInLoop ι) : Prop :=
  Runs.Run.Every (signIns requests).Step Undisturbed (Loop.init (.before users)) as l

def ServedRun (requests : ι → TokenClaims) (users : String → Option UserORM)
    (as : List (Label ι Unit Empty)) (l : SignInLoop ι) : Prop :=
  Runs.Run.Every (signIns requests).Step (fun l _ => Served l) (Loop.init (.before users)) as l ∧
    Served l

/-- All requests are served throughout exactly in the runs whose steps are undisturbed.
Who has a context has a row, and who waits waits for a COMMIT. -/
theorem concurrent_sign_in (requests : ι → TokenClaims) (users : String → Option UserORM)
    {as : List (Label ι Unit Empty)} (h : SignInsReach requests users as l) :
    (UndisturbedRun requests users as l ↔ ServedRun requests users as l) ∧
    (∀ i context, l.result i = some (.ok context) →
      ∃ row, l.memory.db.rows (requests i).subject = some row) ∧
    ∀ i statement, l.memory.execute i statement = none →
      ∃ j subject loaded row, l.pending j = some (.commit subject loaded row) := by
  refine ⟨?_, fun i context hresult => ?_, fun i statement => waits_for_commit h⟩
  · have hserved : ∀ (l : SignInLoop ι) a l', (∃ as, SignInsReach requests users as l) →
        Served l → (signIns requests).Step l a l' → (Served l' ↔ Undisturbed l a) := by
      rintro l a l' ⟨as, hreach⟩ hl hstep
      exact served_of_step hl (fun i => standing_of_run hreach i) hstep
    have hreach : ∀ (l : SignInLoop ι) a l', (∃ as, SignInsReach requests users as l) →
        (signIns requests).Step l a l' → ∃ as, SignInsReach requests users as l' := by
      rintro l a l' ⟨as, hreach⟩ hstep
      exact ⟨as ++ [a], hreach.snoc hstep⟩
    exact Runs.Run.every_iff ⟨[], .nil⟩ ⟨fun _ _ => nofun, rfl⟩ hreach hserved
  · have hpoint := standing_of_run h i
    generalize hcall : l.calls i = c at hpoint
    rw [Loop.result, hcall] at hresult
    cases hpoint with
    | idle hno => cases hresult
    | selecting hno => rw [getCurrentContext_eq] at hresult; cases hresult
    | flushing hno hloaded => rw [Option.bind_some, result_flushing] at hresult; cases hresult
    | committing hflushed => cases hresult
    | ended result hno hrow =>
      cases hresult
      exact Option.ne_none_iff_exists'.mp (hrow context rfl)

def firstSignIn (_ : ℕ) : TokenClaims :=
  ⟨"user-123", "ministry-a", "ministry-a", .null, ["analyst"]⟩

/-- Both requests find no row and insert one. -/
def overlappingInserts : List (Label ℕ Unit Empty) :=
  [.call 0, .call 1, .answer 0 (), .answer 1 (), .answer 0 (), .answer 0 (), .answer 1 ()]

theorem overlapping_sign_in_fails :
    ∃ l, SignInsReach firstSignIn (fun _ => none) overlappingInserts l ∧
      l.result 1 = some (.error .other) :=
  ⟨_, Runs.run_of_exec rfl, rfl⟩

/-- Both requests find the row of an earlier one, and set its email. -/
def signInAgain (_ : ℕ) : TokenClaims :=
  ⟨"user-123", "ministry-a", "ministry-a", .str "a@ministry-a", ["analyst"]⟩

/-- The first upsert commits while the second has loaded its row and waits for it. -/
def overlappingUpdates : List (Label ℕ Unit Empty) :=
  [.call 0, .call 1, .answer 0 (), .answer 1 (), .answer 0 (), .answer 0 (), .answer 1 (),
    .answer 1 ()]

theorem concurrent_sign_in_updates :
    ∃ l, SignInsReach signInAgain (fun _ => some (firstSignIn 0).row) overlappingUpdates l ∧
      ServedRun signInAgain (fun _ => some (firstSignIn 0).row) overlappingUpdates l ∧
      ∃ row, l.memory.db.rows "user-123" = some row := by
  have hrun : ∃ l, SignInsReach signInAgain (fun _ => some (firstSignIn 0).row)
      overlappingUpdates l ∧ UndisturbedRun signInAgain (fun _ => some (firstSignIn 0).row)
        overlappingUpdates l ∧ l.result 1 = some (.ok (contextOf (signInAgain 1))) := by
    refine ⟨_, Runs.run_of_exec rfl, (Runs.throughout_of_exec (C := fun _ => Undisturbed) rfl
      ?_).every fun _ _ _ _ _ _ h => h, rfl⟩
    -- the second COMMIT finds the email of the first, and the columns that both leave alone
    refine ⟨trivial, trivial, trivial, trivial, (by decide : UserORM.updateFits _ _), ?_,
      (by decide : UserORM.updateFits _ _), ?_, trivial⟩
    · rintro current hcurrent
      cases hcurrent
      exact ⟨fun _ => rfl, fun _ => rfl, fun _ => rfl, fun _ => rfl⟩
    · rintro current hcurrent
      cases hcurrent
      exact ⟨fun _ => rfl, fun _ => rfl, fun hemail => absurd hemail (by decide),
        fun _ => rfl⟩
  obtain ⟨l, hl, hundisturbed, hresult⟩ := hrun
  obtain ⟨hserved, hrow, -⟩ := concurrent_sign_in signInAgain _ hl
  exact ⟨l, hl, hserved.mp hundisturbed, hrow 1 _ hresult⟩

end GoAnalyze
