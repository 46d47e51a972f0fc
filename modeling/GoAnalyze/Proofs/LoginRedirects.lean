import GoAnalyze.Proofs.LoginRedemption
import GoAnalyze.Spec.LoginRedirect

/-! Navigation after the login. The `redirect` parameter is passed on as it came, at once or
through the session storage, and the browser leaves the application wherever the parameter
names another origin. -/

namespace GoAnalyze

open EventLoop WebUrl Auth

/-- Apart from the callback page, a call goes where its own parameter says. -/
theorem target_of_redirect {call : PageCall} {result : AuthResult} {target : String}
    (hcallback : ∀ search, call ≠ .callbackInner search) (h : call.target result = some target) :
    ∃ redirect, call.redirect = some redirect ∧ redirectTarget redirect = target := by
  unfold PageCall.target at h
  split at h
  · next redirect tokens => exact ⟨redirect, rfl, Option.some.inj h⟩
  · next search _ => exact absurd rfl (hcallback search)
  · cases h

theorem page_of_target {search : CallbackParams} {page : CallbackPage} {target : String}
    (h : (PageCall.callbackInner search).target (.page page) = some target) :
    page = .replace target := by
  cases page with
  | replace target' => exact congrArg CallbackPage.replace (Option.some.inj h)
  | error text => cases h

def StoredRedirect (Good : String → Prop) (s : Tab) : Prop :=
  ∀ target, s.storage.postLoginRedirect = some target → Good target

namespace StoredRedirect

variable {Good : String → Prop} {s₀ s s' : Tab}

theorem of_eq (h : StoredRedirect Good s)
    (heq : s'.storage.postLoginRedirect = s.storage.postLoginRedirect) :
    StoredRedirect Good s' := by
  intro target htarget
  exact h target (heq ▸ htarget)

theorem keptByRefresh : KeptByRefresh (StoredRedirect Good) AnyChange where
  sent _ _ _ _ hs := ⟨hs.of_eq rfl, trivial⟩
  tokens _ _ hs := ⟨hs.of_eq rfl, trivial⟩

theorem consumed (h : StoredRedirect Good s) (hdefault : Good "/dashboard") :
    Good ((s.storage.postLoginRedirect.filter (· ≠ "")).getD "/dashboard") := by
  cases hstored : s.storage.postLoginRedirect.filter (· ≠ "") with
  | none => exact hdefault
  | some target => exact h target (Option.filter_eq_some_iff.mp hstored).1

variable (browser : Browser)

theorem wp_login {redirectAfter : String} (hgood : Good redirectAfter)
    {Q : Except Rejection Unit → Tab → Tab → Prop}
    (hQ : ∀ r s₀ s, StoredRedirect Good s → Q r s₀ s) (hs : StoredRedirect Good s) :
    (login browser redirectAfter).run.wp (StoredRedirect Good) AnyChange Q s₀ s := by
  unfold login
  simp only [Async.wp_bindExcept, wp_randomString]
  refine ⟨hs.of_eq rfl, trivial, fun bytes s' _ hs' => ?_⟩
  cases bytes with
  | none => exact hQ _ _ _ hs'
  | some bytes =>
    refine hQ _ _ _ fun target htarget => ?_
    cases htarget
    exact hgood

theorem wp_completeLogin (code state : String) {Q : Except Rejection LoginResult → Tab → Tab → Prop}
    (hQ : ∀ r s₀ s, StoredRedirect Good s → Q r s₀ s) (hs : StoredRedirect Good s) :
    (completeLogin browser code state).run.wp (StoredRedirect Good) AnyChange Q s₀ s := by
  unfold completeLogin
  simp only [Async.wp_bindExcept, Async.wp_get]
  split
  · exact hQ _ _ _ hs
  · simp only [Async.wp_bindExcept, wp_fetchToken]
    refine ⟨hs.of_eq rfl, trivial, fun response s₁ _ hs₁ => ?_⟩
    cases response with
    | networkError => exact hQ _ _ _ hs₁
    | response status =>
      dsimp only
      split
      · refine ⟨hs₁, trivial, fun data s₂ _ hs₂ => ?_⟩
        cases data with
        | none => exact hQ _ _ _ hs₂
        | some data => exact hQ _ _ _ (hs₂.of_eq rfl)
      · exact hQ _ _ _ hs₁

theorem wp_callbackInner (search : CallbackParams) (hdefault : Good "/dashboard")
    {Q : Except Rejection CallbackPage → Tab → Tab → Prop}
    (hQ : ∀ r s₀ s, StoredRedirect Good s → (∀ target, r = .ok (.replace target) → Good target) →
      Q r s₀ s) (hs : StoredRedirect Good s) :
    (callbackInner browser search).run.wp (StoredRedirect Good) AnyChange Q s₀ s := by
  unfold callbackInner
  split
  · exact hQ _ _ _ hs (by simp)
  · next code state _ =>
    simp only [Async.wp_bindExcept]
    refine wp_completeLogin browser code state (fun r s₀ s hs => ?_) hs
    cases r with
    | error e => exact hQ _ _ _ hs (by simp)
    | ok result =>
      refine ⟨hs, trivial, fun _ s' _ hs' => ?_⟩
      cases result with
      | error text => exact hQ _ _ _ hs' (by simp)
      | ok =>
        refine hQ _ _ _ (by simp [StoredRedirect]) fun target htarget => ?_
        cases htarget
        exact hs'.consumed hdefault

variable {call : PageCall}

theorem wp_memory (hcallback : ∀ search, call ≠ .callbackInner search)
    (hredirect : ∀ redirect, call.redirect = some redirect → Good (redirectTarget redirect))
    (hs : StoredRedirect Good s) :
    (call.authCall.run browser).run.wp (StoredRedirect Good) AnyChange
      (fun _ s₀ s => StoredRedirect Good s ∧ AnyChange s₀ s) s s := by
  have hend : ∀ {α : Type} (_ : Except Rejection α) (s₀ s : Tab), StoredRedirect Good s →
      AnyChange s₀ s → StoredRedirect Good s ∧ AnyChange s₀ s := fun _ _ _ hs hany => ⟨hs, hany⟩
  cases call with
  | logout => exact ⟨hs.of_eq rfl, trivial⟩
  | signIn redirect =>
    exact (Async.wp_mapExcept _ _ _ _ _ _).mpr
      (wp_login browser (hredirect redirect rfl) (fun _ _ _ hs => ⟨hs, trivial⟩) hs)
  | callbackInner search => exact absurd rfl (hcallback search)
  | loginInner redirect =>
    exact (Async.wp_mapExcept _ _ _ _ _ _).mpr
      (wp_useAuthRefresh browser keptByRefresh hend hs trivial)
  | useAuthRefresh =>
    exact (Async.wp_mapExcept _ _ _ _ _ _).mpr
      (wp_useAuthRefresh browser keptByRefresh hend hs trivial)
  | getValidAccessToken =>
    exact (Async.wp_mapExcept _ _ _ _ _ _).mpr
      (wp_getValidAccessToken browser keptByRefresh hend hs trivial)
  | refreshTokens =>
    exact (Async.wp_mapExcept _ _ _ _ _ _).mpr
      (wp_refreshTokens browser keptByRefresh hend hs trivial)

theorem wp_run (hdefault : Good "/dashboard")
    (hredirect : ∀ redirect, call.redirect = some redirect → Good (redirectTarget redirect))
    (hs : StoredRedirect Good s) :
    (call.authCall.run browser).run.wp (StoredRedirect Good) AnyChange
      (fun r s₀ s => (∀ result target, r = .ok result → call.target result = some target →
        Good target) ∧ StoredRedirect Good s ∧ AnyChange s₀ s) s s := by
  by_cases hcallback : ∃ search, call = .callbackInner search
  · obtain ⟨search, rfl⟩ := hcallback
    refine (Async.wp_bindExcept _ _ _ _ _ _).mpr
      (wp_callbackInner browser search hdefault (fun r s₀ s hs hgood => ?_) hs)
    cases r with
    | error e => exact ⟨by simp, hs, trivial⟩
    | ok page =>
      refine ⟨fun result target hresult htarget => ?_, hs, trivial⟩
      cases hresult
      obtain rfl := page_of_target htarget
      exact hgood target rfl
  · rw [not_exists] at hcallback
    refine Async.wp_mono (wp_memory browser hcallback hredirect hs) fun r s₀ s h => ⟨?_, h⟩
    intro result target _ htarget
    obtain ⟨redirect, hread, rfl⟩ := target_of_redirect hcallback htarget
    exact hredirect redirect hread

end StoredRedirect

/-! ## Runs -/

variable {browser : Browser} {ι : Type} [DecidableEq ι] {calls : ι → PageCall} {m₀ : Tab}
  {as : List (Label ι AuthAnswer ℤ)} {l : SessionLoop ι} {Good : String → Prop}

theorem navigates_good_of_run (h : PageReach browser calls m₀ as l) (hdefault : Good "/dashboard")
    (hstored : m₀.storage.postLoginRedirect = none)
    (hredirect : ∀ i redirect, (calls i).redirect = some redirect → Good (redirectTarget redirect))
    {i : ι} {target : String} (hnavigates : Navigates calls l i target) : Good target := by
  obtain ⟨result, hresult, htarget⟩ := hnavigates
  refine (results_of_wp (I := StoredRedirect Good) (R := AnyChange) (Q := fun i r =>
    ∀ result target, r = .ok result → (calls i).target result = some target → Good target)
    ?_ ?_ ?_ ?_ h).2 i _ hresult result target rfl htarget
  · intro stored hsome
    rw [hstored] at hsome
    cases hsome
  · exact fun i m hm => StoredRedirect.wp_run browser hdefault (hredirect i) hm
  · intro i op c m r m' hm hanswer
    obtain ⟨-, accepted, rfl⟩ := answer_cases hanswer
    exact ⟨hm.of_eq rfl, trivial⟩
  · intro time m m' hm hevent
    rw [← Option.some.inj hevent]
    exact ⟨hm.of_eq rfl, trivial⟩

theorem navigates_good (h : PageReach browser calls m₀ as l) (hdefault : Good "/dashboard")
    (hstored : m₀.storage.postLoginRedirect = none)
    (hreads : ReadsOnly (fun redirect => Good (redirectTarget redirect)) calls as) {i : ι}
    {target : String} (hnavigates : Navigates calls l i target) : Good target := by
  classical
  -- the calls that are not made read nothing
  let made : ι → PageCall := fun i => if .call i ∈ as then calls i else .logout
  have hmade : ∀ i, .call i ∈ as → made i = calls i := fun i hi => if_pos hi
  have hrun : PageReach browser made m₀ as l :=
    run_of_programs_eq (fun i => (((made i).authCall).run browser).run) h fun i hi => by
      rw [hmade i hi]
      rfl
  obtain ⟨result, hresult, htarget⟩ := hnavigates
  refine navigates_good_of_run hrun hdefault hstored ?_ ⟨result, hresult, ?_⟩
  · intro j redirect hread
    by_cases hj : .call j ∈ as
    · exact hreads j redirect hj (hmade j hj ▸ hread)
    · rw [show made j = .logout from if_neg hj] at hread
      cases hread
  · rw [hmade i (made_of_result h hresult)]
    exact htarget

/-! ## Which parameters keep the browser on the application -/

def signedInTab : Tab :=
  { Tab.opened 0 with
    storage := { SessionStorage.empty with
      tokens := some ⟨some "access-1", some "refresh-1", none, 300000, "Bearer"⟩ } }

theorem loginInner_navigates (browser : Browser) (redirect : Option String) :
    ∃ l, PageReach browser (fun _ : ℕ => .loginInner redirect) signedInTab [.call 0] l ∧
      Navigates (fun _ => .loginInner redirect) l 0 (redirectTarget redirect) :=
  ⟨_, Runs.run_of_exec rfl, _, rfl, rfl⟩

section Application

variable {Host : Type} (parseHost : List Char → Option Host) (app : WebOrigin Host)

theorem staysOn_dashboard : StaysOn parseHost app "/dashboard" := rfl

theorem staysOn_redirectTarget_iff (redirect : Option String) :
    StaysOn parseHost app (redirectTarget redirect) ↔ LocalRedirect parseHost app redirect :=
  resolve_eq_base_iff _

/-- The browser stays on the application in all sessions that read redirects of `P` only,
exactly when every redirect of `P` is local. -/
theorem redirects_stay_iff (browser : Browser) (P : Option String → Prop) :
    RedirectsStay parseHost app browser P ↔
      ∀ redirect, P redirect → LocalRedirect parseHost app redirect := by
  simp only [← staysOn_redirectTarget_iff]
  constructor
  · intro h redirect hP
    obtain ⟨l, hrun, hnavigates⟩ := loginInner_navigates browser redirect
    refine h ℕ _ _ _ l rfl hrun ?_ 0 _ hnavigates
    rintro i read - hread
    rwa [← Option.some.inj hread]
  · intro hlocal ι _ calls m₀ as l hstored hrun hreads i target hnavigates
    exact navigates_good hrun (staysOn_dashboard parseHost app) hstored
      (fun j redirect hj hread => hlocal redirect (hreads j redirect hj hread)) hnavigates

end Application

/-! ## Parameters that leave it -/

/-- Names of letters, digits, dots and hyphens. -/
def exampleParseHost (host : List Char) : Option (List Char) :=
  if host.all fun c => c.isAlphanum || c = '.' || c = '-' then some (host.map Char.toLower) else none

/-- The origin of `exampleBrowser`. -/
def exampleApp : WebOrigin (List Char) where
  scheme := .http
  host := "localhost".toList
  port := some 3000
  web := .inl rfl

/-- Sign-in, callback and visits of the login page, all with one parameter. -/
def loginPages (redirect : Option String) : ℕ → PageCall
  | 0 => .signIn redirect
  | 1 => .callbackInner ⟨some "code-1", some drawnState, none, none⟩
  | _ => .loginInner redirect

/-- The effect of the callback page runs once, and the code is exchanged. -/
def effectOnce : List (Label ℕ AuthAnswer ℤ) :=
  [.call 0, .answer 0 (.digest (some [])), .call 1, .answer 1 (.response (.response 200)),
    .answer 1 (.body (some ⟨some "access-1", some "refresh-1", none, none, some 300⟩))]

/-- After the login the page is visited again. -/
def loginThenVisit : List (Label ℕ AuthAnswer ℤ) :=
  effectOnce ++ [.answer 1 .microtask, .call 2]

/-- The callback and then the login page send the browser to `redirect`, away from the
application. -/
def LeavesAfterLogin (redirect : String) : Prop :=
  ¬StaysOn exampleParseHost exampleApp redirect ∧
  ∃ l, PageReach exampleBrowser (loginPages (some redirect)) (Tab.opened 0) loginThenVisit l ∧
    Navigates (loginPages (some redirect)) l 1 redirect ∧
    Navigates (loginPages (some redirect)) l 2 redirect

/-- An absolute URL, references with two slashes of either kind, a script, and a host after
a user name. -/
theorem redirect_leaves :
    LeavesAfterLogin "https://evil.example/" ∧ LeavesAfterLogin "//evil.example/" ∧
    LeavesAfterLogin "/\\evil.example/" ∧ LeavesAfterLogin "javascript:alert(1)" ∧
    LeavesAfterLogin "http:\\\\localhost:3000@evil.example/" := by
  have hleaves : ∀ redirect ∈ ["https://evil.example/", "//evil.example/", "/\\evil.example/",
      "javascript:alert(1)", "http:\\\\localhost:3000@evil.example/"],
      resolve exampleParseHost exampleApp.toOrigin redirect ≠ some exampleApp.toOrigin := by
    decide +kernel
  refine ⟨?_, ?_, ?_, ?_, ?_⟩
  all_goals
    refine ⟨hleaves _ (by simp), ?_⟩
    exact ⟨_, Runs.run_of_exec rfl, ⟨_, rfl, rfl⟩, ⟨_, rfl, rfl⟩⟩

end GoAnalyze
