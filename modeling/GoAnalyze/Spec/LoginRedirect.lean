import GoAnalyze.Lib.WebUrl
import GoAnalyze.Spec.BrowserAuth

/-! Where the pages of the login send the browser: `LoginInner` and `CallbackInner` with
the calls of `auth.ts` that they and `useAuth` make. -/

namespace GoAnalyze

open EventLoop WebUrl

/-- `searchParams.get("redirect") || "/dashboard"`. -/
def redirectTarget (redirect : Option String) : String :=
  (redirect.filter (· ≠ "")).getD "/dashboard"

/-- What a page of the application does in the tab. `loginInner` is the effect of the login
page, with its `redirect` parameter, and `signIn` its button. -/
inductive PageCall where
  | loginInner (redirect : Option String)
  | signIn (redirect : Option String)
  | callbackInner (search : Auth.CallbackParams)
  | useAuthRefresh
  | getValidAccessToken
  | refreshTokens
  | logout

def PageCall.authCall : PageCall → AuthCall
  | loginInner _ => .useAuthRefresh
  | signIn redirect => .login (redirectTarget redirect)
  | callbackInner search => .callbackInner search
  | useAuthRefresh => .useAuthRefresh
  | getValidAccessToken => .getValidAccessToken
  | refreshTokens => .refreshTokens
  | logout => .logout

/-- What is assigned to `window.location.href` or passed to `router.replace` once the call
has returned. -/
def PageCall.target : PageCall → AuthResult → Option String
  | loginInner redirect, .user true _ => some (redirectTarget redirect)
  | callbackInner _, .page (.replace target) => some target
  | _, _ => none

/-- The `redirect` parameter that the call reads. -/
def PageCall.redirect : PageCall → Option (Option String)
  | loginInner redirect | signIn redirect => some redirect
  | _ => none

variable {ι : Type}

/-- The pages of the application in one tab. -/
def pageSession (browser : Browser) (calls : ι → PageCall) :
    System ι Tab AuthOp AuthReply (Except Rejection AuthResult) AuthAnswer ℤ :=
  browserSession browser fun i => (calls i).authCall

/-- What some order of the calls and their answers reaches from `m₀`. -/
def PageReach [DecidableEq ι] (browser : Browser) (calls : ι → PageCall) (m₀ : Tab)
    (as : List (Label ι AuthAnswer ℤ)) (l : SessionLoop ι) : Prop :=
  Runs.Run (pageSession browser calls).Step (Loop.init m₀) as l

/-- Every `redirect` parameter that the calls made read is one of `P`. -/
def ReadsOnly (P : Option String → Prop) (calls : ι → PageCall)
    (as : List (Label ι AuthAnswer ℤ)) : Prop :=
  ∀ i redirect, .call i ∈ as → (calls i).redirect = some redirect → P redirect

/-- Call `i` sends the browser to `target`. -/
def Navigates (calls : ι → PageCall) (l : SessionLoop ι) (i : ι) (target : String) : Prop :=
  ∃ result, l.result i = some (.ok result) ∧ (calls i).target result = some target

section Application

variable {Host : Type} (parseHost : List Char → Option Host) (app : WebOrigin Host)

/-- On a page of the application the target resolves to its origin. -/
def StaysOn (target : String) : Prop :=
  resolve parseHost app.toOrigin target = some app.toOrigin

/-- In every session that begins without a stored redirect and reads parameters of `P` only,
the browser is sent to the origin of the application. -/
def RedirectsStay (browser : Browser) (P : Option String → Prop) : Prop :=
  ∀ (ι : Type) [DecidableEq ι] (calls : ι → PageCall) (m₀ : Tab)
    (as : List (Label ι AuthAnswer ℤ)) (l : SessionLoop ι),
    m₀.storage.postLoginRedirect = none → PageReach browser calls m₀ as l →
    ReadsOnly P calls as → ∀ i target, Navigates calls l i target → StaysOn parseHost app target

/-- The parameter names a place of the application, or no place. -/
def LocalRedirect (redirect : Option String) : Prop :=
  KeepsOrigin parseHost app.toOrigin (clean (redirectTarget redirect).toList)

end Application

end GoAnalyze
