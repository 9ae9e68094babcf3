import Wallow.Bff.Cookies
import Wallow.Bff.Session
import Mathlib.Data.List.Infix

/-!
# `proxyRequest`

One request through the proxy, from its cookies to the `Set-Cookie` lines of its answer.  The
session store and the API are what they answer: a run is determined by the answers to the store
calls and to the two forward attempts, and every store gives some such answers.
-/

namespace Wallow.Bff

/-! ## What the proxy is answered -/

structure StoredSession where
  session : BffSession
  ref : String
  deriving DecidableEq

/-- A `RefreshFailedError`, or any other throw. -/
inductive RefreshError where
  | refreshFailed
  | fault
  deriving DecidableEq

/-- How `withRefreshLock` and the calls around it go. -/
inductive LockAnswer where
  /-- The lock is acquired: the exchange, then `write` of the rotated session, then the release;
  `none` and `false` where the call throws. -/
  | ran (exchange : Option TokenResponse) (written : Option String) (released : Bool)
  /-- A refresh in flight is joined. -/
  | joined (settled : Except RefreshError StoredSession)
  /-- The lock is declined and the session is read again; `none` where the read throws. -/
  | declined (peer : Option (Option BffSession))
  | fault
  deriving DecidableEq

/-- What the proxy reads of an upstream response. -/
structure UpstreamResponse where
  status : Nat
  location : Option String
  setCookie : List SetCookie
  deriving DecidableEq

inductive UpstreamAnswer where
  | response (r : UpstreamResponse)
  | timeout
  | networkFailure
  deriving DecidableEq

/-- What the proxy reads of the request, besides its cookies: whether the path is served, the
method and CSRF header, whether the joined target stays inside the API base, and whether the body
can be read. -/
structure ProxiedRequest where
  served : Bool
  method : String
  csrfHeader : Option String
  inside : Bool
  bodyReadable : Bool

/-- The answers of the store and of the API, in the order the proxy asks; `none` is a throw. -/
structure Answers where
  stored : Option (Option BffSession)
  now : Int
  proactive : LockAnswer
  proactiveNow : Int
  writeBack : Option String
  first : UpstreamAnswer
  reactive : LockAnswer
  reactiveNow : Int
  second : UpstreamAnswer
  destroyed : Bool

/-- The parts of a response that matter here; `code` is the problem code of a local answer. -/
structure Response where
  status : Nat
  code : Option String
  setCookie : List SetCookie
  deriving DecidableEq

/-! ## Upstream responses -/

def UNAUTHORIZED_STATUS : Nat := 401
def FORBIDDEN_STATUS : Nat := 403
def NOT_FOUND_STATUS : Nat := 404
def TOO_MANY_REQUESTS_STATUS : Nat := 429
def NETWORK_FAILURE_STATUS : Nat := 503
def GATEWAY_TIMEOUT_STATUS : Nat := 504
def REDIRECT_STATUS_MIN : Nat := 300
def REDIRECT_STATUS_MAX : Nat := 400
def LOGIN_PATH : String := "/account/login"

def UpstreamResponse.ok (r : UpstreamResponse) : Bool := 200 ≤ r.status && r.status < 300

def isRedirect (r : UpstreamResponse) : Bool :=
  REDIRECT_STATUS_MIN ≤ r.status && r.status < REDIRECT_STATUS_MAX

def isAuthFailure (r : UpstreamResponse) : Bool :=
  r.status == UNAUTHORIZED_STATUS ||
    isRedirect r && decide (LOGIN_PATH.toList <:+: ((r.location.getD "").toLower).toList)

/-! ## Refresh -/

def refreshUnderLock (session : BffSession) (ref : String) (now : Int) :
    LockAnswer → Except RefreshError StoredSession
  | .ran none _ released => .error (if released then .refreshFailed else .fault)
  | .ran (some _) none _ => .error .fault
  | .ran (some tokens) (some nextRef) released =>
    if released then .ok ⟨rotated session tokens now, nextRef⟩ else .error .fault
  | .joined settled => settled
  | .declined none => .error .fault
  | .declined (some none) => .error .refreshFailed
  | .declined (some (some peer)) => .ok ⟨peer, ref⟩
  | .fault => .error .fault

def ensureFreshSession (session : BffSession) (ref : String) (answers : Answers) :
    Except RefreshError BffSession :=
  if isFresh session answers.now then .ok session
  else if hasRefreshToken session then
    (refreshUnderLock session ref answers.proactiveNow answers.proactive).map (·.session)
  else .error .refreshFailed

/-! ## Forwarding -/

/-- What `forwardWithResilience` throws. -/
inductive ForwardError where
  | refresh (error : RefreshError)
  /-- An `UpstreamError`, which still carries its response. -/
  | upstream (r : UpstreamResponse)
  /-- Any other `ApiFailure`. -/
  | failure (status : Nat) (code : String)
  deriving DecidableEq

/-- The classification of the last attempt's answer. -/
def settle (current : StoredSession) :
    UpstreamAnswer → Except ForwardError (UpstreamResponse × StoredSession)
  | .timeout => .error (.failure GATEWAY_TIMEOUT_STATUS "Transport.Timeout")
  | .networkFailure => .error (.failure NETWORK_FAILURE_STATUS "Transport.NetworkError")
  | .response r =>
    if r.ok then .ok (r, current)
    else if isRedirect r && !isAuthFailure r then .ok (r, current)
    else if isAuthFailure r && r.status != UNAUTHORIZED_STATUS then
      .error (.failure UNAUTHORIZED_STATUS "Auth.Unauthenticated")
    else .error (.upstream r)

/-- Whether the first answer sends the proxy to its reactive refresh. -/
def refreshesReactively (session : BffSession) : UpstreamAnswer → Bool
  | .response r => isAuthFailure r && hasRefreshToken session
  | _ => false

def forwardWithResilience (session : BffSession) (ref : String) (answers : Answers) :
    Except ForwardError (UpstreamResponse × StoredSession) :=
  match answers.first with
  | .response r =>
    if isAuthFailure r && hasRefreshToken session then
      match refreshUnderLock session ref answers.reactiveNow answers.reactive with
      | .error error => .error (.refresh error)
      | .ok current => settle current answers.second
    else if r.status == TOO_MANY_REQUESTS_STATUS then settle ⟨session, ref⟩ answers.second
    else settle ⟨session, ref⟩ answers.first
  | _ => settle ⟨session, ref⟩ answers.first

/-! ## The request -/

def problemResponse (status : Nat) (code : String) (cookies : List SetCookie) : Response :=
  ⟨status, some code, cookies⟩

def refreshFaultResponse (cookies : List SetCookie) : Response :=
  problemResponse UNAUTHORIZED_STATUS "Bff.SessionRefreshFailed" cookies

/-- `none` where `store.destroy` throws. -/
def tearDownDeadSession (config : CookieConfig) (jar : Jar) (answers : Answers)
    (cookies : List SetCookie) : Option Response :=
  if answers.destroyed then
    some (problemResponse UNAUTHORIZED_STATUS "Bff.SessionRefreshFailed"
      (cookies ++ clearSession jar config))
  else none

/-- The gates before anything is refreshed: the session and its reference, or the answer that ends
the request. -/
def gate (config : CookieConfig) (jar : Jar) (req : ProxiedRequest) (answers : Answers) :
    Except (Option Response) (BffSession × String) :=
  if !req.served then .error (some (problemResponse NOT_FOUND_STATUS "Http.NotFound" []))
  else
    match readSessionRef jar config with
    | none => .error (some (problemResponse UNAUTHORIZED_STATUS "Bff.SessionMissing" []))
    | some ref =>
      match answers.stored with
      | none => .error none
      | some none => .error (some (problemResponse UNAUTHORIZED_STATUS "Bff.SessionMissing" []))
      | some (some session) =>
        if isStateChangingMethod req.method &&
            !csrfTokenMatches session.csrfToken req.csrfHeader then
          .error (some (problemResponse FORBIDDEN_STATUS "Bff.CsrfInvalid" []))
        else .ok (session, ref)

/-- `proxyRequest` buffers the body of any other method. -/
def readsBody (method : String) : Bool := method.toUpper != "GET" && method.toUpper != "HEAD"

/-- Re-seal the cookie only when the session actually changed: the reference the session now lives
under and the lines written, `none` where the store throws. -/
def writeBackChanged (config : CookieConfig) (session fresh : BffSession) (ref : String)
    (answers : Answers) : Option (String × List SetCookie) :=
  if changed session fresh then
    answers.writeBack.map fun written => (written, writeSessionRef config written)
  else some (ref, [])

/-- From the upstream target to the answer, with the cookies written so far. -/
def forwardRequest (config : CookieConfig) (jar : Jar) (req : ProxiedRequest) (answers : Answers)
    (fresh : BffSession) (currentRef : String) (cookies : List SetCookie) : Option Response :=
  if !req.inside then some (problemResponse NOT_FOUND_STATUS "Http.NotFound" cookies)
  else if readsBody req.method && !req.bodyReadable then none
  else
    match forwardWithResilience fresh currentRef answers with
    | .error (.refresh .refreshFailed) => tearDownDeadSession config jar answers cookies
    | .error (.refresh .fault) => some (refreshFaultResponse cookies)
    | .error (.upstream r) => some ⟨r.status, none, r.setCookie ++ cookies⟩
    | .error (.failure status code) => some (problemResponse status code cookies)
    | .ok (upstream, current) =>
      let cookies' := if changed fresh current.session then
        cookies ++ writeSessionRef config current.ref else cookies
      some ⟨upstream.status, none, upstream.setCookie ++ cookies'⟩

/-- `none` where the proxy throws and the host answers in its place. -/
def proxyRequest (config : CookieConfig) (jar : Jar) (req : ProxiedRequest) (answers : Answers) :
    Option Response :=
  match gate config jar req answers with
  | .error response => response
  | .ok (session, ref) =>
    match ensureFreshSession session ref answers with
    | .error .refreshFailed => tearDownDeadSession config jar answers []
    | .error .fault => some (refreshFaultResponse [])
    | .ok fresh =>
      match writeBackChanged config session fresh ref answers with
      | none => none
      | some (currentRef, cookies) =>
        forwardRequest config jar req answers fresh currentRef cookies

end Wallow.Bff
