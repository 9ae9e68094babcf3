import Wallow.Lib.Transition
import Wallow.Primitives

/-!
# Single logout

`LogoutController.cs` with the calls of `SsoClientSessionService` and of
`AccessRevoker.RevokeSessionAsync` that it makes, cut at their database statements.  Any number of
logouts and of `RecordAsync` calls run at once.
-/

namespace Wallow.Identity

open Transition

/-! ## Sessions and requests -/

structure SsoSession where
  userId : Guid
  sid : String
  deriving DecidableEq

/-- What a cookie or an `id_token_hint` says; the user id where its text is that of a `Guid`. -/
structure SessionPrincipal where
  userId : Option Guid
  sid : Option String
  deriving DecidableEq

def SessionPrincipal.session (principal : SessionPrincipal) : Option SsoSession :=
  match principal.sid, principal.userId with
  | some sid, some userId => some ⟨userId, sid⟩
  | _, _ => none

inductive LogoutMethod
  /-- Whether the query carries `wallow_fc`, and whether its `post_logout_redirect_uri` is none or
  an allowed one. -/
  | get (completionMarker redirectAllowed : Bool)
  | post
  deriving DecidableEq

structure LogoutRequest where
  method : LogoutMethod
  cookie : SessionPrincipal
  hint : SessionPrincipal
  deriving DecidableEq

namespace LogoutRequest

/-- `ResolveSessionAsync`. -/
def resolveSession (request : LogoutRequest) : Option SsoSession :=
  request.cookie.session.or request.hint.session

/-- The session the request works on: none with the completion marker. -/
def session (request : LogoutRequest) : Option SsoSession :=
  match request.method with
  | .get true _ => none
  | .get false _ | .post => request.resolveSession

/-- The browser is signed out of the session of its cookie; without one, the session of the hint is
ended. -/
def Ends (request : LogoutRequest) (session : SsoSession) : Prop :=
  request.cookie.session = some session ∨ request.session = some session

end LogoutRequest

/-! ## What the database holds -/

structure SsoSessionClient where
  id : Nat
  sid : String
  clientId : String
  userId : Guid
  deriving DecidableEq

structure OidcAuthorization where
  id : Nat
  subject : Guid
  sid : Option String
  deriving DecidableEq

structure OidcToken where
  id : Nat
  authorizationId : Option Nat
  deriving DecidableEq

structure TokenStore where
  authorizations : List OidcAuthorization
  tokens : List OidcToken
  deriving DecidableEq

namespace TokenStore

/-- The authorizations of the user that carry the session. -/
def sessionAuthorizations (store : TokenStore) (session : SsoSession) : List Nat :=
  (store.authorizations.filter fun authorization =>
    authorization.subject = session.userId ∧ authorization.sid = some session.sid).map (·.id)

/-- `FindByAuthorizationIdAsync`. -/
def tokensOf (store : TokenStore) (authorizationId : Nat) : List Nat :=
  (store.tokens.filter (·.authorizationId = some authorizationId)).map (·.id)

/-- The token is one of the session: it was minted under an authorization that carries the `sid`. -/
def Stamped (store : TokenStore) (token : OidcToken) (sid : String) : Prop :=
  ∃ authorization ∈ store.authorizations, token.authorizationId = some authorization.id ∧
    authorization.sid = some sid

end TokenStore

/-- The logout URIs a client is registered with. -/
structure LogoutUris where
  frontchannelLogoutUri : Option String
  backchannelLogoutUri : Option String
  deriving DecidableEq

/-! ## Calls -/

inductive LogoutPhase
  | frontchannelListed
  | backchannelListed
  | nextAuthorization (rest revokedTokenIds : List Nat)
  | revokingTokens (authorization : Nat) (tokens rest revokedTokenIds : List Nat)
  /-- The rows are marked for removal; their save is next. -/
  | deleting (rows : List SsoSessionClient)
  deriving DecidableEq

inductive LogoutStage
  | arrived
  | running (session : SsoSession) (phase : LogoutPhase)
  | completed
  /-- It was sent to the error page, or has failed. -/
  | ended
  deriving DecidableEq

/-- A logout, with the tokens there were at its arrival. -/
structure Logout where
  request : LogoutRequest
  arrival : TokenStore
  stage : LogoutStage
  deriving DecidableEq

inductive RecordStage
  | checking
  | saving
  | finished
  deriving DecidableEq

structure RecordCall where
  sid : String
  clientId : String
  userId : Guid
  stage : RecordStage
  deriving DecidableEq

/-- The database, the calls, and what they have done: `joined` are the participations ever saved,
`frontchannel` and `backchannel` the recipients ever computed. -/
structure SingleLogout where
  rows : List SsoSessionClient
  nextRowId : Nat
  store : TokenStore
  revokedTokens : List Nat
  revokedAuthorizations : List Nat
  logouts : List Logout
  records : List RecordCall
  joined : List (String × String)
  frontchannel : List (String × String)
  backchannel : List (String × String)
  deriving DecidableEq

inductive SloMove
  | arrive (request : LogoutRequest)
  /-- The next statement of a logout: whether a save is taken, and the order in which a query
  answers. -/
  | act (i : Nat) (saved : Bool) (order : List Nat)
  | abort (i : Nat)
  | recordAsync (sid clientId : String) (userId : Guid)
  | record (j : Nat) (saved : Bool)
  | abortRecord (j : Nat)
  | authorize (authorization : OidcAuthorization)
  | issue (token : OidcToken)
  deriving DecidableEq

namespace SingleLogout

section Source

variable (userOf : String → Guid) (applications : String → Option LogoutUris)

def frontchannelLogoutUri? (clientId : String) : Option String :=
  (applications clientId).bind LogoutUris.frontchannelLogoutUri

def backchannelLogoutUri? (clientId : String) : Option String :=
  (applications clientId).bind LogoutUris.backchannelLogoutUri

/-- The clients of the session, each once. -/
def clientIds (s : SingleLogout) (sid : String) : List String :=
  ((s.rows.filter (·.sid = sid)).map (·.clientId)).eraseDups

/-- The clients `BuildLogoutNotificationUrisAsync` builds a URI for. -/
def frontchannelRecipients (s : SingleLogout) (sid : String) : List String :=
  (s.clientIds sid).filter fun clientId => (frontchannelLogoutUri? applications clientId).isSome

/-- `ListBackchannelRecipientsAsync`. -/
def backchannelRecipients (s : SingleLogout) (sid : String) : List String :=
  (s.clientIds sid).filter fun clientId => (backchannelLogoutUri? applications clientId).isSome

def enter (s : SingleLogout) (i : Nat) (logout : Logout) (stage : LogoutStage) : SingleLogout :=
  { s with logouts := s.logouts.set i { logout with stage := stage } }

def listFrontchannel (s : SingleLogout) (sid : String) : SingleLogout :=
  { s with
    frontchannel := s.frontchannel ++ (s.frontchannelRecipients applications sid).map (sid, ·) }

def listBackchannel (s : SingleLogout) (sid : String) : SingleLogout :=
  { s with
    backchannel := s.backchannel ++ (s.backchannelRecipients applications sid).map (sid, ·) }

/-- The first statement of `Logout` or of `LogoutPost`. -/
def start (s : SingleLogout) (i : Nat) (logout : Logout) : SingleLogout :=
  match logout.request.method with
  | .get _ false => s.enter i logout .ended
  | .get _ true =>
    match logout.request.session with
    | none => s.enter i logout .completed
    | some session =>
      (s.listFrontchannel applications session.sid).enter i logout
        (.running session .frontchannelListed)
  | .post =>
    match logout.request.session with
    | none => s.enter i logout .completed
    | some session =>
      (s.listBackchannel applications session.sid).enter i logout
        (.running session .backchannelListed)

/-- The next statement of a logout that has a session. -/
def advance (s : SingleLogout) (i : Nat) (logout : Logout) (session : SsoSession) (saved : Bool)
    (order : List Nat) : LogoutPhase → Option SingleLogout
  | .frontchannelListed =>
    some ((s.listBackchannel applications session.sid).enter i logout
      (.running session .backchannelListed))
  | .backchannelListed =>
    if order.Perm (s.store.sessionAuthorizations session) then
      some (s.enter i logout (.running session (.nextAuthorization order [])))
    else none
  | .nextAuthorization [] _ =>
    -- the cookie is gone; `ForgetAsync` selects the rows anew
    match s.rows.filter (·.sid = session.sid) with
    | [] => some (s.enter i logout .completed)
    | row :: rows => some (s.enter i logout (.running session (.deleting (row :: rows))))
  | .nextAuthorization (authorization :: rest) revokedTokenIds =>
    if order.Perm (s.store.tokensOf authorization) then
      some (s.enter i logout
        (.running session (.revokingTokens authorization order rest revokedTokenIds)))
    else none
  | .revokingTokens authorization [] rest revokedTokenIds =>
    some (({ s with
      revokedAuthorizations :=
        if saved then authorization :: s.revokedAuthorizations
        else s.revokedAuthorizations } : SingleLogout).enter i logout
      (.running session (.nextAuthorization rest revokedTokenIds)))
  | .revokingTokens authorization (token :: tokens) rest revokedTokenIds =>
    if token ∈ revokedTokenIds then
      some (s.enter i logout
        (.running session (.revokingTokens authorization tokens rest revokedTokenIds)))
    else
      -- what `TryRevokeAsync` returns is not looked at
      some (({ s with
        revokedTokens := if saved then token :: s.revokedTokens else s.revokedTokens } :
          SingleLogout).enter i logout
        (.running session
          (.revokingTokens authorization tokens rest (token :: revokedTokenIds))))
  | .deleting rows =>
    -- a row that another logout has deleted fails the save as a whole
    if saved ∧ rows ⊆ s.rows then
      some (({ s with rows := s.rows.filter (· ∉ rows) } : SingleLogout).enter i logout .completed)
    else some (s.enter i logout .ended)

def act (s : SingleLogout) (i : Nat) (saved : Bool) (order : List Nat) (logout : Logout) :
    Option SingleLogout :=
  match logout.stage with
  | .arrived => some (s.start applications i logout)
  | .running session phase => s.advance applications i logout session saved order phase
  | .completed | .ended => none

def hasRow (s : SingleLogout) (sid clientId : String) : Bool :=
  s.rows.any fun row => row.sid = sid ∧ row.clientId = clientId

def enterRecord (s : SingleLogout) (j : Nat) (call : RecordCall) (stage : RecordStage) :
    SingleLogout :=
  { s with records := s.records.set j { call with stage := stage } }

/-- `RecordAsync`: a duplicate row and any other failure of the save are passed over. -/
def recordNext (s : SingleLogout) (j : Nat) (saved : Bool) (call : RecordCall) :
    Option SingleLogout :=
  match call.stage with
  | .checking =>
    some (s.enterRecord j call (if s.hasRow call.sid call.clientId then .finished else .saving))
  | .saving =>
    if saved ∧ s.hasRow call.sid call.clientId = false then
      some (({ s with
        rows := s.rows ++ [⟨s.nextRowId, call.sid, call.clientId, call.userId⟩]
        nextRowId := s.nextRowId + 1
        joined := s.joined ++ [(call.sid, call.clientId)] } : SingleLogout).enterRecord j call
          .finished)
    else some (s.enterRecord j call .finished)
  | .finished => none

/-- A principal names the user its session was minted for. -/
def minted (principal : SessionPrincipal) : Bool :=
  principal.session.all fun session => session.userId = userOf session.sid

def step (s : SingleLogout) : SloMove → Option SingleLogout
  | .arrive request =>
    if minted userOf request.cookie ∧ minted userOf request.hint then
      some { s with logouts := s.logouts ++ [⟨request, s.store, .arrived⟩] }
    else none
  | .act i saved order => s.logouts[i]?.bind (s.act applications i saved order)
  | .abort i => s.logouts[i]?.bind fun logout =>
    match logout.stage with
    | .completed | .ended => none
    | .arrived | .running _ _ => some (s.enter i logout .ended)
  | .recordAsync sid clientId userId =>
    some { s with records := s.records ++ [⟨sid, clientId, userId, .checking⟩] }
  | .record j saved => s.records[j]?.bind (s.recordNext j saved)
  | .abortRecord j => s.records[j]?.map fun call => s.enterRecord j call .finished
  | .authorize authorization =>
    if authorization.sid.all fun sid => authorization.subject = userOf sid then
      some { s with
        store := { s.store with
          authorizations := s.store.authorizations ++ [authorization] } }
    else none
  | .issue token =>
    some { s with store := { s.store with tokens := s.store.tokens ++ [token] } }

/-! ## Orderly steps -/

/-- The rows are not selected yet. -/
def listedFrontchannel : LogoutPhase → Bool
  | .deleting _ => false
  | _ => true

def listedBackchannel : LogoutPhase → Bool
  | .frontchannelListed | .deleting _ => false
  | _ => true

/-- The client joins a session that a logout has already listed the recipients of, in a channel the
client is registered for, and has not selected the rows of. -/
def joinsLate (logout : Logout) (sid clientId : String) : Bool :=
  match logout.stage with
  | .running session phase =>
    decide (session.sid = sid) &&
      (listedFrontchannel phase && decide (logout.request.method ≠ .post) &&
          (frontchannelLogoutUri? applications clientId).isSome ||
        listedBackchannel phase && (backchannelLogoutUri? applications clientId).isSome)
  | _ => false

/-- No browser that has a session comes with the completion marker, no revocation of a token fails,
no client joins late, and no POST ends a session with a front-channel client. -/
def orderly (s : SingleLogout) : SloMove → Bool
  | .arrive request =>
    match request.method with
    | .get true _ => request.cookie.session.isNone
    | _ => true
  | .act i saved _ =>
    match s.logouts[i]? with
    | some ⟨request, _, .running session phase⟩ =>
      match phase with
      | .revokingTokens _ (_ :: _) _ _ => saved
      | .nextAuthorization [] _ => decide (request.method ≠ .post) ||
        s.rows.all fun row =>
          decide (row.sid ≠ session.sid) ||
            (frontchannelLogoutUri? applications row.clientId).isNone
      | _ => true
    | _ => true
  | .record j saved =>
    match s.records[j]? with
    | some call => !saved || s.hasRow call.sid call.clientId ||
      s.logouts.all fun logout => !joinsLate applications logout call.sid call.clientId
    | none => true
  | _ => true

end Source

end SingleLogout

end Wallow.Identity
