import Wallow.Lib.Transition
import Wallow.Primitives
import Mathlib.Data.List.Perm.Basic

/-!
# Deactivating a user

`DeactivateUserAsync` of `UserManagementService.cs` with `AccessRevoker.RevokeUserAsync`, and the
code and refresh exchanges of `TokenController.cs`, cut at their store calls.  An exchange validates
what it is presented before the controller runs and stores the new tokens after it.
-/

namespace Wallow.Identity

open Transition

/-! ## Tokens and authorizations of the user -/

inductive TokenKind
  | authorizationCode
  | refreshToken
  | accessToken
  deriving DecidableEq

inductive TokenStatus
  | valid
  | redeemed
  | revoked
  deriving DecidableEq

/-- The entry of a token; each update changes its version. -/
structure TokenEntry where
  kind : TokenKind
  authorizationId : Option Nat
  status : TokenStatus
  version : Nat
  deriving DecidableEq

structure AuthorizationEntry where
  adHoc : Bool
  valid : Bool
  deriving DecidableEq

/-- A token entry as a call has read it. -/
structure ReadToken where
  id : Nat
  status : TokenStatus
  version : Nat
  deriving DecidableEq

structure AccountUser where
  lockoutEnabled : Bool
  /-- `LockoutEnd` is the end of time. -/
  lockedOut : Bool
  isGlobalAdmin : Bool
  deriving DecidableEq

/-! ## Calls -/

inductive DeactivationStage
  | idle
  | userFound
  | lockoutEnabled
  /-- The lockout is written; the authorizations are read next. -/
  | lockedOut
  | authorizations (rest revokedTokenIds : List Nat)
  | authorizationTokens (authorization : Nat) (tokens : List ReadToken)
      (rest revokedTokenIds : List Nat)
  | tokens (tokens : List ReadToken) (revokedTokenIds : List Nat)
  /-- The memberships are read and the streams disconnected. -/
  | disconnecting
  | completed
  | failed
  deriving DecidableEq

inductive ExchangeStage
  | presented
  /-- The entry of the token was found acceptable; its authorization is read next. -/
  | tokenAccepted (read : ReadToken)
  | validated (read : ReadToken)
  | userFound (read : ReadToken)
  | admitted (read : ReadToken)
  | redeemed
  | accessTokenStored
  | finished
  | refused
  deriving DecidableEq

/-- An exchange: what it presents, the `org_id` of its principal, and whether its scopes ask for a
refresh token. -/
structure TokenExchange where
  token : Nat
  organizationId : Option Guid
  offlineAccess : Bool
  stage : ExchangeStage
  deriving DecidableEq

structure UserTokens where
  user : Option AccountUser
  activeMemberships : List Guid
  authorizations : List AuthorizationEntry
  tokens : List TokenEntry
  deactivation : DeactivationStage
  /-- The user was activated after the deactivation was complete. -/
  reactivated : Bool
  exchanges : List TokenExchange
  deriving DecidableEq

inductive UserMove
  /-- The next call of the deactivation: whether a save of the user is taken, whose result is not
  looked at, and the order in which a query answers. -/
  | deactivate (saved : Bool) (order : List Nat)
  | abortDeactivation
  | present (token : Nat) (organizationId : Option Guid) (offlineAccess : Bool)
  /-- The next call of an exchange; `accepted` where the store or the time lets it go on. -/
  | exchange (i : Nat) (accepted : Bool)
  | abortExchange (i : Nat)
  | activateUser
  | setMemberships (activeMemberships : List Guid)
  deriving DecidableEq

namespace UserTokens

def readToken (s : UserTokens) (id : Nat) : Option ReadToken :=
  s.tokens[id]?.map fun entry => ⟨id, entry.status, entry.version⟩

def setStatus (s : UserTokens) (read : ReadToken) (status : TokenStatus) : UserTokens :=
  match s.tokens[read.id]? with
  | none => s
  | some entry =>
    -- the concurrency token of what was read
    if entry.version = read.version then
      { s with
        tokens := s.tokens.set read.id
          { entry with status := status, version := entry.version + 1 } }
    else s

/-- `TryRevokeAsync`, whose result is not looked at. -/
def tryRevoke (s : UserTokens) (read : ReadToken) : UserTokens :=
  if read.status = .revoked then s else s.setStatus read .revoked

def enterDeactivation (s : UserTokens) (stage : DeactivationStage) : UserTokens :=
  { s with deactivation := stage }

/-- The ids of the tokens of an authorization. -/
def tokensOf (s : UserTokens) (authorization : Nat) : List Nat :=
  (List.range s.tokens.length).filter fun id =>
    (s.tokens[id]?.bind TokenEntry.authorizationId) = some authorization

def adHocAuthorizations (s : UserTokens) : List Nat :=
  (List.range s.authorizations.length).filter fun id =>
    (s.authorizations[id]?.map AuthorizationEntry.adHoc) = some true

def revokeAuthorization (s : UserTokens) (authorization : Nat) : UserTokens :=
  { s with
    authorizations := s.authorizations.modify authorization fun entry =>
      { entry with valid := false } }

/-- The next call of `DeactivateUserAsync`. -/
def deactivate (s : UserTokens) (saved : Bool) (order : List Nat) : Option UserTokens :=
  match s.deactivation with
  | .idle => some (s.enterDeactivation (if s.user.isSome then .userFound else .failed))
  | .userFound =>
    some { s with
      user := if saved then s.user.map ({ · with lockoutEnabled := true }) else s.user
      deactivation := .lockoutEnabled }
  | .lockoutEnabled =>
    some { s with
      user := if saved then s.user.map ({ · with lockedOut := true }) else s.user
      deactivation := .lockedOut }
  | .lockedOut =>
    if order.Perm s.adHocAuthorizations then
      some (s.enterDeactivation (.authorizations order []))
    else none
  | .authorizations (authorization :: rest) revokedTokenIds =>
    if order.Perm (s.tokensOf authorization) then
      some (s.enterDeactivation (.authorizationTokens authorization
        (order.filterMap s.readToken) rest revokedTokenIds))
    else none
  | .authorizationTokens authorization (read :: tokens) rest revokedTokenIds =>
    let stage := fun ids => .authorizationTokens authorization tokens rest ids
    if read.id ∈ revokedTokenIds then some (s.enterDeactivation (stage revokedTokenIds))
    else some ((s.tryRevoke read).enterDeactivation (stage (read.id :: revokedTokenIds)))
  | .authorizationTokens authorization [] rest revokedTokenIds =>
    some ((s.revokeAuthorization authorization).enterDeactivation
      (.authorizations rest revokedTokenIds))
  | .authorizations [] revokedTokenIds =>
    if order.Perm (List.range s.tokens.length) then
      some (s.enterDeactivation (.tokens (order.filterMap s.readToken) revokedTokenIds))
    else none
  | .tokens (read :: tokens) revokedTokenIds =>
    if read.id ∈ revokedTokenIds then
      some (s.enterDeactivation (.tokens tokens revokedTokenIds))
    else some ((s.tryRevoke read).enterDeactivation (.tokens tokens (read.id :: revokedTokenIds)))
  | .tokens [] _ => some (s.enterDeactivation .disconnecting)
  | .disconnecting => some (s.enterDeactivation .completed)
  | .completed | .failed => none

def enterExchange (s : UserTokens) (i : Nat) (exchange : TokenExchange) (stage : ExchangeStage) :
    UserTokens :=
  { s with exchanges := s.exchanges.set i { exchange with stage := stage } }

/-- The entry of a code or refresh token that validation accepts: a redeemed refresh token only
within its leeway. -/
def acceptable (entry : TokenEntry) (withinLeeway : Bool) : Bool :=
  match entry.kind, entry.status with
  | .authorizationCode, .valid | .refreshToken, .valid => true
  | .refreshToken, .redeemed => withinLeeway
  | _, _ => false

/-- The new tokens stand under the authorization of the presented one. -/
def storeToken (s : UserTokens) (exchange : TokenExchange) (kind : TokenKind) : UserTokens :=
  { s with
    tokens := s.tokens ++
      [⟨kind, s.tokens[exchange.token]?.bind TokenEntry.authorizationId, .valid, 0⟩] }

/-- An active membership, which a global administrator does not need. -/
def admits (s : UserTokens) (user : AccountUser) (organizationId : Option Guid) : Bool :=
  match organizationId with
  | none => true
  | some organizationId => user.isGlobalAdmin || decide (organizationId ∈ s.activeMemberships)

/-- The next call of an exchange. -/
def exchangeNext (s : UserTokens) (i : Nat) (accepted : Bool) (exchange : TokenExchange) :
    Option UserTokens :=
  match exchange.stage with
  | .presented =>
    some (s.enterExchange i exchange (match s.tokens[exchange.token]? with
      | none => .refused
      | some entry =>
        if acceptable entry accepted then
          .tokenAccepted ⟨exchange.token, entry.status, entry.version⟩
        else .refused))
  | .tokenAccepted read =>
    some (s.enterExchange i exchange
      (match s.tokens[exchange.token]?.bind TokenEntry.authorizationId with
      | none => .validated read
      | some authorization =>
        if (s.authorizations[authorization]?.map AuthorizationEntry.valid) = some true then
          .validated read
        else .refused))
  -- `HandleAuthorizationCodeOrRefreshAsync`: whether the user is locked out is not looked at
  | .validated read =>
    some (s.enterExchange i exchange (if s.user.isSome then .userFound read else .refused))
  | .userFound read =>
    some (s.enterExchange i exchange (match s.user with
      | none => .refused
      | some user => if s.admits user exchange.organizationId then .admitted read else .refused))
  | .admitted read =>
    some ((s.setStatus read .redeemed).enterExchange i exchange
      (if accepted then .redeemed else .refused))
  | .redeemed =>
    some ((s.storeToken exchange .accessToken).enterExchange i exchange
      (if exchange.offlineAccess then .accessTokenStored else .finished))
  | .accessTokenStored =>
    some ((s.storeToken exchange .refreshToken).enterExchange i exchange .finished)
  | .finished | .refused => none

def step (s : UserTokens) : UserMove → Option UserTokens
  | .deactivate saved order => s.deactivate saved order
  | .abortDeactivation =>
    match s.deactivation with
    | .completed | .failed => none
    | _ => some (s.enterDeactivation .failed)
  | .present token organizationId offlineAccess =>
    some { s with exchanges := s.exchanges ++ [⟨token, organizationId, offlineAccess, .presented⟩] }
  | .exchange i accepted => s.exchanges[i]?.bind (s.exchangeNext i accepted)
  | .abortExchange i => s.exchanges[i]?.map fun exchange => s.enterExchange i exchange .refused
  | .activateUser =>
    some { s with
      user := s.user.map ({ · with lockoutEnabled := false, lockedOut := false })
      reactivated := s.reactivated || decide (s.deactivation = .completed) }
  | .setMemberships activeMemberships => some { s with activeMemberships := activeMemberships }

/-! ## Orderly steps -/

/-- The exchange is past its validation, and its last token is not stored yet. -/
def isUnderWay : ExchangeStage → Bool
  | .validated _ | .userFound _ | .admitted _ | .redeemed | .accessTokenStored => true
  | .presented | .tokenAccepted _ | .finished | .refused => false

/-- `RevokeUserAsync` has read the tokens of the user. -/
def hasReadTokens : DeactivationStage → Bool
  | .tokens _ _ | .disconnecting | .completed => true
  | _ => false

def isUnderAdHocAuthorization (s : UserTokens) (token : Nat) : Bool :=
  match s.tokens[token]?.bind TokenEntry.authorizationId with
  | none => false
  | some authorization =>
    (s.authorizations[authorization]?.map AuthorizationEntry.adHoc) = some true

/-- No exchange is under way when the tokens are read, and none that presents a token of no ad-hoc
authorization is validated from then on. -/
def orderly (s : UserTokens) : UserMove → Bool
  | .deactivate _ _ =>
    match s.deactivation with
    | .authorizations [] _ => s.exchanges.all fun exchange => !isUnderWay exchange.stage
    | _ => true
  | .exchange i _ =>
    match s.exchanges[i]? with
    | some exchange =>
      match exchange.stage with
      | .tokenAccepted _ =>
        !hasReadTokens s.deactivation || s.reactivated || s.isUnderAdHocAuthorization exchange.token
      | _ => true
    | none => true
  | _ => true

end UserTokens

end Wallow.Identity
