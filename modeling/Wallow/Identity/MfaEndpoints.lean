import Wallow.Identity.Errors
import Wallow.Identity.SignIn
import Mathlib.Logic.Function.Basic

/-!
# The MFA endpoints

`MfaController.cs`, `VerifyMfaChallenge` and `ExchangeTicket` of `AccountController.cs`, with
`MfaLockoutService.cs` and `MfaPartialAuthService.cs`, and the browser of someone who calls them in
any order.  The MFA partial-auth cookie that `Login` hands out is accepted by several of them.
-/

namespace Wallow.Identity

/-! ## The server and what it hands out -/

structure EnrollmentToken where
  userId : Guid
  email : String
  expiresAt : Nat
  deriving DecidableEq

/-- The identity tables and the keys in Redis. -/
structure AuthServer where
  store : IdentityStore
  usedTickets : List Guid
  /-- `mfa:lockout:` keys, in unix seconds. -/
  mfaLockouts : Guid → Option Nat

/-- What a request carries: the user of its application cookie, and the partial-auth cookie. -/
structure Presented where
  principal : Option Guid
  partialAuth : Option MfaPartialAuthPayload
  deriving DecidableEq

/-- What an answer hands out. -/
structure Handed where
  cookie : Option Guid := none
  partialAuth : Option MfaPartialAuthPayload := none
  ticket : Option SignInTicket := none
  enrollmentToken : Option EnrollmentToken := none
  secret : Option String := none
  backupCodes : List String := []
  deriving DecidableEq

inductive Refusal
  | problem (entry : ErrorCatalogEntry)
  | unauthorized
  | exception
  deriving DecidableEq

abbrev Answer := Except Refusal Handed

def ENROLLMENT_TOKEN_LIFETIME : Nat := 60 * TICKS_PER_SECOND
def MAX_MFA_ATTEMPTS : Nat := 5

def problem (entry : ErrorCatalogEntry) : Answer := .error (.problem entry)

/-- `ValidatePartialCookieAsync`. -/
def validatePartialCookie (presented : Presented) (now : Nat) : Option MfaPartialAuthPayload :=
  presented.partialAuth.filter (now ≤ ·.expiresAt)

/-- `ResolveEnrollmentUserIdAsync`: the principal when there is one, else the partial cookie. -/
def resolveEnrollmentUserId (presented : Presented) (now : Nat) : Option Guid :=
  match presented.principal with
  | some userId => some userId
  | none => (validatePartialCookie presented now).map (·.userId)

namespace AuthServer

variable (platform : Platform) (server : AuthServer)

/-- `UpdateAsync`; a row that fails it stays as it was. -/
def updateAsync (user : WallowUser) (updateSucceeds : Bool) : AuthServer :=
  if updateSucceeds then { server with store := server.store.updateUser user } else server

/-- `MfaLockoutService.ResetAsync`. -/
def resetMfaLockout (userId : Guid) : AuthServer :=
  let store := match server.store.findById userId with
    | none => server.store
    | some user => server.store.updateUser user.resetMfaLockout
  { server with store, mfaLockouts := Function.update server.mfaLockouts userId none }

/-- `MfaLockoutService.RecordFailureAsync` for a user who exists: whether they are locked out;
`none` where it throws. -/
def recordMfaFailure (user : WallowUser) (now : Nat) : Option Bool × AuthServer :=
  -- the cached lockout is asked before the row, and counts no failure
  if (server.mfaLockouts user.id).any (now < · * TICKS_PER_SECOND) then (some true, server)
  else
    match user.recordMfaFailure MAX_MFA_ATTEMPTS now with
    | none => (none, server)
    | some user =>
      let server := { server with store := server.store.updateUser user }
      if user.isMfaLockedOut now then
        let unixSeconds := user.mfaLockoutEnd.map (· / TICKS_PER_SECOND)
        (some true,
          { server with mfaLockouts := Function.update server.mfaLockouts user.id unixSeconds })
      else (some false, server)

/-! ## Sign-in -/

/-- `Login`, as the server keeps it. -/
def login (email password : String) (rememberMe : Bool) (jti : Guid) (now : Nat) :
    Answer × AuthServer :=
  let (answer, store) := Identity.login platform server.store email password rememberMe jti now
  (match answer with
    | .invalidCredentials => problem IdentityErrors.authInvalidCredentials
    | .lockedOut => problem IdentityErrors.authLockedOut
    | .emailNotConfirmed => problem IdentityErrors.authEmailNotConfirmed
    | .mfaRequired cookie => .ok { partialAuth := some cookie }
    | .mfaEnrollmentRequired cookie => .ok { partialAuth := some cookie }
    | .succeeded ticket _ => .ok { ticket := some ticket },
    { server with store })

/-- What `VerifyMfaChallenge` does once the code is right. -/
def completeMfaChallenge (payload : MfaPartialAuthPayload) (user : WallowUser) (jti : Guid)
    (now : Nat) : Answer × AuthServer :=
  let server := server.resetMfaLockout user.id
  (.ok
    { cookie := (server.store.findById payload.userId).map (·.id)
      ticket := user.email.map (createSignInTicket · payload.rememberMe jti now) },
    server)

def verifyMfaChallenge (presented : Presented) (code : String) (jti : Guid)
    (updateSucceeds : Bool) (now : Nat) : Answer × AuthServer :=
  match validatePartialCookie presented now with
  | none => (problem IdentityErrors.mfaSessionMissing, server)
  | some payload =>
    match server.store.findById payload.userId with
    | none => (problem IdentityErrors.mfaCodeInvalid, server)
    | some user =>
      match user.totpSecretEncrypted.filter (· ≠ "") with
      | none => (problem IdentityErrors.mfaCodeInvalid, server)
      | some secret =>
        if user.isMfaLockedOut now then (problem IdentityErrors.mfaLockedOut, server)
        else
          match platform.validateTotp secret code now with
          | none => (.error .exception, server)
          | some true => server.completeMfaChallenge payload user jti now
          | some false =>
            match platform.redeemBackupCode user code with
            | some remaining =>
              -- whether the update went through is not looked at
              (server.updateAsync (user.setBackupCodes remaining) updateSucceeds).completeMfaChallenge
                payload user jti now
            | none =>
              let (lockedOut, server) := server.recordMfaFailure user now
              (match lockedOut with
                | none => .error .exception
                | some true => problem IdentityErrors.mfaLockedOut
                | some false => problem IdentityErrors.mfaCodeInvalid, server)

def exchangeTicket (ticket : SignInTicket) (now : Nat) : Answer × AuthServer :=
  let (user, usedTickets) :=
    Identity.exchangeTicket platform server.store server.usedTickets ticket now
  (match user with
    | some user => .ok { cookie := some user.id }
    | none =>
      problem (if now ≤ ticket.expiresAt && ticket.jti ∈ server.usedTickets then
        IdentityErrors.authTicketAlreadyUsed
      else IdentityErrors.authTicketInvalid),
    { server with usedTickets })

/-! ## Enrollment -/

/-- `EnrollTotp`; the secret is drawn fresh and stored nowhere. -/
def enrollTotp (presented : Presented) (secret : String) (now : Nat) : Answer × AuthServer :=
  match resolveEnrollmentUserId presented now with
  | none => (problem IdentityErrors.mfaSessionMissing, server)
  | some _ => (.ok { secret := some secret }, server)

/-- `ConfirmEnrollment`.  It asks neither whether MFA is enabled already nor where the secret comes
from. -/
def confirmEnrollment (presented : Presented) (secret code : String) (backupCodes : List String)
    (updateSucceeds : Bool) (now : Nat) : Answer × AuthServer :=
  match resolveEnrollmentUserId presented now with
  | none => (problem IdentityErrors.mfaSessionMissing, server)
  | some userId =>
    match platform.validateTotp secret code now with
    | none => (.error .exception, server)
    | some false => (problem IdentityErrors.mfaCodeInvalid, server)
    | some true =>
      match server.store.findById userId with
      | none => (problem IdentityErrors.userNotFound, server)
      | some user =>
        match user.enableMfa secret with
        | none => (.error .exception, server)
        | some user =>
          let user := user.setBackupCodes (backupCodes.map platform.sha256Hex)
          if !updateSucceeds then (problem IdentityErrors.mfaUpdateFailed, server)
          else
            let server := server.updateAsync user true
            -- only an enrollment on the way in signs in
            match validatePartialCookie presented now with
            | none => (.ok { backupCodes }, server)
            | some _ =>
              (.ok { backupCodes, cookie := (server.store.findById userId).map (·.id) }, server)

def issueEnrollmentToken (principal : Option Guid) (email : Option String) (now : Nat) :
    Answer × AuthServer :=
  match principal with
  | none => (.error .unauthorized, server)
  | some userId =>
    match email.filter (· ≠ "") with
    | none => (problem IdentityErrors.authEmailClaimMissing, server)
    | some email =>
      (.ok { enrollmentToken := some ⟨userId, email, now + ENROLLMENT_TOKEN_LIFETIME⟩ }, server)

def exchangeEnrollmentToken (token : EnrollmentToken) (now : Nat) : Answer × AuthServer :=
  if token.expiresAt < now then (problem IdentityErrors.mfaEnrollmentTokenInvalid, server)
  else
    (.ok { partialAuth := some ⟨token.userId, token.email, "web_settings", false, now,
      now + PARTIAL_COOKIE_LIFETIME⟩ }, server)

/-! ## Settings -/

/-- `CheckPasswordAsync`. -/
def checkPassword (user : WallowUser) (password : String) : Bool :=
  user.passwordHash.any (platform.verifyHashedPassword · password)

def disable (principal : Option Guid) (password : String) (updateSucceeds : Bool) :
    Answer × AuthServer :=
  match principal with
  | none => (.error .unauthorized, server)
  | some userId =>
    match server.store.findById userId with
    | none => (problem IdentityErrors.userNotFound, server)
    | some user =>
      if !checkPassword platform user password then
        (problem IdentityErrors.mfaPasswordInvalid, server)
      else if !user.mfaEnabled then (problem IdentityErrors.mfaNotEnabled, server)
      else (.ok {}, server.updateAsync user.disableMfa updateSucceeds)

def regenerateBackupCodes (principal : Option Guid) (password : String)
    (backupCodes : List String) (updateSucceeds : Bool) : Answer × AuthServer :=
  match principal with
  | none => (.error .unauthorized, server)
  | some userId =>
    match server.store.findById userId with
    | none => (problem IdentityErrors.userNotFound, server)
    | some user =>
      if !checkPassword platform user password then
        (problem IdentityErrors.mfaPasswordInvalid, server)
      else
        (.ok { backupCodes }, server.updateAsync
          (user.setBackupCodes (backupCodes.map platform.sha256Hex)) updateSucceeds)

/-- `AdminDisableMfa`: any signed-in user may call it. -/
def adminDisableMfa (principal : Option Guid) (userId : Guid) (updateSucceeds : Bool) :
    Answer × AuthServer :=
  match principal with
  | none => (.error .unauthorized, server)
  | some _ =>
    match server.store.findById userId with
    | none => (problem IdentityErrors.userNotFound, server)
    | some user => (.ok {}, server.updateAsync user.disableMfa updateSucceeds)

/-- `AdminClearLockout`; an account that cannot be locked out keeps its `LockoutEnd`. -/
def adminClearLockout (principal : Option Guid) (userId : Guid) : Answer × AuthServer :=
  match principal with
  | none => (.error .unauthorized, server)
  | some _ =>
    match server.store.findById userId with
    | none => (problem IdentityErrors.userNotFound, server)
    | some user =>
      let user := { user with
        lockoutEnd := if user.lockoutEnabled then none else user.lockoutEnd
        accessFailedCount := 0 }
      (.ok {}, (server.updateAsync user true).resetMfaLockout user.id)

end AuthServer

/-! ## Someone's browser -/

inductive MfaRequest
  | login (email password : String) (rememberMe : Bool) (jti : Guid)
  | verifyMfaChallenge (presented : Presented) (code : String) (jti : Guid)
      (updateSucceeds : Bool)
  | exchangeTicket (ticket : SignInTicket)
  | enrollTotp (presented : Presented) (secret : String)
  | confirmEnrollment (presented : Presented) (secret code : String) (backupCodes : List String)
      (updateSucceeds : Bool)
  | issueEnrollmentToken (principal : Option Guid) (email : Option String)
  | exchangeEnrollmentToken (token : EnrollmentToken)
  | disable (principal : Option Guid) (password : String) (updateSucceeds : Bool)
  | regenerateBackupCodes (principal : Option Guid) (password : String)
      (backupCodes : List String) (updateSucceeds : Bool)
  | adminDisableMfa (principal : Option Guid) (userId : Guid) (updateSucceeds : Bool)
  | adminClearLockout (principal : Option Guid) (userId : Guid)
  deriving DecidableEq

def AuthServer.serve (platform : Platform) (server : AuthServer) (now : Nat) :
    MfaRequest → Answer × AuthServer
  | .login email password rememberMe jti =>
    server.login platform email password rememberMe jti now
  | .verifyMfaChallenge presented code jti updateSucceeds =>
    server.verifyMfaChallenge platform presented code jti updateSucceeds now
  | .exchangeTicket ticket => server.exchangeTicket platform ticket now
  | .enrollTotp presented secret => server.enrollTotp presented secret now
  | .confirmEnrollment presented secret code backupCodes updateSucceeds =>
    server.confirmEnrollment platform presented secret code backupCodes updateSucceeds now
  | .issueEnrollmentToken principal email => server.issueEnrollmentToken principal email now
  | .exchangeEnrollmentToken token => server.exchangeEnrollmentToken token now
  | .disable principal password updateSucceeds =>
    server.disable platform principal password updateSucceeds
  | .regenerateBackupCodes principal password backupCodes updateSucceeds =>
    server.regenerateBackupCodes platform principal password backupCodes updateSucceeds
  | .adminDisableMfa principal userId updateSucceeds =>
    server.adminDisableMfa principal userId updateSucceeds
  | .adminClearLockout principal userId => server.adminClearLockout principal userId

/-- The server, and what the caller was ever handed: nothing is given back. -/
structure MfaState where
  server : AuthServer
  cookies : List Guid
  partials : List MfaPartialAuthPayload
  tickets : List SignInTicket
  enrollmentTokens : List EnrollmentToken

namespace MfaState

variable (state : MfaState)

/-- Cookies, tickets and tokens are sealed by the server, so a caller sends those it holds. -/
def holdsPresented (presented : Presented) : Bool :=
  presented.principal.all (· ∈ state.cookies) && presented.partialAuth.all (· ∈ state.partials)

def holds : MfaRequest → Bool
  | .login .. => true
  | .verifyMfaChallenge presented .. => state.holdsPresented presented
  | .exchangeTicket ticket => ticket ∈ state.tickets
  | .enrollTotp presented _ => state.holdsPresented presented
  | .confirmEnrollment presented .. => state.holdsPresented presented
  | .issueEnrollmentToken principal _ => principal.all (· ∈ state.cookies)
  | .exchangeEnrollmentToken token => token ∈ state.enrollmentTokens
  | .disable principal .. => principal.all (· ∈ state.cookies)
  | .regenerateBackupCodes principal .. => principal.all (· ∈ state.cookies)
  | .adminDisableMfa principal .. => principal.all (· ∈ state.cookies)
  | .adminClearLockout principal _ => principal.all (· ∈ state.cookies)

def receive (server : AuthServer) : Answer → MfaState
  | .error _ => { state with server }
  | .ok handed =>
    { server
      cookies := handed.cookie.toList ++ state.cookies
      partials := handed.partialAuth.toList ++ state.partials
      tickets := handed.ticket.toList ++ state.tickets
      enrollmentTokens := handed.enrollmentToken.toList ++ state.enrollmentTokens }

/-- One request at some time. -/
def step (platform : Platform) (state : MfaState) (request : Nat × MfaRequest) :
    Option MfaState :=
  if state.holds request.2 then
    let (answer, server) := state.server.serve platform request.1 request.2
    some (state.receive server answer)
  else none

end MfaState

end Wallow.Identity
