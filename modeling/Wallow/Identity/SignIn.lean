import Wallow.Identity.Mfa

/-!
# Ways into a browser session

`Login` and the other sign-in paths of `AccountController.cs`: magic link and one-time code, each
followed by `ExchangeTicket`, the external provider's callback, and the registration that completes
it.  `Login` checks lockout, MFA and organization policy; the others re-implement some of it.
-/

namespace Wallow.Identity

/-! ## What the endpoints read -/

structure UserLogin where
  loginProvider : String
  providerKey : String
  userId : Guid
  deriving DecidableEq

/-- The tables of the identity database that sign-in reads. -/
structure IdentityStore where
  users : List WallowUser
  logins : List UserLogin
  memberships : List Membership
  settings : List OrganizationSettings

namespace IdentityStore

variable (store : IdentityStore) (platform : Platform)

def findById (userId : Guid) : Option WallowUser :=
  store.users.find? (·.id = userId)

def findByEmail (email : String) : Option WallowUser :=
  store.users.find? (·.normalizedEmail = some (platform.normalizeEmail email))

def findByLogin (loginProvider providerKey : String) : Option WallowUser :=
  (store.logins.find? fun login =>
    login.loginProvider = loginProvider && login.providerKey = providerKey).bind
      (store.findById ·.userId)

/-- `UpdateAsync` of one row. -/
def updateUser (user : WallowUser) : IdentityStore :=
  { store with users := store.users.map fun u => if u.id = user.id then user else u }

def exempt (user : WallowUser) (now : Nat) : Bool :=
  isExempt store.memberships store.settings user now

def policy (userId : Guid) (now : Nat) : OrgMfaPolicyResult :=
  orgMfaPolicy store.memberships store.settings (store.findById userId) now

end IdentityStore

/-- What the sign-in flows keep in Redis. -/
structure SignInRedis where
  magicLinks : String → Option String
  otps : String → Option String
  usedTickets : List Guid

structure SignInTicket where
  email : String
  rememberMe : Bool
  jti : Guid
  expiresAt : Nat
  deriving DecidableEq

/-- The MFA partial-auth cookie; the protector gives it five minutes. -/
structure MfaPartialAuthPayload where
  userId : Guid
  email : String
  authMethod : String
  rememberMe : Bool
  issuedAt : Nat
  expiresAt : Nat
  deriving DecidableEq

def TICKET_LIFETIME : Nat := 60 * TICKS_PER_SECOND
def PARTIAL_COOKIE_LIFETIME : Nat := 5 * TICKS_PER_MINUTE

def createSignInTicket (email : String) (rememberMe : Bool) (jti : Guid) (now : Nat) :
    SignInTicket :=
  ⟨email, rememberMe, jti, now + TICKET_LIFETIME⟩

def issuePartialCookie (user : WallowUser) (email authMethod : String) (rememberMe : Bool)
    (now : Nat) : MfaPartialAuthPayload :=
  ⟨user.id, email, authMethod, rememberMe, now, now + PARTIAL_COOKIE_LIFETIME⟩

/-! ## Password sign-in -/

inductive SignInResult
  | succeeded
  | lockedOut
  | notAllowed
  | failed
  deriving DecidableEq

/-- `SignInManager.PreSignInCheck`, with confirmed addresses required. -/
def preSignInCheck (user : WallowUser) (now : Nat) : Option SignInResult :=
  if !user.emailConfirmed then some .notAllowed
  else if user.isLockedOut now then some .lockedOut
  else none

def MAX_FAILED_ACCESS_ATTEMPTS : Nat := 5
def LOCKOUT_TIME_SPAN : Nat := 5 * TICKS_PER_MINUTE

/-- `UserManager.AccessFailedAsync`. -/
def accessFailed (user : WallowUser) (now : Nat) : WallowUser :=
  if user.accessFailedCount + 1 < MAX_FAILED_ACCESS_ATTEMPTS then
    { user with accessFailedCount := user.accessFailedCount + 1 }
  else
    { user with lockoutEnd := some (now + LOCKOUT_TIME_SPAN), accessFailedCount := 0 }

/-- `CheckPasswordSignInAsync` with lockout on failure: the result, and the row as it is left. -/
def checkPasswordSignIn (platform : Platform) (user : WallowUser) (password : String) (now : Nat) :
    SignInResult × WallowUser :=
  match preSignInCheck user now with
  | some refusal => (refusal, user)
  | none =>
    if user.passwordHash.any (platform.verifyHashedPassword · password) then
      (.succeeded, { user with accessFailedCount := 0 })
    else
      let user := accessFailed user now
      if user.isLockedOut now then (.lockedOut, user) else (.failed, user)

inductive LoginAnswer
  | invalidCredentials
  | lockedOut
  | emailNotConfirmed
  | mfaRequired (cookie : MfaPartialAuthPayload)
  | mfaEnrollmentRequired (cookie : MfaPartialAuthPayload)
  | succeeded (ticket : SignInTicket) (enrollBefore : Option (Option Nat))
  deriving DecidableEq

/-- `Login` after a right password.  A grace period lets the sign-in through with the enrollment
deadline in the answer. -/
def loginDecision (store : IdentityStore) (user : WallowUser) (rememberMe : Bool) (jti : Guid)
    (now : Nat) : LoginAnswer :=
  let email := user.email.getD ""
  if user.mfaEnabled && !store.exempt user now then
    .mfaRequired (issuePartialCookie user email "password" rememberMe now)
  else
    let orgPolicy := store.policy user.id now
    if orgPolicy.requiresMfa then
      -- the deadline goes out with the answer, the sign-in goes through
      if orgPolicy.isInGracePeriod then
        .succeeded (createSignInTicket email rememberMe jti now) (some user.mfaGraceDeadline)
      else
        .mfaEnrollmentRequired (issuePartialCookie user email "password" rememberMe now)
    else .succeeded (createSignInTicket email rememberMe jti now) none

/-- `Login`: the answer, and the rows it leaves. -/
def login (platform : Platform) (store : IdentityStore) (email password : String)
    (rememberMe : Bool) (jti : Guid) (now : Nat) : LoginAnswer × IdentityStore :=
  match store.findByEmail platform email with
  | none => (.invalidCredentials, store)
  | some user =>
    let (result, row) := checkPasswordSignIn platform user password now
    let store := store.updateUser row
    match result with
    | .succeeded => (loginDecision store row rememberMe jti now, store)
    | .lockedOut => (.lockedOut, store)
    | .notAllowed => (.emailNotConfirmed, store)
    | .failed => (.invalidCredentials, store)

/-- `ExchangeTicket`: who gets the application cookie, and the tickets used up. -/
def exchangeTicket (platform : Platform) (store : IdentityStore) (used : List Guid)
    (ticket : SignInTicket) (now : Nat) : Option WallowUser × List Guid :=
  if ticket.expiresAt < now then (none, used)
  else if ticket.jti ∈ used then (none, used)
  else (store.findByEmail platform ticket.email, ticket.jti :: used)

/-! ## The other paths -/

/-- `token.Split('.', 2)`. -/
def splitToken (token : String) : Option (String × String) :=
  match token.toList.span (· ≠ '.') with
  | (raw, _ :: signature) => some (String.ofList raw, String.ofList signature)
  -- no dot at all
  | (_, []) => none

/-- `ValidateMagicLinkAsync`: the address the link was sent to. -/
def validateMagicLink (platform : Platform) (redis : SignInRedis) (token : String) :
    Option String :=
  match splitToken token with
  | none => none
  | some (rawToken, signature) =>
    if platform.unprotectLink signature = some rawToken then
      (redis.magicLinks rawToken).filter (· ≠ "")
    else none

/-- `ValidateOtpAsync`. -/
def validateOtp (redis : SignInRedis) (email code : String) : Option String :=
  match redis.otps email with
  | none => none
  | some storedCode => if storedCode ≠ "" && storedCode = code then some email else none

/-- What the provider said, after the external cookie is read. -/
structure ExternalLoginInfo where
  loginProvider : String
  providerKey : String
  email : Option String
  emailVerified : Bool
  deriving DecidableEq

/-- `AddLoginAsync`: a provider link belongs to one account; the row's update can fail. -/
def addLogin (store : IdentityStore) (user : WallowUser) (loginProvider providerKey : String)
    (updateSucceeds : Bool) : Option IdentityStore :=
  if store.logins.any (fun l => l.loginProvider = loginProvider && l.providerKey = providerKey) ||
      !updateSucceeds then none
  else some { store with logins := ⟨loginProvider, providerKey, user.id⟩ :: store.logins }

/-- Where an external sign-in leaves the browser. -/
inductive ExternalOutcome
  | signedIn (user : WallowUser)
  | mfaChallenge (cookie : MfaPartialAuthPayload)
  | acceptTerms (info : ExternalLoginInfo)
  | refused
  deriving DecidableEq

/-- The callback's own MFA check, on the account its provider's email names. -/
def providerAccountStops (store : IdentityStore) (signedInUser : Option WallowUser) (now : Nat) :
    Bool :=
  match signedInUser with
  | none => false
  | some user =>
    if user.mfaEnabled then !store.exempt user now
    else
      let orgPolicy := store.policy user.id now
      orgPolicy.requiresMfa && !orgPolicy.isInGracePeriod

/-- `ExternalLoginCallback`.  `ExternalLoginSignInAsync` signs the linked account in, after the
lockout check; signing out of the default scheme takes the application cookie away again. -/
def externalLoginCallback (platform : Platform) (store : IdentityStore) (info : ExternalLoginInfo)
    (updateSucceeds : Bool) (now : Nat) : ExternalOutcome × IdentityStore :=
  let linked := (store.findByLogin info.loginProvider info.providerKey).filter
    fun user => (preSignInCheck user now).isNone
  match linked with
  | some user =>
    -- looked up by the provider's email, not by the link that signed in
    let signedInUser := info.email.bind (store.findByEmail platform)
    if providerAccountStops store signedInUser now then
      (match signedInUser with
        | some named => .mfaChallenge (issuePartialCookie named (info.email.getD "")
            ("external:" ++ info.loginProvider) false now)
        | none => .refused, store)
    else (.signedIn user, store)
  | none =>
    match info.email.filter (· ≠ "") with
    | none => (.refused, store)
    | some email =>
      match store.findByEmail platform email with
      | some existingUser =>
        if info.emailVerified then
          match addLogin store existingUser info.loginProvider info.providerKey updateSucceeds with
          | some store => (.signedIn existingUser, store)
          | none => (.refused, store)
        else (.acceptTerms info, store)
      | none => (.acceptTerms info, store)

/-- The row `CompleteExternalRegistration` creates. -/
def registeredUser (platform : Platform) (newId : Guid) (email : String) (emailVerified : Bool) :
    WallowUser where
  id := newId
  email := some email
  normalizedEmail := some (platform.normalizeEmail email)
  emailConfirmed := emailVerified
  passwordHash := none
  hasPassword := true
  isActive := true
  lockoutEnabled := true
  lockoutEnd := none
  accessFailedCount := 0
  mfaEnabled := false
  mfaMethod := none
  totpSecretEncrypted := none
  backupCodesHash := none
  mfaGraceDeadline := none
  mfaFailedAttempts := 0
  mfaLockoutEnd := none
  mfaLockoutCount := 0

def NEW_ACCOUNT_GRACE : Nat := 14 * TICKS_PER_DAY

/-- `CompleteExternalRegistration`, with the state its cookie holds: `none` is a missing, broken
or incomplete one.  A new account whose organizations require MFA gets fourteen days. -/
def completeExternalRegistration (platform : Platform) (store : IdentityStore)
    (acceptedTerms : Bool) (state : Option ExternalLoginInfo) (newId : Guid)
    (createSucceeds updateSucceeds : Bool) (now : Nat) : ExternalOutcome × IdentityStore :=
  if !acceptedTerms then (.refused, store)
  else
    match state with
    | none => (.refused, store)
    | some info =>
      match info.email.filter (· ≠ "") with
      | none => (.refused, store)
      | some email =>
        match store.findByEmail platform email with
        | some existingUser =>
          if !info.emailVerified then (.refused, store)
          else
            match addLogin store existingUser info.loginProvider info.providerKey
                updateSucceeds with
            | some store => (.signedIn existingUser, store)
            | none => (.refused, store)
        | none =>
          -- the address is free
          if !createSucceeds then (.refused, store)
          else
            let user := registeredUser platform newId email info.emailVerified
            let store := { store with users := user :: store.users }
            match addLogin store user info.loginProvider info.providerKey updateSucceeds with
            | none => (.refused, store)
            | some store =>
              if (store.policy newId now).requiresMfa then
                let user := user.setMfaGraceDeadline (now + NEW_ACCOUNT_GRACE)
                (.signedIn user, store.updateUser user)
              else (.signedIn user, store)

end Wallow.Identity
