import Wallow.Identity.SignIn

/-!
# The other paths against the password sign-in

`Login` lets an account in after three questions: is it locked out, does its own MFA stop it, does
an organization's policy stop it.  This module asks of each other path whether the account that it
signs in has passed them, and says exactly when it has.
-/

namespace Wallow.Identity

/-! ## What `Login` asks -/

/-- `Login` stops at the MFA step: at the account's own, or at enrolling into one. -/
def stopsAtMfa (store : IdentityStore) (user : WallowUser) (now : Nat) : Bool :=
  (user.mfaEnabled && !store.exempt user now) ||
    ((store.policy user.id now).requiresMfa && !(store.policy user.id now).isInGracePeriod)

/-- The checks of `Login` behind the password. -/
def passesLoginChecks (store : IdentityStore) (user : WallowUser) (now : Nat) : Bool :=
  !user.isLockedOut now && !stopsAtMfa store user now

def LoginAnswer.isSucceeded : LoginAnswer → Bool
  | .succeeded _ _ => true
  | _ => false

/-- After a right password the MFA questions decide. -/
theorem loginDecision_isSucceeded (store : IdentityStore) (user : WallowUser) (rememberMe : Bool)
    (jti : Guid) (now : Nat) :
    (loginDecision store user rememberMe jti now).isSucceeded = !stopsAtMfa store user now := by
  unfold loginDecision stopsAtMfa
  dsimp only
  by_cases hmfa : (user.mfaEnabled && !store.exempt user now) = true
  · rw [if_pos hmfa, hmfa]
    rfl
  · rw [if_neg hmfa]
    have hmfa : (user.mfaEnabled && !store.exempt user now) = false := by simpa using hmfa
    rw [hmfa, Bool.false_or]
    cases hrequires : (store.policy user.id now).requiresMfa
    · rfl
    · cases hgrace : (store.policy user.id now).isInGracePeriod <;> rfl

/-- A right password on a confirmed address: only lockout is left to refuse it. -/
theorem checkPasswordSignIn_of_verified {platform : Platform} {user : WallowUser}
    {password : String} {now : Nat} (hconfirmed : user.emailConfirmed = true)
    (hpassword : user.passwordHash.any (platform.verifyHashedPassword · password) = true) :
    checkPasswordSignIn platform user password now =
      if user.isLockedOut now then (.lockedOut, user)
      else (.succeeded, { user with accessFailedCount := 0 }) := by
  cases hlocked : user.isLockedOut now
  · simp [checkPasswordSignIn, preSignInCheck, hconfirmed, hlocked, hpassword]
  · simp [checkPasswordSignIn, preSignInCheck, hconfirmed, hlocked]

namespace IdentityStore

/-- The counter of failed passwords is no part of the answers about MFA. -/
theorem policy_updateUser_accessFailed {store : IdentityStore} {user : WallowUser} {count : Nat}
    (hfound : store.findById user.id = some user) (now : Nat) :
    (store.updateUser { user with accessFailedCount := count }).policy user.id now =
      store.policy user.id now := by
  have hfind : (store.updateUser { user with accessFailedCount := count }).findById user.id =
      some { user with accessFailedCount := count } := by
    unfold findById updateUser at *
    rw [List.find?_map]
    have hsame : ((fun u : WallowUser => decide (u.id = user.id)) ∘ fun u =>
        if u.id = user.id then { user with accessFailedCount := count } else u) =
        fun u => decide (u.id = user.id) := by
      funext u
      by_cases hid : u.id = user.id <;> simp [hid]
    rw [hsame, hfound]
    simp
  unfold policy
  rw [hfind, hfound]
  rfl

theorem stopsAtMfa_updateUser_accessFailed {store : IdentityStore} {user : WallowUser}
    {count : Nat} (hfound : store.findById user.id = some user) (now : Nat) :
    stopsAtMfa (store.updateUser { user with accessFailedCount := count })
      { user with accessFailedCount := count } now = stopsAtMfa store user now := by
  unfold stopsAtMfa
  rw [policy_updateUser_accessFailed hfound]
  rfl

end IdentityStore

/-- What is stored when the path begins, and the time then. -/
structure SignInWorld where
  platform : Platform
  store : IdentityStore
  redis : SignInRedis
  now : Nat

/-- One use of a path other than `Login`.  The passwordless ones end in `ExchangeTicket`, at a
time of its own. -/
inductive SignInPath
  | verifyMagicLink (token : String) (rememberMe : Bool) (jti : Guid) (exchangedAt : Nat)
  | verifyOtp (email code : String) (rememberMe : Bool) (jti : Guid) (exchangedAt : Nat)
  | externalLoginCallback (info : ExternalLoginInfo) (updateSucceeds : Bool)
  | completeExternalRegistration (acceptedTerms : Bool) (state : Option ExternalLoginInfo)
      (newId : Guid) (createSucceeds updateSucceeds : Bool)

/-- The account an external sign-in lets in, with the tables it leaves. -/
def ExternalOutcome.signedInUser : ExternalOutcome × IdentityStore →
    Option (WallowUser × IdentityStore)
  | (.signedIn user, store) => some (user, store)
  | _ => none

namespace SignInWorld

variable (world : SignInWorld)

/-- `VerifyMagicLink` and `VerifyOtp` make a ticket for the address alone. -/
def exchangePasswordless (email : Option String) (rememberMe : Bool) (jti : Guid)
    (exchangedAt : Nat) : Option (WallowUser × IdentityStore) :=
  email.bind fun email =>
    (exchangeTicket world.platform world.store world.redis.usedTickets
      (createSignInTicket email rememberMe jti world.now) exchangedAt).1.map (·, world.store)

/-- The application cookie a path ends in: whose it is, and the tables it leaves. -/
def signedIn : SignInPath → Option (WallowUser × IdentityStore)
  | .verifyMagicLink token rememberMe jti exchangedAt =>
    world.exchangePasswordless (validateMagicLink world.platform world.redis token) rememberMe jti
      exchangedAt
  | .verifyOtp email code rememberMe jti exchangedAt =>
    world.exchangePasswordless (validateOtp world.redis email code) rememberMe jti exchangedAt
  | .externalLoginCallback info updateSucceeds =>
    ExternalOutcome.signedInUser
      (externalLoginCallback world.platform world.store info updateSucceeds world.now)
  | .completeExternalRegistration acceptedTerms state newId createSucceeds updateSucceeds =>
    ExternalOutcome.signedInUser (completeExternalRegistration world.platform world.store
      acceptedTerms state newId createSucceeds updateSucceeds world.now)

/-- The path signs no account in that the checks of `Login` would stop. -/
def KeepsLoginChecks (path : SignInPath) : Prop :=
  ∀ user store, world.signedIn path = some (user, store) →
    passesLoginChecks store user world.now = true

/-! ## When they keep the checks -/

/-- A passwordless path checks nothing of the account: the address must name no account, or one
in good standing, or the ticket must come late or a second time. -/
def passwordlessKeeps (email : Option String) (jti : Guid) (exchangedAt : Nat) : Bool :=
  match email.bind (world.store.findByEmail world.platform) with
  | none => true
  | some user =>
    world.now + TICKET_LIFETIME < exchangedAt || jti ∈ world.redis.usedTickets ||
      passesLoginChecks world.store user world.now

/-- So does linking a provider to an account that exists, where the link is made. -/
def linkingKeeps (existingUser : WallowUser) (info : ExternalLoginInfo) (updateSucceeds : Bool) :
    Bool :=
  !info.emailVerified || !updateSucceeds ||
    world.store.logins.any (fun l =>
      l.loginProvider = info.loginProvider && l.providerKey = info.providerKey) ||
    passesLoginChecks world.store existingUser world.now

/-- The account a provider link names, if it is confirmed and not locked out. -/
def linkedUser (info : ExternalLoginInfo) : Option WallowUser :=
  (world.store.findByLogin info.loginProvider info.providerKey).filter
    fun user => (preSignInCheck user world.now).isNone

/-- A linked account is checked for lockout, but for MFA under the provider's address: the account
of that address must be stopped, or the linked one must not need to be. -/
def callbackKeeps (info : ExternalLoginInfo) (updateSucceeds : Bool) : Bool :=
  match world.linkedUser info with
  | some user =>
    providerAccountStops world.store (info.email.bind (world.store.findByEmail world.platform))
        world.now || !stopsAtMfa world.store user world.now
  | none =>
    match (info.email.filter (· ≠ "")).bind (world.store.findByEmail world.platform) with
    | none => true
    | some existingUser => world.linkingKeeps existingUser info updateSucceeds

/-- A registration that finds no account makes one in good standing. -/
def registrationKeeps (acceptedTerms : Bool) (state : Option ExternalLoginInfo)
    (updateSucceeds : Bool) : Bool :=
  !acceptedTerms ||
    match state with
    | none => true
    | some info =>
      match (info.email.filter (· ≠ "")).bind (world.store.findByEmail world.platform) with
      | none => true
      | some existingUser => world.linkingKeeps existingUser info updateSucceeds

/-- The inputs on which a path keeps the checks of `Login`. -/
def keeps : SignInPath → Bool
  | .verifyMagicLink token _ jti exchangedAt =>
    world.passwordlessKeeps (validateMagicLink world.platform world.redis token) jti exchangedAt
  | .verifyOtp email code _ jti exchangedAt =>
    world.passwordlessKeeps (validateOtp world.redis email code) jti exchangedAt
  | .externalLoginCallback info updateSucceeds => world.callbackKeeps info updateSucceeds
  | .completeExternalRegistration acceptedTerms state _ _ updateSucceeds =>
    world.registrationKeeps acceptedTerms state updateSucceeds

/-! ## Path by path -/

theorem exchangePasswordless_keeps (email : Option String) (rememberMe : Bool) (jti : Guid)
    (exchangedAt : Nat) :
    (∀ user store, world.exchangePasswordless email rememberMe jti exchangedAt =
        some (user, store) → passesLoginChecks store user world.now = true) ↔
      world.passwordlessKeeps email jti exchangedAt = true := by
  cases email with
  | none => simp [exchangePasswordless, passwordlessKeeps]
  | some email =>
    unfold exchangePasswordless passwordlessKeeps exchangeTicket createSignInTicket
    by_cases hlate : world.now + TICKET_LIFETIME < exchangedAt
    · cases hfind : world.store.findByEmail world.platform email <;> simp [hlate, hfind]
    · by_cases hused : jti ∈ world.redis.usedTickets
      · cases hfind : world.store.findByEmail world.platform email <;> simp [hlate, hused, hfind]
      · cases hfind : world.store.findByEmail world.platform email <;> simp [hlate, hused, hfind]

/-- The checks read no provider link. -/
theorem passesLoginChecks_addLogin {store linked : IdentityStore} {owner : WallowUser}
    {loginProvider providerKey : String} {updateSucceeds : Bool}
    (h : addLogin store owner loginProvider providerKey updateSucceeds = some linked)
    (user : WallowUser) (now : Nat) :
    passesLoginChecks linked user now = passesLoginChecks store user now := by
  unfold addLogin at h
  split at h
  · cases h
  · rw [← Option.some.inj h]
    rfl

/-- Where a link to an existing account is made, the account is signed in unchecked. -/
theorem linking_keeps (existingUser : WallowUser) (info : ExternalLoginInfo)
    (updateSucceeds : Bool) (hverified : info.emailVerified = true) :
    (∀ user store, ExternalOutcome.signedInUser
        (match addLogin world.store existingUser info.loginProvider info.providerKey
            updateSucceeds with
          | some store => (.signedIn existingUser, store)
          | none => (.refused, world.store)) = some (user, store) →
        passesLoginChecks store user world.now = true) ↔
      world.linkingKeeps existingUser info updateSucceeds = true := by
  unfold linkingKeeps
  rw [hverified]
  cases htaken : world.store.logins.any fun l =>
      l.loginProvider = info.loginProvider && l.providerKey = info.providerKey
  · cases updateSucceeds
    · have hlink : addLogin world.store existingUser info.loginProvider info.providerKey false =
          none := by
        simp [addLogin]
      rw [hlink]
      simp [ExternalOutcome.signedInUser]
    · cases hlink : addLogin world.store existingUser info.loginProvider info.providerKey true with
      | none => simp [addLogin, htaken] at hlink
      | some linked =>
        have hchecks := passesLoginChecks_addLogin hlink existingUser world.now
        simp only [ExternalOutcome.signedInUser, Option.some.injEq, Prod.mk.injEq, Bool.not_true,
          Bool.false_or]
        constructor
        · intro h
          rw [← hchecks]
          exact h existingUser linked ⟨rfl, rfl⟩
        · intro h user store hsigned
          rw [← hsigned.1, ← hsigned.2, hchecks]
          exact h
  · have hlink : addLogin world.store existingUser info.loginProvider info.providerKey
        updateSucceeds = none := by
      simp [addLogin, htaken]
    rw [hlink]
    simp [ExternalOutcome.signedInUser]

theorem externalLoginCallback_keeps (info : ExternalLoginInfo) (updateSucceeds : Bool) :
    (∀ user store, ExternalOutcome.signedInUser
        (externalLoginCallback world.platform world.store info updateSucceeds world.now) =
          some (user, store) → passesLoginChecks store user world.now = true) ↔
      world.callbackKeeps info updateSucceeds = true := by
  unfold externalLoginCallback callbackKeeps linkedUser
  dsimp only
  cases hlinked : (world.store.findByLogin info.loginProvider info.providerKey).filter
      fun user => (preSignInCheck user world.now).isNone with
  | some linked =>
    dsimp only
    have hopen : linked.isLockedOut world.now = false := by
      have hpre := (Option.filter_eq_some_iff.mp hlinked).2
      unfold preSignInCheck at hpre
      cases hlocked : linked.isLockedOut world.now
      · rfl
      · cases hconfirmed : linked.emailConfirmed <;> simp [hlocked, hconfirmed] at hpre
    cases hstops : providerAccountStops world.store
        (info.email.bind (world.store.findByEmail world.platform)) world.now
    · simp [ExternalOutcome.signedInUser, passesLoginChecks, hopen]
    · cases info.email.bind (world.store.findByEmail world.platform) <;>
        simp [ExternalOutcome.signedInUser]
  | none =>
    dsimp only
    cases hemail : info.email.filter (· ≠ "") with
    | none => simp [ExternalOutcome.signedInUser]
    | some email =>
      dsimp only [Option.bind_some]
      cases hexisting : world.store.findByEmail world.platform email with
      | none => simp [ExternalOutcome.signedInUser]
      | some existingUser =>
        dsimp only
        cases hverified : info.emailVerified
        · simp [ExternalOutcome.signedInUser, linkingKeeps, hverified]
        · exact world.linking_keeps existingUser info updateSucceeds hverified

/-- A new account is neither locked out nor enrolled in MFA. -/
theorem passesLoginChecks_of_fresh {store : IdentityStore} {user : WallowUser} {now : Nat}
    (hlockout : user.lockoutEnd = none) (hmfa : user.mfaEnabled = false)
    (hpolicy : (store.policy user.id now).requiresMfa = true →
      (store.policy user.id now).isInGracePeriod = true) :
    passesLoginChecks store user now = true := by
  have hopen : user.isLockedOut now = false := by simp [WallowUser.isLockedOut, hlockout]
  simp only [passesLoginChecks, stopsAtMfa, hopen, hmfa, Bool.false_and, Bool.false_or,
    Bool.not_false, Bool.true_and, Bool.not_eq_true', Bool.and_eq_false_iff]
  cases hrequires : (store.policy user.id now).requiresMfa
  · exact .inl rfl
  · exact .inr (by simpa using hpolicy hrequires)

/-- The account a registration makes: in grace for fourteen days where MFA is required. -/
theorem passesLoginChecks_registered {store linked : IdentityStore} {registered : WallowUser}
    {loginProvider providerKey : String} {updateSucceeds : Bool} {deadline now : Nat}
    (hlink : addLogin { store with users := registered :: store.users } registered loginProvider
      providerKey updateSucceeds = some linked)
    (hlockout : registered.lockoutEnd = none) (hmfa : registered.mfaEnabled = false)
    (hdeadline : now < deadline) {user : WallowUser} {left : IdentityStore}
    (h : (if (linked.policy registered.id now).requiresMfa then
        (ExternalOutcome.signedIn (registered.setMfaGraceDeadline deadline),
          linked.updateUser (registered.setMfaGraceDeadline deadline))
      else (.signedIn registered, linked)) = (.signedIn user, left)) :
    passesLoginChecks left user now = true := by
  have husers : linked.users = registered :: store.users := by
    unfold addLogin at hlink
    split at hlink
    · cases hlink
    · rw [← Option.some.inj hlink]
  cases hrequires : (linked.policy registered.id now).requiresMfa
  · rw [hrequires] at h
    cases h
    refine passesLoginChecks_of_fresh hlockout hmfa fun hpolicy => ?_
    rw [hrequires] at hpolicy
    cases hpolicy
  · rw [hrequires] at h
    cases h
    refine passesLoginChecks_of_fresh hlockout hmfa ?_
    -- the account that the policy looks up is the row just updated
    have hfind : (linked.updateUser (registered.setMfaGraceDeadline deadline)).findById
        (registered.setMfaGraceDeadline deadline).id =
        some (registered.setMfaGraceDeadline deadline) := by
      simp [IdentityStore.findById, IdentityStore.updateUser, husers,
        WallowUser.setMfaGraceDeadline]
    unfold IdentityStore.policy
    rw [hfind]
    exact orgMfaPolicy_setMfaGraceDeadline hdeadline

theorem completeExternalRegistration_keeps (acceptedTerms : Bool)
    (state : Option ExternalLoginInfo) (newId : Guid) (createSucceeds updateSucceeds : Bool) :
    (∀ user store, ExternalOutcome.signedInUser (completeExternalRegistration world.platform
        world.store acceptedTerms state newId createSucceeds updateSucceeds world.now) =
          some (user, store) → passesLoginChecks store user world.now = true) ↔
      world.registrationKeeps acceptedTerms state updateSucceeds = true := by
  unfold completeExternalRegistration registrationKeeps
  cases acceptedTerms
  · simp [ExternalOutcome.signedInUser]
  · simp only [Bool.not_true, Bool.false_eq_true, if_false, Bool.false_or]
    cases state with
    | none => simp [ExternalOutcome.signedInUser]
    | some info =>
      dsimp only
      cases hemail : info.email.filter (· ≠ "") with
      | none => simp [ExternalOutcome.signedInUser]
      | some email =>
        dsimp only [Option.bind_some]
        cases hexisting : world.store.findByEmail world.platform email with
        | some existingUser =>
          dsimp only
          cases hverified : info.emailVerified
          · simp [ExternalOutcome.signedInUser, linkingKeeps, hverified]
          · simp only [Bool.not_true, Bool.false_eq_true, if_false]
            exact world.linking_keeps existingUser info updateSucceeds hverified
        | none =>
          simp only [iff_true]
          intro user left hsigned
          cases createSucceeds
          · cases hsigned
          · simp only [Bool.not_true, Bool.false_eq_true, if_false] at hsigned
            cases hlink : addLogin
                { world.store with
                  users := registeredUser world.platform newId email info.emailVerified ::
                    world.store.users }
                (registeredUser world.platform newId email info.emailVerified) info.loginProvider
                info.providerKey updateSucceeds with
            | none =>
              rw [hlink] at hsigned
              cases hsigned
            | some linked =>
              rw [hlink] at hsigned
              have hdeadline : world.now < world.now + NEW_ACCOUNT_GRACE :=
                Nat.lt_add_of_pos_right (by decide)
              refine passesLoginChecks_registered hlink rfl rfl hdeadline ?_
              dsimp only at hsigned
              split at hsigned
              · rename_i hrequires
                cases hsigned
                exact if_pos hrequires
              · rename_i hrequires
                cases hsigned
                exact if_neg hrequires

/-- **A path signs in who `Login` would stop exactly where it asks nothing.** -/
theorem keepsLoginChecks_iff (path : SignInPath) :
    world.KeepsLoginChecks path ↔ world.keeps path = true := by
  cases path with
  | verifyMagicLink token rememberMe jti exchangedAt =>
    exact world.exchangePasswordless_keeps _ rememberMe jti exchangedAt
  | verifyOtp email code rememberMe jti exchangedAt =>
    exact world.exchangePasswordless_keeps _ rememberMe jti exchangedAt
  | externalLoginCallback info updateSucceeds =>
    exact world.externalLoginCallback_keeps info updateSucceeds
  | completeExternalRegistration acceptedTerms state newId createSucceeds updateSucceeds =>
    exact world.completeExternalRegistration_keeps acceptedTerms state newId createSucceeds
      updateSucceeds

end SignInWorld

/-! ## A deactivated account -/

/-- One account, deactivated after a magic link was sent to it. -/
def deactivatedWorld : SignInWorld where
  platform := samplePlatform
  store := ⟨[deactivateUser ann], [], [], []⟩
  redis :=
    { magicLinks := fun rawToken => if rawToken = "raw" then some "ann@example.com" else none
      otps := fun _ => none
      usedTickets := [] }
  now := 100

/-- The right password finds the account locked out; the link signs it in. -/
theorem deactivated_account_signs_in_by_magic_link :
    (login deactivatedWorld.platform deactivatedWorld.store "ann@example.com" "correct horse" false 7
      deactivatedWorld.now).1 = .lockedOut ∧
    ¬ deactivatedWorld.KeepsLoginChecks (.verifyMagicLink "raw.CfDJ8raw" false 7 200) := by
  refine ⟨by decide +kernel, ?_⟩
  intro h
  have hchecks := h (deactivateUser ann) deactivatedWorld.store (by rfl)
  have hstopped : passesLoginChecks deactivatedWorld.store (deactivateUser ann)
      deactivatedWorld.now = false := by
    decide +kernel
  rw [hstopped] at hchecks
  cases hchecks

end Wallow.Identity
