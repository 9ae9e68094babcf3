import Wallow.Identity.MfaEndpoints
import Wallow.Lib.Transition
import Mathlib.Data.List.Find

/-!
# The second factor over whole runs

What the password of an account with MFA is worth alone: any number of login, MFA and enrollment
requests, in any order, by someone who keeps every cookie, ticket and token ever handed out.
-/

namespace Wallow.Identity

/-! ## Accounts and their second factor -/

/-- The row is another state of the same account: its id and address are kept. -/
def SameAccount (user row : WallowUser) : Prop :=
  row.id = user.id ∧ row.email = user.email ∧ row.normalizedEmail = user.normalizedEmail

/-- What stands between the password of an account and a sign-in. -/
def WallowUser.secondFactor (user : WallowUser) : Bool × Option String × Option (List String) :=
  (user.mfaEnabled, user.totpSecretEncrypted, user.backupCodesHash)

/-- Ids are the primary key, and Identity requires unique addresses. -/
structure IdentityStore.WellFormed (platform : Platform) (store : IdentityStore) : Prop where
  ids : ∀ u ∈ store.users, ∀ v ∈ store.users, u.id = v.id → u = v
  addresses : ∀ u ∈ store.users, ∀ v,
    store.findByEmail platform (u.email.getD "") = some v → v.id = u.id

namespace IdentityStore

variable {platform : Platform} {store : IdentityStore} {user : WallowUser}

theorem mem_of_findById {userId : Guid} (h : store.findById userId = some user) :
    user ∈ store.users ∧ user.id = userId := by
  refine ⟨List.mem_of_find?_eq_some h, ?_⟩
  simpa using List.find?_some h

theorem mem_of_findByEmail {email : String} (h : store.findByEmail platform email = some user) :
    user ∈ store.users :=
  List.mem_of_find?_eq_some h

theorem findById_of_mem (hids : ∀ u ∈ store.users, ∀ v ∈ store.users, u.id = v.id → u = v)
    (h : user ∈ store.users) : store.findById user.id = some user := by
  cases hfind : store.findById user.id with
  | none =>
    have hnone := List.find?_eq_none.mp hfind user h
    simp at hnone
  | some found =>
    have hfound := mem_of_findById hfind
    rw [hids found hfound.1 user h hfound.2]

/-- A change of rows that keeps every account, and the second factor of one. -/
def Spares (userId : Guid) (store store' : IdentityStore) : Prop :=
  ∃ f : WallowUser → WallowUser, store'.users = store.users.map f ∧
    ∀ u ∈ store.users, SameAccount u (f u) ∧
      (u.id = userId → (f u).secondFactor = u.secondFactor)

theorem Spares.refl (userId : Guid) (store : IdentityStore) : Spares userId store store :=
  ⟨id, by simp, fun _ _ => ⟨⟨rfl, rfl, rfl⟩, fun _ => rfl⟩⟩

theorem Spares.trans {userId : Guid} {a b c : IdentityStore} (hab : Spares userId a b)
    (hbc : Spares userId b c) : Spares userId a c := by
  obtain ⟨f, hf, hfkeeps⟩ := hab
  obtain ⟨g, hg, hgkeeps⟩ := hbc
  refine ⟨g ∘ f, by rw [hg, hf, List.map_map], fun u hu => ?_⟩
  have hmem : f u ∈ b.users := by
    rw [hf]
    exact List.mem_map_of_mem hu
  obtain ⟨⟨hid, hemail, hnormalized⟩, hfactor⟩ := hfkeeps u hu
  obtain ⟨⟨hid', hemail', hnormalized'⟩, hfactor'⟩ := hgkeeps (f u) hmem
  refine ⟨⟨hid'.trans hid, hemail'.trans hemail, hnormalized'.trans hnormalized⟩, fun hu => ?_⟩
  exact (hfactor' (hid.trans hu)).trans (hfactor hu)

/-- Updating one row of an account in place. -/
theorem Spares.updateUser {userId : Guid} {row : WallowUser}
    (hids : ∀ u ∈ store.users, ∀ v ∈ store.users, u.id = v.id → u = v)
    (hmem : user ∈ store.users) (hsame : SameAccount user row)
    (hfactor : user.id = userId → row.secondFactor = user.secondFactor) :
    Spares userId store (store.updateUser row) := by
  refine ⟨fun u => if u.id = row.id then row else u, rfl, fun u hu => ?_⟩
  dsimp only
  by_cases hid : u.id = row.id
  · have hu : u = user := hids u hu user hmem (hid.trans hsame.1)
    rw [if_pos hid, hu]
    exact ⟨hsame, hfactor⟩
  · rw [if_neg hid]
    exact ⟨⟨rfl, rfl, rfl⟩, fun _ => rfl⟩

theorem Spares.ids {userId : Guid} {store' : IdentityStore} (h : Spares userId store store')
    (hids : ∀ u ∈ store.users, ∀ v ∈ store.users, u.id = v.id → u = v) :
    ∀ u ∈ store'.users, ∀ v ∈ store'.users, u.id = v.id → u = v := by
  obtain ⟨f, hf, hkeeps⟩ := h
  intro row hrow row' hrow' hrows
  rw [hf] at hrow hrow'
  obtain ⟨u, hu, rfl⟩ := List.mem_map.mp hrow
  obtain ⟨v, hv, rfl⟩ := List.mem_map.mp hrow'
  have hsame : u.id = v.id := by
    rw [← (hkeeps u hu).1.1, ← (hkeeps v hv).1.1]
    exact hrows
  rw [hids u hu v hv hsame]

/-- An address finds the account it found before. -/
theorem Spares.findByEmail (platform : Platform) {userId : Guid} {store' : IdentityStore}
    (h : Spares userId store store') (email : String) :
    ∃ f : WallowUser → WallowUser, (∀ u ∈ store.users, SameAccount u (f u)) ∧
      store'.findByEmail platform email = (store.findByEmail platform email).map f := by
  obtain ⟨f, hf, hkeeps⟩ := h
  refine ⟨f, fun u hu => (hkeeps u hu).1, ?_⟩
  unfold IdentityStore.findByEmail
  rw [hf, List.find?_map]
  congr 1
  refine List.find?_congr fun v hv => ?_
  simp [(hkeeps v hv).1.2.2]

theorem Spares.findByEmail_id (platform : Platform) {userId : Guid} {store' : IdentityStore}
    (h : Spares userId store store') (email : String) :
    (store'.findByEmail platform email).map (·.id) =
      (store.findByEmail platform email).map (·.id) := by
  obtain ⟨f, hkeeps, hf⟩ := h.findByEmail platform email
  rw [hf]
  cases hfind : store.findByEmail platform email with
  | none => rfl
  | some u => exact congrArg some (hkeeps u (mem_of_findByEmail hfind)).1

theorem Spares.wellFormed {userId : Guid} {store' : IdentityStore}
    (h : Spares userId store store') (hwf : store.WellFormed platform) :
    store'.WellFormed platform where
  ids := h.ids hwf.ids
  addresses := by
    intro row hrow found hfound
    have hids := h.findByEmail_id platform (row.email.getD "")
    obtain ⟨f, hf, hkeeps⟩ := h
    rw [hf] at hrow
    obtain ⟨u, hu, rfl⟩ := List.mem_map.mp hrow
    obtain ⟨⟨hid, hemail, -⟩, -⟩ := hkeeps u hu
    rw [hfound, hemail] at hids
    obtain ⟨v, hv, hvid⟩ := Option.map_eq_some_iff.mp hids.symm
    have hvu : v.id = u.id := hwf.addresses u hu v hv
    exact hvid.symm.trans (hvu.trans hid.symm)

/-- The account with the spared second factor is still there. -/
theorem Spares.findById {store' : IdentityStore} (h : Spares user.id store store')
    (hids : ∀ u ∈ store.users, ∀ v ∈ store.users, u.id = v.id → u = v)
    (hmem : user ∈ store.users) :
    ∃ row ∈ store'.users, store'.findById user.id = some row ∧ row.id = user.id ∧
      row.secondFactor = user.secondFactor := by
  have hids' := h.ids hids
  obtain ⟨f, hf, hkeeps⟩ := h
  have hrow : f user ∈ store'.users := by
    rw [hf]
    exact List.mem_map_of_mem hmem
  have hid : (f user).id = user.id := (hkeeps user hmem).1.1
  refine ⟨f user, hrow, ?_, hid, (hkeeps user hmem).2 rfl⟩
  rw [← hid]
  exact findById_of_mem hids' hrow

end IdentityStore

/-! ## What one request does -/

/-- A request that leaves the account's second factor alone and hands out no sign-in as the
account: neither its cookie nor a ticket for an address that finds it. -/
structure Harmless (platform : Platform) (userId : Guid) (server : AuthServer)
    (result : Answer × AuthServer) : Prop where
  spares : IdentityStore.Spares userId server.store result.2.store
  cookie : ∀ handed, result.1 = .ok handed → handed.cookie ≠ some userId
  ticket : ∀ handed t, result.1 = .ok handed → handed.ticket = some t →
    ∀ u, server.store.findByEmail platform t.email = some u → u.id ≠ userId

section Requests

variable {platform : Platform} {userId : Guid} {server : AuthServer}

theorem Harmless.refused {refusal : Refusal} {server' : AuthServer}
    (h : IdentityStore.Spares userId server.store server'.store) :
    Harmless platform userId server (.error refusal, server') :=
  ⟨h, fun _ hok => (by cases hok), fun _ _ hok => (by cases hok)⟩

/-- An answer without cookie and ticket. -/
theorem Harmless.granted {handed : Handed} {server' : AuthServer}
    (h : IdentityStore.Spares userId server.store server'.store) (hcookie : handed.cookie = none)
    (hticket : handed.ticket = none) :
    Harmless platform userId server (.ok handed, server') := by
  refine ⟨h, fun _ hok => ?_, fun _ t hok ht => ?_⟩
  · cases hok
    rw [hcookie]
    exact nofun
  · cases hok
    rw [hticket] at ht
    cases ht

theorem Harmless.problem {entry : ErrorCatalogEntry} :
    Harmless platform userId server (problem entry, server) :=
  .refused (.refl _ _)

theorem AuthServer.updateAsync_spares {user row : WallowUser} {updateSucceeds : Bool}
    (hwf : server.store.WellFormed platform) (hmem : user ∈ server.store.users)
    (hsame : SameAccount user row)
    (hfactor : user.id = userId → row.secondFactor = user.secondFactor) :
    IdentityStore.Spares userId server.store (server.updateAsync row updateSucceeds).store := by
  cases updateSucceeds
  · exact .refl _ _
  · exact .updateUser hwf.ids hmem hsame hfactor

theorem AuthServer.resetMfaLockout_spares (userId : Guid)
    (hwf : server.store.WellFormed platform) (id : Guid) :
    IdentityStore.Spares userId server.store (server.resetMfaLockout id).store := by
  unfold AuthServer.resetMfaLockout
  cases hfind : server.store.findById id with
  | none => exact .refl _ _
  | some user =>
    have hmem := (IdentityStore.mem_of_findById hfind).1
    exact .updateUser hwf.ids hmem ⟨rfl, rfl, rfl⟩ fun _ => rfl

theorem AuthServer.recordMfaFailure_spares (hwf : server.store.WellFormed platform)
    {user : WallowUser} (hmem : user ∈ server.store.users) (now : Nat) :
    IdentityStore.Spares userId server.store (server.recordMfaFailure user now).2.store := by
  have hupdate : ∀ recorded, user.recordMfaFailure MAX_MFA_ATTEMPTS now = some recorded →
      IdentityStore.Spares userId server.store (server.store.updateUser recorded) := by
    intro recorded hrecorded
    obtain ⟨lockoutEnd, count, rfl⟩ := WallowUser.recordMfaFailure_eq_some hrecorded
    exact .updateUser hwf.ids hmem ⟨rfl, rfl, rfl⟩ fun _ => rfl
  unfold AuthServer.recordMfaFailure
  split
  · exact .refl _ _
  · split
    · exact .refl _ _
    · rename_i recorded hrecorded
      dsimp only
      split
      · exact hupdate recorded hrecorded
      · exact hupdate recorded hrecorded

/-- The password check moves the counter of failures and the lockout. -/
theorem checkPasswordSignIn_row (platform : Platform) (user : WallowUser) (password : String)
    (now : Nat) :
    ∃ count lockoutEnd, (checkPasswordSignIn platform user password now).2 =
      { user with accessFailedCount := count, lockoutEnd := lockoutEnd } := by
  unfold checkPasswordSignIn accessFailed
  dsimp only
  split
  · exact ⟨_, _, rfl⟩
  · split
    · exact ⟨_, _, rfl⟩
    · split <;> split <;> exact ⟨_, _, rfl⟩

/-- A ticket of `Login` is for the row's address, and MFA did not stop the row. -/
theorem loginDecision_succeeded {store : IdentityStore} {user : WallowUser} {rememberMe : Bool}
    {jti : Guid} {now : Nat} {t : SignInTicket} {enrollBefore : Option (Option Nat)}
    (h : loginDecision store user rememberMe jti now = .succeeded t enrollBefore) :
    t.email = user.email.getD "" ∧ (user.mfaEnabled && !store.exempt user now) = false := by
  unfold loginDecision at h
  dsimp only at h
  split at h
  · cases h
  · rename_i hmfa
    refine ⟨?_, by simpa using hmfa⟩
    split at h
    · split at h
      · cases h
        rfl
      · cases h
    · cases h
      rfl

/-- `Login` gives no ticket to an account with MFA that nothing exempts. -/
theorem login_harmless (hwf : server.store.WellFormed platform) {email password : String}
    {rememberMe : Bool} {jti : Guid} {now : Nat}
    (hfactor : ∀ u ∈ server.store.users, u.id = userId → u.mfaEnabled = true)
    (hexempt : ∀ u, server.store.findByEmail platform email = some u → u.id = userId →
      server.store.exempt u now = false) :
    Harmless platform userId server
      (server.login platform email password rememberMe jti now) := by
  unfold AuthServer.login Identity.login
  cases hfind : server.store.findByEmail platform email with
  | none => exact .problem
  | some user =>
    have hmem := IdentityStore.mem_of_findByEmail hfind
    obtain ⟨count, lockoutEnd, hrow⟩ :=
      checkPasswordSignIn_row platform user password now
    have hspares : IdentityStore.Spares userId server.store (server.store.updateUser
        { user with accessFailedCount := count, lockoutEnd := lockoutEnd }) :=
      .updateUser hwf.ids hmem ⟨rfl, rfl, rfl⟩ fun _ => rfl
    dsimp only
    rw [hrow]
    cases (checkPasswordSignIn platform user password now).1 with
    | lockedOut => exact .refused hspares
    | notAllowed => exact .refused hspares
    | failed => exact .refused hspares
    | succeeded =>
      dsimp only
      cases hdecision : loginDecision (server.store.updateUser
          { user with accessFailedCount := count, lockoutEnd := lockoutEnd })
          { user with accessFailedCount := count, lockoutEnd := lockoutEnd } rememberMe jti now with
      | invalidCredentials => exact .refused hspares
      | lockedOut => exact .refused hspares
      | emailNotConfirmed => exact .refused hspares
      | mfaRequired cookie => exact .granted hspares rfl rfl
      | mfaEnrollmentRequired cookie => exact .granted hspares rfl rfl
      | succeeded t enrollBefore =>
        obtain ⟨hemail, hpassed⟩ := loginDecision_succeeded hdecision
        refine ⟨hspares, fun _ hok => ?_, fun _ t' hok ht u hu => ?_⟩
        · cases hok
          exact nofun
        · cases hok
          cases ht
          rw [hemail] at hu
          rw [hwf.addresses user hmem u hu]
          intro hid
          have hmfa : user.mfaEnabled = true := hfactor user hmem hid
          have hnot : server.store.exempt user now = false := hexempt user hfind hid
          change (user.mfaEnabled && !server.store.exempt user now) = false at hpassed
          rw [hmfa, hnot] at hpassed
          cases hpassed

/-- A right code signs in the account of the partial-auth cookie. -/
theorem completeMfaChallenge_harmless (hwf : server.store.WellFormed platform)
    {server' : AuthServer} (hspares : IdentityStore.Spares userId server.store server'.store)
    {payload : MfaPartialAuthPayload} {user : WallowUser} {jti : Guid} {now : Nat}
    (hmem : user ∈ server.store.users) (hid : user.id = payload.userId)
    (hother : payload.userId ≠ userId) :
    Harmless platform userId server (server'.completeMfaChallenge payload user jti now) := by
  have hreset := server'.resetMfaLockout_spares userId (hspares.wellFormed hwf) user.id
  refine ⟨hspares.trans hreset, fun _ hok => ?_, fun _ t hok ht u hu => ?_⟩
  · cases hok
    intro hcookie
    obtain ⟨row, hrow, hrowId⟩ := Option.map_eq_some_iff.mp hcookie
    exact hother ((IdentityStore.mem_of_findById hrow).2.symm.trans hrowId)
  · cases hok
    obtain ⟨email, hemail, rfl⟩ := Option.map_eq_some_iff.mp ht
    have hfound : u.id = user.id := hwf.addresses user hmem u (by rw [hemail]; exact hu)
    rw [hfound, hid]
    exact hother

/-- `VerifyMfaChallenge` signs another account in, or meets a code that is worth nothing. -/
theorem verifyMfaChallenge_harmless (hwf : server.store.WellFormed platform)
    {presented : Presented} {code : String} {jti : Guid} {updateSucceeds : Bool} {now : Nat}
    (hcode : ∀ payload, presented.partialAuth = some payload → payload.userId = userId →
      ∀ user, server.store.findById userId = some user →
        (∀ secret, user.totpSecretEncrypted = some secret →
          platform.validateTotp secret code now ≠ some true) ∧
        platform.redeemBackupCode user code = none) :
    Harmless platform userId server
      (server.verifyMfaChallenge platform presented code jti updateSucceeds now) := by
  unfold AuthServer.verifyMfaChallenge
  cases hpayload : validatePartialCookie presented now with
  | none => exact .problem
  | some payload =>
    have hpresented : presented.partialAuth = some payload :=
      (Option.filter_eq_some_iff.mp hpayload).1
    dsimp only
    cases hfind : server.store.findById payload.userId with
    | none => exact .problem
    | some user =>
      obtain ⟨hmem, hid⟩ := IdentityStore.mem_of_findById hfind
      dsimp only
      cases hsecret : user.totpSecretEncrypted.filter (· ≠ "") with
      | none => exact .problem
      | some secret =>
        have hstored : user.totpSecretEncrypted = some secret :=
          (Option.filter_eq_some_iff.mp hsecret).1
        -- a right code is for another account
        have hother (hright : platform.validateTotp secret code now = some true ∨
            platform.redeemBackupCode user code ≠ none) : payload.userId ≠ userId := by
          intro hself
          rw [hself] at hfind
          obtain ⟨htotp, hbackup⟩ := hcode payload hpresented hself user hfind
          cases hright with
          | inl hright => exact htotp secret hstored hright
          | inr hright => exact hright hbackup
        dsimp only
        split
        · exact .problem
        · cases hvalid : platform.validateTotp secret code now with
          | none => exact .refused (.refl _ _)
          | some valid =>
            cases valid
            · dsimp only
              cases hbackup : platform.redeemBackupCode user code with
              | none =>
                dsimp only
                split
                · exact .refused (server.recordMfaFailure_spares hwf hmem now)
                · exact .refused (server.recordMfaFailure_spares hwf hmem now)
                · exact .refused (server.recordMfaFailure_spares hwf hmem now)
              | some remaining =>
                have hother := hother (.inr (by rw [hbackup]; exact nofun))
                have hspares : IdentityStore.Spares userId server.store
                    (server.updateAsync (user.setBackupCodes remaining) updateSucceeds).store :=
                  server.updateAsync_spares hwf hmem ⟨rfl, rfl, rfl⟩
                    fun hself => (hother (hid.symm.trans hself)).elim
                exact completeMfaChallenge_harmless hwf hspares hmem hid hother
            · exact completeMfaChallenge_harmless hwf (.refl _ _) hmem hid (hother (.inl hvalid))

/-- A ticket signs in whom its address finds. -/
theorem exchangeTicket_harmless {ticket : SignInTicket} {now : Nat}
    (hticket : ∀ u, server.store.findByEmail platform ticket.email = some u → u.id ≠ userId) :
    Harmless platform userId server (server.exchangeTicket platform ticket now) := by
  unfold AuthServer.exchangeTicket Identity.exchangeTicket
  by_cases hlate : ticket.expiresAt < now
  · rw [if_pos hlate]
    exact .refused (.refl _ _)
  · rw [if_neg hlate]
    by_cases hused : ticket.jti ∈ server.usedTickets
    · rw [if_pos hused]
      exact .refused (.refl _ _)
    · rw [if_neg hused]
      dsimp only
      cases hfind : server.store.findByEmail platform ticket.email with
      | none => exact .refused (.refl _ _)
      | some user =>
        refine ⟨.refl _ _, fun _ hok hcookie => ?_, fun _ t hok ht => ?_⟩
        · cases hok
          exact hticket user hfind (Option.some.inj hcookie)
        · cases hok
          cases ht

theorem enrollTotp_harmless {presented : Presented} {secret : String} {now : Nat} :
    Harmless platform userId server (server.enrollTotp presented secret now) := by
  unfold AuthServer.enrollTotp
  split
  · exact .problem
  · exact .granted (.refl _ _) rfl rfl

/-- An enrollment token is good for a partial-auth cookie only. -/
theorem issueEnrollmentToken_harmless {principal : Option Guid} {email : Option String}
    {now : Nat} :
    Harmless platform userId server (server.issueEnrollmentToken principal email now) := by
  unfold AuthServer.issueEnrollmentToken
  split
  · exact .refused (.refl _ _)
  · split
    · exact .problem
    · exact .granted (.refl _ _) rfl rfl

theorem exchangeEnrollmentToken_harmless {token : EnrollmentToken} {now : Nat} :
    Harmless platform userId server (server.exchangeEnrollmentToken token now) := by
  unfold AuthServer.exchangeEnrollmentToken
  split
  · exact .problem
  · exact .granted (.refl _ _) rfl rfl

/-- `ConfirmEnrollment` enrolls and signs in the account it resolves. -/
theorem confirmEnrollment_harmless (hwf : server.store.WellFormed platform)
    {presented : Presented} {secret code : String} {backupCodes : List String}
    {updateSucceeds : Bool} {now : Nat}
    (hother : resolveEnrollmentUserId presented now ≠ some userId) :
    Harmless platform userId server (server.confirmEnrollment platform presented secret code
      backupCodes updateSucceeds now) := by
  unfold AuthServer.confirmEnrollment
  cases hresolved : resolveEnrollmentUserId presented now with
  | none => exact .problem
  | some resolved =>
    have hother : resolved ≠ userId := fun hself => hother (by rw [hresolved, hself])
    dsimp only
    cases platform.validateTotp secret code now with
    | none => exact .refused (.refl _ _)
    | some valid =>
      cases valid
      · exact .problem
      · dsimp only
        cases hfind : server.store.findById resolved with
        | none => exact .problem
        | some user =>
          obtain ⟨hmem, hid⟩ := IdentityStore.mem_of_findById hfind
          dsimp only
          cases henabled : user.enableMfa secret with
          | none => exact .refused (.refl _ _)
          | some enabled =>
            have hsame : SameAccount user
                (enabled.setBackupCodes (backupCodes.map platform.sha256Hex)) := by
              unfold WallowUser.enableMfa at henabled
              split at henabled
              · cases henabled
              · cases henabled
                exact ⟨rfl, rfl, rfl⟩
            have hspares : IdentityStore.Spares userId server.store (server.updateAsync
                (enabled.setBackupCodes (backupCodes.map platform.sha256Hex)) true).store :=
              server.updateAsync_spares hwf hmem hsame
                fun hself => (hother (hid.symm.trans hself)).elim
            dsimp only
            cases updateSucceeds
            · exact .problem
            · simp only [Bool.not_true, Bool.false_eq_true, if_false]
              cases validatePartialCookie presented now with
              | none => exact .granted hspares rfl rfl
              | some payload =>
                refine ⟨hspares, fun _ hok hcookie => ?_, fun _ t hok ht => ?_⟩
                · cases hok
                  obtain ⟨row, hrow, hrowId⟩ := Option.map_eq_some_iff.mp hcookie
                  exact hother ((IdentityStore.mem_of_findById hrow).2.symm.trans hrowId)
                · cases hok
                  cases ht

/-- A signed-in caller's own settings, when the caller is someone else. -/
theorem disable_harmless (hwf : server.store.WellFormed platform) {principal : Option Guid}
    {password : String} {updateSucceeds : Bool} (hother : principal ≠ some userId) :
    Harmless platform userId server
      (server.disable platform principal password updateSucceeds) := by
  unfold AuthServer.disable
  cases principal with
  | none => exact .refused (.refl _ _)
  | some caller =>
    dsimp only
    cases hfind : server.store.findById caller with
    | none => exact .problem
    | some user =>
      obtain ⟨hmem, hid⟩ := IdentityStore.mem_of_findById hfind
      have hspares : IdentityStore.Spares userId server.store
          (server.updateAsync user.disableMfa updateSucceeds).store :=
        server.updateAsync_spares hwf hmem ⟨rfl, rfl, rfl⟩
          fun hself => (hother (by rw [← hid, hself])).elim
      dsimp only
      split
      · exact .problem
      · split
        · exact .problem
        · exact .granted hspares rfl rfl

theorem regenerateBackupCodes_harmless (hwf : server.store.WellFormed platform)
    {principal : Option Guid} {password : String} {backupCodes : List String}
    {updateSucceeds : Bool} (hother : principal ≠ some userId) :
    Harmless platform userId server
      (server.regenerateBackupCodes platform principal password backupCodes updateSucceeds) := by
  unfold AuthServer.regenerateBackupCodes
  cases principal with
  | none => exact .refused (.refl _ _)
  | some caller =>
    dsimp only
    cases hfind : server.store.findById caller with
    | none => exact .problem
    | some user =>
      obtain ⟨hmem, hid⟩ := IdentityStore.mem_of_findById hfind
      dsimp only
      split
      · exact .problem
      · refine .granted (server.updateAsync_spares hwf hmem ⟨rfl, rfl, rfl⟩ fun hself => ?_) rfl rfl
        exact (hother (by rw [← hid, hself])).elim

theorem adminDisableMfa_harmless (hwf : server.store.WellFormed platform)
    {principal : Option Guid} {target : Guid} {updateSucceeds : Bool} (hother : target ≠ userId) :
    Harmless platform userId server
      (server.adminDisableMfa principal target updateSucceeds) := by
  unfold AuthServer.adminDisableMfa
  cases principal with
  | none => exact .refused (.refl _ _)
  | some caller =>
    dsimp only
    cases hfind : server.store.findById target with
    | none => exact .problem
    | some user =>
      obtain ⟨hmem, hid⟩ := IdentityStore.mem_of_findById hfind
      refine .granted (server.updateAsync_spares hwf hmem ⟨rfl, rfl, rfl⟩ fun hself => ?_) rfl rfl
      exact (hother (hid.symm.trans hself)).elim

theorem adminClearLockout_harmless (hwf : server.store.WellFormed platform)
    {principal : Option Guid} {target : Guid} :
    Harmless platform userId server (server.adminClearLockout principal target) := by
  unfold AuthServer.adminClearLockout
  cases principal with
  | none => exact .refused (.refl _ _)
  | some caller =>
    dsimp only
    cases hfind : server.store.findById target with
    | none => exact .problem
    | some user =>
      have hmem := (IdentityStore.mem_of_findById hfind).1
      have hcleared : IdentityStore.Spares userId server.store (server.updateAsync { user with
          lockoutEnd := if user.lockoutEnabled then none else user.lockoutEnd
          accessFailedCount := 0 } true).store :=
        server.updateAsync_spares hwf hmem ⟨rfl, rfl, rfl⟩ fun _ => rfl
      have hreset := AuthServer.resetMfaLockout_spares userId (hcleared.wellFormed hwf) user.id
      exact .granted (hcleared.trans hreset) rfl rfl

end Requests

/-! ## Runs -/

/-- What a caller who has the password of `user` and no second factor of theirs can ask: the codes
sent under the account's partial-auth cookie are worth nothing, `Login` finds the account exempt
under no policy, and no request enrolls the account anew or takes its MFA away. -/
def WithoutSecondFactor (platform : Platform) (user : WallowUser) (state : MfaState) :
    Nat × MfaRequest → Prop
  | (now, .login email _ _ _) =>
    ∀ u, state.server.store.findByEmail platform email = some u → u.id = user.id →
      state.server.store.exempt u now = false
  | (now, .verifyMfaChallenge presented code _ _) =>
    ∀ payload, presented.partialAuth = some payload → payload.userId = user.id →
      (∀ secret, user.totpSecretEncrypted = some secret →
        platform.validateTotp secret code now ≠ some true) ∧
      platform.redeemBackupCode user code = none
  | (now, .confirmEnrollment presented _ _ _ _) =>
    resolveEnrollmentUserId presented now ≠ some user.id
  | (_, .adminDisableMfa _ userId _) => userId ≠ user.id
  | _ => True

/-- The invariant: the account still has its second factor, and the caller holds neither its
cookie nor a ticket for it. -/
structure Guarded (platform : Platform) (user : WallowUser) (state : MfaState) : Prop where
  wellFormed : state.server.store.WellFormed platform
  row : ∃ row ∈ state.server.store.users, row.id = user.id ∧ row.secondFactor = user.secondFactor
  cookies : user.id ∉ state.cookies
  tickets : ∀ t ∈ state.tickets, ∀ u,
    state.server.store.findByEmail platform t.email = some u → u.id ≠ user.id

namespace Guarded

variable {platform : Platform} {user : WallowUser} {state : MfaState}

theorem row_of_mem (h : Guarded platform user state) {u : WallowUser}
    (hu : u ∈ state.server.store.users) (hid : u.id = user.id) :
    u.secondFactor = user.secondFactor := by
  obtain ⟨row, hrow, hrowId, hfactor⟩ := h.row
  rw [h.wellFormed.ids u hu row hrow (hid.trans hrowId.symm)]
  exact hfactor

theorem not_principal (h : Guarded platform user state) {principal : Option Guid}
    (hholds : principal.all (· ∈ state.cookies) = true) : principal ≠ some user.id := by
  rintro rfl
  simp only [Option.all_some, decide_eq_true_eq] at hholds
  exact h.cookies hholds

/-- Receiving a harmless answer keeps the invariant. -/
theorem receive (h : Guarded platform user state) {result : Answer × AuthServer}
    (hharmless : Harmless platform user.id state.server result) :
    Guarded platform user (state.receive result.2 result.1) := by
  obtain ⟨row, hrow, hid, hfactor⟩ := h.row
  have hspares := hharmless.spares
  have hrow' : ∃ row ∈ result.2.store.users, row.id = user.id ∧
      row.secondFactor = user.secondFactor := by
    rw [← hid] at hspares
    obtain ⟨row', hmem, -, hid', hfactor'⟩ := hspares.findById h.wellFormed.ids hrow
    exact ⟨row', hmem, hid'.trans hid, hfactor'.trans hfactor⟩
  -- a ticket that found another account still finds that one
  have hback : ∀ t : SignInTicket,
      (∀ u, state.server.store.findByEmail platform t.email = some u → u.id ≠ user.id) →
      ∀ u, result.2.store.findByEmail platform t.email = some u → u.id ≠ user.id := by
    intro t ht u hu
    have hids := hspares.findByEmail_id platform t.email
    rw [hu] at hids
    obtain ⟨v, hv, hvid⟩ := Option.map_eq_some_iff.mp hids.symm
    have hvu : v.id = u.id := hvid
    rw [← hvu]
    exact ht v hv
  cases hanswer : result.1 with
  | error refusal =>
    exact ⟨hspares.wellFormed h.wellFormed, hrow', h.cookies, fun t ht => hback t (h.tickets t ht)⟩
  | ok handed =>
    refine ⟨hspares.wellFormed h.wellFormed, hrow', ?_, ?_⟩
    · intro hmem
      cases List.mem_append.mp hmem with
      | inl hnew => exact hharmless.cookie handed hanswer (Option.mem_toList.mp hnew)
      | inr hold => exact h.cookies hold
    · intro t hmem
      cases List.mem_append.mp hmem with
      | inl hnew =>
        exact hback t (hharmless.ticket handed t hanswer (Option.mem_toList.mp hnew))
      | inr hold => exact hback t (h.tickets t hold)

/-- Every request of the caller is harmless. -/
theorem serve_harmless (h : Guarded platform user state) (hmfa : user.mfaEnabled = true)
    {now : Nat} {request : MfaRequest} (hholds : state.holds request = true)
    (hwithout : WithoutSecondFactor platform user state (now, request)) :
    Harmless platform user.id state.server (state.server.serve platform now request) := by
  cases request with
  | login email password rememberMe jti =>
    refine login_harmless h.wellFormed (fun u hu hid => ?_) hwithout
    have hfactor := h.row_of_mem hu hid
    have hkept : u.mfaEnabled = user.mfaEnabled := congrArg Prod.fst hfactor
    rw [hkept]
    exact hmfa
  | verifyMfaChallenge presented code jti updateSucceeds =>
    refine verifyMfaChallenge_harmless h.wellFormed fun payload hpayload hself u hu => ?_
    obtain ⟨hmem, hid⟩ := IdentityStore.mem_of_findById hu
    have hfactor := h.row_of_mem hmem hid
    have hsecret : u.totpSecretEncrypted = user.totpSecretEncrypted :=
      congrArg (·.2.1) hfactor
    have hhashes : u.backupCodesHash = user.backupCodesHash := congrArg (·.2.2) hfactor
    obtain ⟨htotp, hbackup⟩ := hwithout payload hpayload hself
    refine ⟨fun secret hstored => htotp secret (hsecret.symm.trans hstored), ?_⟩
    rw [← hbackup]
    unfold Platform.redeemBackupCode
    rw [hhashes]
  | exchangeTicket ticket =>
    have hmem : ticket ∈ state.tickets := by simpa [MfaState.holds] using hholds
    exact exchangeTicket_harmless (h.tickets ticket hmem)
  | enrollTotp presented secret =>
    exact enrollTotp_harmless
  | confirmEnrollment presented secret code backupCodes updateSucceeds =>
    exact confirmEnrollment_harmless h.wellFormed hwithout
  | issueEnrollmentToken principal email =>
    exact issueEnrollmentToken_harmless
  | exchangeEnrollmentToken token =>
    exact exchangeEnrollmentToken_harmless
  | disable principal password updateSucceeds =>
    exact disable_harmless h.wellFormed (h.not_principal hholds)
  | regenerateBackupCodes principal password backupCodes updateSucceeds =>
    exact regenerateBackupCodes_harmless h.wellFormed (h.not_principal hholds)
  | adminDisableMfa principal userId updateSucceeds =>
    exact adminDisableMfa_harmless h.wellFormed hwithout
  | adminClearLockout principal userId =>
    exact adminClearLockout_harmless h.wellFormed

theorem step (h : Guarded platform user state) (hmfa : user.mfaEnabled = true)
    {request : Nat × MfaRequest} {state' : MfaState}
    (hwithout : WithoutSecondFactor platform user state request)
    (hstep : state.step platform request = some state') : Guarded platform user state' := by
  unfold MfaState.step at hstep
  split at hstep
  · rename_i hholds
    cases hstep
    exact h.receive (h.serve_harmless hmfa hholds hwithout)
  · cases hstep

end Guarded

/-- **The password of an account with MFA signs nobody in.**  In every run of a caller without the
account's second factor, the caller never holds its application cookie, and the account keeps its
secret and its backup codes. -/
theorem password_alone_never_signs_in {platform : Platform} {user : WallowUser}
    {start state : MfaState} (hwf : start.server.store.WellFormed platform)
    (huser : user ∈ start.server.store.users) (hmfa : user.mfaEnabled = true)
    (hcookies : user.id ∉ start.cookies)
    (htickets : ∀ t ∈ start.tickets, ∀ u,
      start.server.store.findByEmail platform t.email = some u → u.id ≠ user.id)
    (hrun : Transition.Reaches (MfaState.step platform) (WithoutSecondFactor platform user) start
      state) :
    user.id ∉ state.cookies ∧
      ∃ row, state.server.store.findById user.id = some row ∧
        row.totpSecretEncrypted = user.totpSecretEncrypted ∧
        row.backupCodesHash = user.backupCodesHash := by
  have hstart : Guarded platform user start := ⟨hwf, ⟨user, huser, rfl, rfl⟩, hcookies, htickets⟩
  have hguarded : Guarded platform user state := hrun.invariant (Guarded platform user) hstart
    fun _ _ _ hinv hwithout hstep => hinv.step hmfa hwithout hstep
  obtain ⟨row, hrow, hid, hfactor⟩ := hguarded.row
  refine ⟨hguarded.cookies, row, ?_, congrArg (·.2.1) hfactor, congrArg (·.2.2) hfactor⟩
  rw [← hid]
  exact IdentityStore.findById_of_mem hguarded.wellFormed.ids hrow

/-! ## Runs on one account -/

/-- `ann` with MFA enabled. -/
def enrolledAnn : WallowUser :=
  { ann with
    mfaEnabled := true
    mfaMethod := some "totp"
    totpSecretEncrypted := some "JBSWY3DPEHPK3PXPJBSWY3DPEHPK3PXP"
    backupCodesHash :=
      some ["84c758f13a821a4087fd1687740ffc64429fdddd54b77117db6bf536be94faa5"] }

/-- Nothing was handed out yet. -/
def freshState (store : IdentityStore) : MfaState :=
  ⟨⟨store, [], fun _ => none⟩, [], [], [], []⟩

def enrolledState : MfaState := freshState ⟨[enrolledAnn], [], [], []⟩

/-- What `Login` hands out to the password of an account with MFA. -/
def annPartialAuth : MfaPartialAuthPayload :=
  issuePartialCookie enrolledAnn "ann@example.com" "password" false 590000000

def passwordLogin : Nat × MfaRequest :=
  (590000000, .login "ann@example.com" "correct horse" false 7)

def guessedCode : Nat × MfaRequest :=
  (590000000, .verifyMfaChallenge ⟨none, some annPartialAuth⟩ "000000" 8 true)

def loggedInState : MfaState :=
  (enrolledState.step samplePlatform passwordLogin).get (by decide +kernel)

def guessedState : MfaState :=
  (loggedInState.step samplePlatform guessedCode).get (by decide +kernel)

theorem reaches_guessedState : Transition.Reaches (MfaState.step samplePlatform)
    (WithoutSecondFactor samplePlatform enrolledAnn) enrolledState guessedState := by
  have hlogin : WithoutSecondFactor samplePlatform enrolledAnn enrolledState passwordLogin := by
    intro u _ _
    simp [IdentityStore.exempt, isExempt, activeOrganizations, enrolledState, freshState]
  have hguess : WithoutSecondFactor samplePlatform enrolledAnn loggedInState guessedCode := by
    intro payload _ _
    refine ⟨fun secret hsecret => ?_, by decide +kernel⟩
    cases hsecret
    decide +kernel
  exact .tail (.tail .refl hlogin (Option.some_get _).symm) hguess (Option.some_get _).symm

/-- The password and a guessed code: no cookie, and the failure is counted. -/
theorem password_alone_never_signs_in_guessed :
    enrolledAnn.id ∉ guessedState.cookies ∧
      ∃ row, guessedState.server.store.findById enrolledAnn.id = some row ∧
        row.totpSecretEncrypted = enrolledAnn.totpSecretEncrypted ∧
        row.backupCodesHash = enrolledAnn.backupCodesHash := by
  have hwf : enrolledState.server.store.WellFormed samplePlatform := by
    constructor
    · simp [enrolledState, freshState]
    · intro u hu v hv
      have hmem := IdentityStore.mem_of_findByEmail hv
      simp only [enrolledState, freshState, List.mem_singleton] at hu hmem
      rw [hu, hmem]
  have hmem : enrolledAnn ∈ enrolledState.server.store.users := by simp [enrolledState, freshState]
  exact password_alone_never_signs_in hwf hmem rfl (by decide) (by simp [enrolledState, freshState])
    reaches_guessedState

/-- `enrolledAnn` in an organization whose grace period still runs for the account. -/
def exemptState : MfaState :=
  freshState
    ⟨[{ enrolledAnn with mfaGraceDeadline := some 900000000000 }], [],
      [⟨1, 1, 3, .active, false, none, some 0, none, none, [], 0, 2, none, none⟩],
      [⟨3, true, false, 30⟩]⟩

/-- Two runs with the password and no code of the account: the exempt account is signed in through
its ticket, and the account that is not exempt through enrolling a secret of the caller's own. -/
theorem password_alone_signs_in :
    (Transition.run (MfaState.step samplePlatform) (fun _ _ => true) exemptState
      [passwordLogin, (590000001, .exchangeTicket (createSignInTicket "ann@example.com" false 7
        590000000))]).map (·.cookies) = some [enrolledAnn.id] ∧
    (Transition.run (MfaState.step samplePlatform) (fun _ _ => true) enrolledState
      [passwordLogin, (590000000, .confirmEnrollment ⟨none, some annPartialAuth⟩
        "GEZDGNBVGY3TQOJQGEZDGNBVGY3TQOJQ" "287082" [] true)]).map
        (fun state => (state.cookies, state.server.store.users.map (·.totpSecretEncrypted))) =
      some ([enrolledAnn.id], [some "GEZDGNBVGY3TQOJQGEZDGNBVGY3TQOJQ"]) := by
  decide +kernel

end Wallow.Identity
