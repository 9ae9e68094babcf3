import Mathlib.Logic.Function.Basic
import Wallow.Identity.Membership
import Wallow.Identity.Mfa
import Wallow.Lib.Transition

/-!
# What a person can do to their own membership

`EnrollAsync`, `LeaveAsync` and `AcceptInvitationAsync` of one person, one after the other.  A
call reads the clock once and answers from what the database holds when it runs; the person's
memberships are the rows of the unique `(UserId, OrganizationId)` index.
-/

namespace Wallow.Identity

open Transition

/-! ## What the calls read -/

inductive EnrollmentPolicy
  | inviteOnly
  | requestApproval
  | open
  deriving DecidableEq

inductive EnrollmentOutcome
  | enrolled
  | pendingApproval
  | rejected (reason : String)
  deriving DecidableEq

namespace EnrollmentReasons

def notAMember : String := "not_a_member"
def emailUnverified : String := "email_unverified"
def membershipSuspended : String := "membership_suspended"
def membershipDenied : String := "membership_denied"

end EnrollmentReasons

structure Organization where
  isActive : Bool
  deriving DecidableEq

inductive InvitationStatus
  | pending
  | accepted
  | expired
  | revoked
  deriving DecidableEq

def InvitationStatus.name : InvitationStatus → String
  | .pending => "Pending"
  | .accepted => "Accepted"
  | .expired => "Expired"
  | .revoked => "Revoked"

structure Invitation where
  tenantId : Guid
  email : String
  status : InvitationStatus
  expiresAt : Instant
  acceptedByUserId : Option Guid
  deriving DecidableEq

/-- The rows one call finds besides the person's memberships and invitations: other people write
them between calls.  `newId` is the `MembershipId.New()` of the call, `defaultRole` what
`DefaultMemberRoleResolver` answers. -/
structure Surroundings where
  organization : Option Organization
  user : Option WallowUser
  enrollmentPolicy : Option EnrollmentPolicy
  defaultRole : Except DomainException Guid
  newId : Guid

/-- The person's rows, and the clock of the last call. -/
structure Enrollments where
  memberships : Guid → Option Membership
  invitations : String → Option Invitation
  now : Instant

/-! ## Enrollment -/

def fromExisting : MembershipStatus → EnrollmentOutcome
  | .active => .enrolled
  | .pending => .pendingApproval
  | .suspended => .rejected EnrollmentReasons.membershipSuspended
  | .denied => .rejected EnrollmentReasons.membershipDenied

/-- A denied membership whose cooldown is over. -/
def spentDenial (existing : Option Membership) (now : Instant) : Option Membership :=
  existing.filter fun m => m.status = .denied && !m.isWithinDenialCooldown now

/-- Missing settings default to InviteOnly, disabling self-service enrollment. -/
def resolvePolicy (settings : Option EnrollmentPolicy) : EnrollmentPolicy :=
  settings.getD .inviteOnly

/-- The row `EnrollDirectlyAsync` saves. -/
def enrollDirectly (env : Surroundings) (userId organizationId : Guid)
    (denial : Option Membership) (now : Instant) : Except DomainException Membership :=
  env.defaultRole.bind fun roleId =>
    match denial with
    | none => Membership.enroll env.newId userId organizationId roleId now
    | some denial => denial.enrollAgain roleId now

/-- The row `RecordRequestAsync` saves. -/
def recordRequest (env : Surroundings) (userId organizationId : Guid)
    (denial : Option Membership) (now : Instant) : Except DomainException Membership :=
  match denial with
  | none => Membership.requestAccess env.newId userId organizationId now
  | some denial => denial.requestAgain now

/-- `EnrollAsync`: the answer, and the membership row saved with it, if any. -/
def enrollAsync (env : Surroundings) (userId organizationId : Guid)
    (existing : Option Membership) (now : Instant) :
    Except DomainException (EnrollmentOutcome × Option Membership) :=
  let denial := spentDenial existing now
  match existing, denial with
  | some existing, none => .ok (fromExisting existing.status, none)
  | _, _ =>
    -- an organization that does not exist is refused like an inactive one
    if env.organization.all (!·.isActive) then
      .ok (.rejected EnrollmentReasons.notAMember, none)
    else if env.user.all (!·.isActive) then
      .ok (.rejected EnrollmentReasons.notAMember, none)
    else if env.user.all (!·.emailConfirmed) then
      .ok (.rejected EnrollmentReasons.emailUnverified, none)
    else
      match resolvePolicy env.enrollmentPolicy with
      | .open =>
        (enrollDirectly env userId organizationId denial now).map (.enrolled, some ·)
      | .requestApproval =>
        (recordRequest env userId organizationId denial now).map (.pendingApproval, some ·)
      | .inviteOnly => .ok (.rejected EnrollmentReasons.notAMember, none)

/-! ## Leaving -/

/-- The recount of `LastOwnerGuard` when nobody else departs: the active owners, with the
person among them if their row says so. -/
def activeOwners (otherOwners : List Guid) (membership : Membership) : List Guid :=
  if membership.isActiveOwner then membership.userId :: otherOwners else otherOwners

/-- `LeaveAsync`, which answers with nothing when the row has been deleted.  Whatever status the
row has, only the last owner is kept. -/
def leaveAsync (otherOwners : List Guid) (userId : Guid) (existing : Option Membership) :
    Except DomainException Unit :=
  match existing with
  | none => .error (.of IdentityErrors.memberNotFound)
  | some membership =>
    if activeOwners otherOwners membership = [userId] then .error (.of IdentityErrors.lastOwner)
    else .ok ()

/-! ## Invitations -/

/-- `Invitation.Accept`: the row as it is left, and what was thrown. -/
def Invitation.accept (invitation : Invitation) (userId : Guid) (now : Instant) :
    Invitation × Except DomainException Unit :=
  if invitation.status ≠ .pending then
    (invitation, .error ⟨IdentityErrors.invitationNotPending,
      "Cannot accept invitation with status '" ++ invitation.status.name ++ "'"⟩)
  else if invitation.expiresAt ≤ now then
    ({ invitation with status := .expired }, .error (.of IdentityErrors.invitationExpired))
  else
    ({ invitation with status := .accepted, acceptedByUserId := some userId }, .ok ())

def MembershipStatus.name : MembershipStatus → String
  | .pending => "Pending"
  | .active => "Active"
  | .suspended => "Suspended"
  | .denied => "Denied"

/-- `ApplyMembershipAsync`: the row to save, `none` for a person who is a member already. -/
def applyMembership (env : Surroundings) (membership : Option Membership)
    (userId organizationId : Guid) (now : Instant) :
    Except DomainException (Option Membership) :=
  match membership with
  | none =>
    env.defaultRole.bind fun roleId =>
      (Membership.enroll env.newId userId organizationId roleId now).map some
  | some membership =>
    match membership.status with
    | .pending =>
      env.defaultRole.bind fun roleId => (membership.approve roleId userId now).map some
    | .active => .ok none
    | status => .error ⟨IdentityErrors.membershipNotReinstatable,
        "Membership of this organization is '" ++ status.name ++
          "' and cannot be resumed by invitation"⟩

section

-- `string.ToUpperInvariant`, of which nothing is needed but that it is a function
variable (toUpperInvariant : String → String)

def guardInvitedIdentity (user : Option WallowUser) (invitation : Invitation) :
    Except DomainException Unit :=
  match user with
  | none => .error (.of IdentityErrors.userNotFound)
  | some user =>
    if !user.emailConfirmed then .error (.of IdentityErrors.invitationEmailNotVerified)
    else if user.normalizedEmail ≠ some (toUpperInvariant invitation.email) then
      .error (.of IdentityErrors.invitationEmailMismatch)
    else .ok ()

/-- `AcceptInvitationAsync`: the rows after the call, and what it answers.  An invitation found
expired is saved as such; nothing is saved of an acceptance whose membership is refused. -/
def acceptInvitationAsync (env : Surroundings) (userId : Guid) (token : String)
    (s : Enrollments) (now : Instant) : Enrollments × Except DomainException Unit :=
  match s.invitations token with
  | none => (s, .error (.of IdentityErrors.invitationNotFound))
  | some invitation =>
    match guardInvitedIdentity toUpperInvariant env.user invitation with
    | .error e => (s, .error e)
    | .ok () =>
      match invitation.accept userId now with
      -- only an invitation found expired differs from the row that was read
      | (saved, .error e) =>
        ({ s with invitations := Function.update s.invitations token (some saved) }, .error e)
      | (saved, .ok ()) =>
        let organizationId := invitation.tenantId
        match applyMembership env (s.memberships organizationId) userId organizationId now with
        -- the exception leaves before the save
        | .error e => (s, .error e)
        | .ok row =>
          ({ s with
              invitations := Function.update s.invitations token (some saved)
              memberships := match row with
                | none => s.memberships
                | some row => Function.update s.memberships organizationId (some row) },
            .ok ())

/-! ## Runs -/

inductive SelfService
  | enroll (organizationId : Guid)
  | leave (organizationId : Guid)
  | acceptInvitation (token : String)
  deriving DecidableEq

/-- One call, what it finds (`otherOwners` are the active owners but for the person) and when it
runs. -/
structure SelfServiceCall where
  request : SelfService
  env : Surroundings
  otherOwners : List Guid
  at_ : Instant

def perform (userId : Guid) (s : Enrollments) (call : SelfServiceCall) : Enrollments :=
  match call.request with
  | .enroll organizationId =>
    match enrollAsync call.env userId organizationId (s.memberships organizationId) call.at_ with
    | .ok (_, some row) =>
      { s with memberships := Function.update s.memberships organizationId (some row) }
    | _ => s
  | .leave organizationId =>
    match leaveAsync call.otherOwners userId (s.memberships organizationId) with
    | .ok () => { s with memberships := Function.update s.memberships organizationId none }
    | .error _ => s
  | .acceptInvitation token =>
    (acceptInvitationAsync toUpperInvariant call.env userId token s call.at_).1

/-- The clock does not go back. -/
def selfServiceStep (userId : Guid) (s : Enrollments) (call : SelfServiceCall) :
    Option Enrollments :=
  if s.now ≤ call.at_ then
    some { perform toUpperInvariant userId s call with now := call.at_ }
  else none

end

section

variable {toUpperInvariant : String → String} {env : Surroundings} {userId organizationId : Guid}
  {s s' : Enrollments} {existing : Option Membership} {now : Instant}

/-! ## What one call does to a barred membership -/

/-- A membership with a standing refusal is not a spent denial. -/
theorem spentDenial_barred {membership : Membership} (h : membership.Barred now) :
    spentDenial (some membership) now = none := by
  rcases h with hsuspended | hcooldown
  · simp [spentDenial, hsuspended]
  · simp [spentDenial, hcooldown]

/-- Enrollment answers from a barred membership and saves nothing. -/
theorem enrollAsync_barred {membership : Membership} (h : membership.Barred now) :
    enrollAsync env userId organizationId (some membership) now =
      .ok (fromExisting membership.status, none) := by
  simp [enrollAsync, spentDenial_barred h]

theorem Membership.Barred.not_open {membership : Membership} (h : membership.Barred now) :
    ¬ membership.Open := by
  rcases h with hsuspended | hcooldown
  · simp [Membership.Open, hsuspended]
  · have hdenied := (Membership.isWithinDenialCooldown_iff.mp hcooldown).1
    simp [Membership.Open, hdenied]

/-- A refusal that stands stood before. -/
theorem Membership.Barred.mono {membership : Membership} {earlier : Instant}
    (h : membership.Barred now) (hle : earlier ≤ now) : membership.Barred earlier := by
  -- a suspension has no end, a denial only its cooldown
  rcases h with hsuspended | hcooldown
  · exact .inl hsuspended
  · obtain ⟨hdenied, t, hreviewed, hlt⟩ := Membership.isWithinDenialCooldown_iff.mp hcooldown
    exact .inr (Membership.isWithinDenialCooldown_iff.mpr
      ⟨hdenied, t, hreviewed, Nat.lt_of_le_of_lt hle hlt⟩)

/-- An invitation reverses neither a suspension nor a denial, even one that is spent. -/
theorem applyMembership_not_open (env : Surroundings) (userId organizationId : Guid)
    (now : Instant) {membership : Membership} (h : ¬ membership.Open) :
    ∃ e, applyMembership env (some membership) userId organizationId now = .error e := by
  have hpending : membership.status ≠ .pending := fun hp => h (.inr hp)
  have hactive : membership.status ≠ .active := fun ha => h (.inl ha)
  cases hstatus : membership.status with
  | pending => exact absurd hstatus hpending
  | active => exact absurd hstatus hactive
  | suspended => exact ⟨_, by simp only [applyMembership, hstatus]; rfl⟩
  | denied => exact ⟨_, by simp only [applyMembership, hstatus]; rfl⟩

/-- An acceptance leaves a membership that is not open as it was. -/
theorem acceptInvitationAsync_not_open {membership : Membership} {token : String}
    (hrow : s.memberships organizationId = some membership) (h : ¬ membership.Open) :
    (acceptInvitationAsync toUpperInvariant env userId token s now).1.memberships
      organizationId = some membership := by
  unfold acceptInvitationAsync
  cases s.invitations token with
  | none => exact hrow
  | some invitation =>
    dsimp only
    cases guardInvitedIdentity toUpperInvariant env.user invitation with
    | error e => exact hrow
    | ok _ =>
      dsimp only
      rcases invitation.accept userId now with ⟨saved, outcome⟩
      cases outcome with
      | error e => exact hrow
      | ok _ =>
        dsimp only
        -- an invitation to the organization itself meets the refusal; any other writes another row
        by_cases htenant : invitation.tenantId = organizationId
        · obtain ⟨e, he⟩ := applyMembership_not_open env userId organizationId now h
          rw [htenant, hrow, he]
          exact hrow
        · cases applyMembership env (s.memberships invitation.tenantId) userId
            invitation.tenantId now with
          | error e => exact hrow
          | ok row =>
            cases row with
            | none => exact hrow
            | some row =>
              have hne : organizationId ≠ invitation.tenantId := fun h => htenant h.symm
              simpa [Function.update_of_ne hne] using hrow

end

/-! ## Runs that do not leave while barred -/

/-- Nobody leaves an organization whose refusal of them stands. -/
def LeavesUnbarred (s : Enrollments) (call : SelfServiceCall) : Prop :=
  match call.request with
  | .leave organizationId =>
    ∀ m ∈ s.memberships organizationId, ¬ m.Barred call.at_
  | _ => True

instance (s : Enrollments) (call : SelfServiceCall) : Decidable (LeavesUnbarred s call) :=
  match call with
  | ⟨.enroll _, _, _, _⟩ => inferInstanceAs (Decidable True)
  | ⟨.leave organizationId, _, _, at_⟩ =>
    inferInstanceAs (Decidable (∀ m ∈ s.memberships organizationId, ¬ m.Barred at_))
  | ⟨.acceptInvitation _, _, _, _⟩ => inferInstanceAs (Decidable True)

variable {toUpperInvariant : String → String} {userId organizationId : Guid} {s s' : Enrollments}
  {call : SelfServiceCall}

theorem selfServiceStep_eq_some (h : selfServiceStep toUpperInvariant userId s call = some s') :
    s.now ≤ call.at_ ∧ s' = { perform toUpperInvariant userId s call with now := call.at_ } := by
  unfold selfServiceStep at h
  split at h
  · rename_i hclock
    exact ⟨hclock, (Option.some.inj h).symm⟩
  · cases h

/-- The step lemma: a barred membership outlives every call that respects the refusal. -/
theorem perform_barred {membership : Membership}
    (hrow : s.memberships organizationId = some membership) (h : membership.Barred call.at_)
    (hguard : LeavesUnbarred s call) :
    (perform toUpperInvariant userId s call).memberships organizationId = some membership := by
  unfold perform
  unfold LeavesUnbarred at hguard
  cases hrequest : call.request with
  | enroll org =>
    dsimp only
    -- another organization's call writes another row
    by_cases horg : org = organizationId
    · rw [horg, hrow, enrollAsync_barred h]
      exact hrow
    · have hne : organizationId ≠ org := fun he => horg he.symm
      split
      · simpa [Function.update_of_ne hne] using hrow
      · exact hrow
  | leave org =>
    -- the one call the condition is about
    rw [hrequest] at hguard
    dsimp only at hguard ⊢
    by_cases horg : org = organizationId
    · subst horg
      exact absurd h (hguard membership hrow)
    · have hne : organizationId ≠ org := fun he => horg he.symm
      split
      · simpa [Function.update_of_ne hne] using hrow
      · exact hrow
  | acceptInvitation token => exact acceptInvitationAsync_not_open hrow h.not_open

/-- What a run keeps of a membership found barred: the row itself while the refusal stands. -/
def RefusalStands (organizationId : Guid) (membership : Membership) (s : Enrollments) : Prop :=
  membership.Barred s.now → s.memberships organizationId = some membership

theorem refusalStands_step {membership : Membership}
    (hInv : RefusalStands organizationId membership s) (hguard : LeavesUnbarred s call)
    (h : selfServiceStep toUpperInvariant userId s call = some s') :
    RefusalStands organizationId membership s' := by
  obtain ⟨hclock, rfl⟩ := selfServiceStep_eq_some h
  intro hbarred
  exact perform_barred (hInv (hbarred.mono hclock)) hbarred hguard

/-- Where nobody leaves while a refusal stands, a suspended membership is never followed by an
open one, nor a denied one before its cooldown is over. -/
theorem refused_membership_not_reopened {membership : Membership}
    (hrow : s.memberships organizationId = some membership)
    (hrun : Reaches (selfServiceStep toUpperInvariant userId) LeavesUnbarred s s') :
    (membership.status = .suspended →
      ∀ m ∈ s'.memberships organizationId, ¬ m.Open) ∧
    (∀ t, membership.status = .denied → membership.reviewedAt = some t →
      ∀ m ∈ s'.memberships organizationId, m.Open → t + Membership.DenialCooldown ≤ s'.now) := by
  have hstands : RefusalStands organizationId membership s' :=
    hrun.invariant (RefusalStands organizationId membership) (fun _ => hrow)
      fun _ _ _ hInv hguard h => refusalStands_step hInv hguard h
  constructor
  · intro hsuspended m hm
    have hbarred : membership.Barred s'.now := .inl hsuspended
    have hsame : m = membership := Option.some.inj (hm.symm.trans (hstands hbarred))
    rw [hsame]
    exact hbarred.not_open
  · intro t hdenied hreviewed m hm hopen
    by_contra hearly
    have hwithin : membership.isWithinDenialCooldown s'.now = true :=
      Membership.isWithinDenialCooldown_iff.mpr ⟨hdenied, t, hreviewed, Nat.lt_of_not_le hearly⟩
    have hbarred : membership.Barred s'.now := .inr hwithin
    have hsame : m = membership := Option.some.inj (hm.symm.trans (hstands hbarred))
    exact hbarred.not_open (hsame ▸ hopen)

/-! ## A suspended member who leaves -/

/-- The row of a member an administrator suspended. -/
def suspendedMember : Membership where
  id := 11
  userId := 1
  organizationId := 7
  status := .suspended
  isOwner := false
  requestedAt := none
  joinedAt := some 100
  reviewedAt := none
  reviewedBy := none
  roleIds := [5]
  createdAt := 100
  createdBy := 1
  updatedAt := some 200
  updatedBy := some 2

/-- An organization open to everyone with a verified address. -/
def openOrganization : Surroundings where
  organization := some ⟨true⟩
  user := some ann
  enrollmentPolicy := some .open
  defaultRole := .ok 5
  newId := 12

/-- The member suspended, with an invitation that still stands. -/
def suspended : Enrollments where
  memberships := Function.update (fun _ => none) 7 (some suspendedMember)
  invitations := Function.update (fun _ => none) "token" (some
    ⟨7, "ann@example.com", .pending, 5000, none⟩)
  now := 300

/-- Leaving deletes the suspended row, and enrollment then starts afresh. -/
theorem suspended_member_reopens_by_leaving :
    ∃ s', Reachable (selfServiceStep String.toUpper 1) suspended s' ∧
      suspended.memberships 7 = some suspendedMember ∧ suspendedMember.status = .suspended ∧
      ∃ m ∈ s'.memberships 7, m.status = .active := by
  let calls : List SelfServiceCall :=
    [⟨.leave 7, openOrganization, [2], 301⟩, ⟨.enroll 7, openOrganization, [2], 302⟩]
  have hrun : ((run (selfServiceStep String.toUpper 1) (fun _ _ => true) suspended calls).bind
      (·.memberships 7)).map (·.status) = some .active := by
    decide +kernel
  obtain ⟨m, hm, hstatus⟩ := Option.map_eq_some_iff.mp hrun
  obtain ⟨s', hs', hrow⟩ := Option.bind_eq_some_iff.mp hm
  exact ⟨s', reaches_of_run (fun _ _ _ => trivial) hs', rfl, rfl, m, hrow, hstatus⟩

/-- Trying to enroll and to accept the invitation leaves the suspended member out. -/
theorem refused_membership_not_reopened_suspended :
    ∃ s', Reaches (selfServiceStep String.toUpper 1) LeavesUnbarred suspended s' ∧ s'.now = 302 ∧
      ∀ m ∈ s'.memberships 7, ¬ m.Open := by
  let calls : List SelfServiceCall :=
    [⟨.enroll 7, openOrganization, [2], 301⟩,
      ⟨.acceptInvitation "token", openOrganization, [2], 302⟩]
  have hrun : (run (selfServiceStep String.toUpper 1) (fun s c => LeavesUnbarred s c) suspended
      calls).map (·.now) = some 302 := by
    decide +kernel
  obtain ⟨s', hs', hnow⟩ := Option.map_eq_some_iff.mp hrun
  have hreach : Reaches (selfServiceStep String.toUpper 1) LeavesUnbarred suspended s' :=
    reaches_of_run (fun _ _ h => of_decide_eq_true h) hs'
  have hrow : suspended.memberships 7 = some suspendedMember := rfl
  exact ⟨s', hreach, hnow, (refused_membership_not_reopened hrow hreach).1 rfl⟩

end Wallow.Identity
