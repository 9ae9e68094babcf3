import Mathlib.Logic.Basic
import Wallow.Identity.Errors
import Wallow.Primitives

/-!
# Memberships

The entity of `Membership.cs`.  A mutating method of the source is a function that returns the
entity as it leaves it, or the exception; a method that takes the time provider takes the instant
it reads.
-/

namespace Wallow.Identity

inductive MembershipStatus
  | pending
  | active
  | suspended
  | denied
  deriving DecidableEq

structure Membership where
  id : Guid
  userId : Guid
  organizationId : Guid
  status : MembershipStatus
  isOwner : Bool
  requestedAt : Option Instant
  joinedAt : Option Instant
  reviewedAt : Option Instant
  reviewedBy : Option Guid
  roleIds : List Guid
  createdAt : Instant
  createdBy : Guid
  updatedAt : Option Instant
  updatedBy : Option Guid
  deriving DecidableEq

namespace Membership

/-- Cooldown before a denied person may request access or enroll again: `FromDays(30)`. -/
def DenialCooldown : Nat := 30 * TICKS_PER_DAY

/-! ## Construction -/

/-- The private constructor: `id` is the fresh `MembershipId.New()`. -/
def new (id userId organizationId : Guid) (now : Instant) :
    Except DomainException Membership :=
  if userId = Guid.empty then
    .error (.of IdentityErrors.userIdRequired)
  else
    .ok {
      id := id
      userId := userId
      organizationId := organizationId
      status := .pending
      isOwner := false
      requestedAt := none
      joinedAt := none
      reviewedAt := none
      reviewedBy := none
      roleIds := []
      createdAt := now
      createdBy := userId
      updatedAt := none
      updatedBy := none }

def requestAccess (id userId organizationId : Guid) (now : Instant) :
    Except DomainException Membership :=
  (new id userId organizationId now).map fun membership =>
    { membership with status := .pending, requestedAt := some now }

def enroll (id userId organizationId defaultRoleId : Guid) (now : Instant) :
    Except DomainException Membership :=
  (new id userId organizationId now).map fun membership =>
    { membership with status := .active, joinedAt := some now, roleIds := [defaultRoleId] }

/-! ## Transitions -/

def setUpdated (membership : Membership) (now : Instant) (userId : Guid) : Membership :=
  { membership with updatedAt := some now, updatedBy := some userId }

def clearReview (membership : Membership) : Membership :=
  { membership with reviewedAt := none, reviewedBy := none }

def assignRole (membership : Membership) (roleId updatedByUserId : Guid) (now : Instant) :
    Membership :=
  if roleId ∈ membership.roleIds then membership
  else
    { membership with roleIds := membership.roleIds ++ [roleId] }.setUpdated now updatedByUserId

def approve (membership : Membership) (defaultRoleId approvedByUserId : Guid) (now : Instant) :
    Except DomainException Membership :=
  if membership.status ≠ .pending then
    .error ⟨IdentityErrors.membershipNotPending, "Only a pending membership can be approved"⟩
  else
    .ok (({ membership with
        status := .active
        joinedAt := some now
        reviewedAt := some now
        reviewedBy := some approvedByUserId }.assignRole defaultRoleId approvedByUserId
      now).setUpdated now approvedByUserId)

def deny (membership : Membership) (deniedByUserId : Guid) (now : Instant) :
    Except DomainException Membership :=
  if membership.status ≠ .pending then
    .error ⟨IdentityErrors.membershipNotPending, "Only a pending membership can be denied"⟩
  else
    .ok ({ membership with
      status := .denied
      reviewedAt := some now
      reviewedBy := some deniedByUserId
      roleIds := [] }.setUpdated now deniedByUserId)

/-- Denial expiry, or `none` when not denied or when the review timestamp is missing. -/
def deniedUntil (membership : Membership) : Option Instant :=
  if membership.status = .denied then membership.reviewedAt.map (· + DenialCooldown) else none

def isWithinDenialCooldown (membership : Membership) (now : Instant) : Bool :=
  match membership.deniedUntil with
  | some until_ => now < until_
  | none => false

def requireDenialSpent (membership : Membership) (now : Instant) : Except DomainException Unit :=
  if membership.status ≠ .denied then .error (.of IdentityErrors.membershipNotDenied)
  else if membership.isWithinDenialCooldown now then .error (.of IdentityErrors.denialCooldown)
  else .ok ()

def requestAgain (membership : Membership) (now : Instant) : Except DomainException Membership :=
  (membership.requireDenialSpent now).map fun _ =>
    { membership with status := .pending, requestedAt := some now }.clearReview.setUpdated now
      membership.userId

def enrollAgain (membership : Membership) (defaultRoleId : Guid) (now : Instant) :
    Except DomainException Membership :=
  (membership.requireDenialSpent now).map fun _ =>
    ({ membership with status := .active, joinedAt := some now }.clearReview.assignRole
      defaultRoleId membership.userId now).setUpdated now membership.userId

def suspend (membership : Membership) (suspendedByUserId : Guid) (now : Instant) :
    Except DomainException Membership :=
  if membership.status ≠ .active then .error (.of IdentityErrors.membershipNotActive)
  else .ok ({ membership with status := .suspended }.setUpdated now suspendedByUserId)

/-- Grants a role and activates the membership from any status. -/
def grant (membership : Membership) (roleId grantedByUserId : Guid) (now : Instant) :
    Membership :=
  let activated :=
    if membership.status ≠ .active then
      { membership with status := .active, joinedAt := membership.joinedAt <|> some now }
    else membership
  (activated.assignRole roleId grantedByUserId now).setUpdated now grantedByUserId

/-! ## What the transitions keep -/

/-- The two are versions of one row: no transition changes who belongs where, nor who owns. -/
structure SameRow (membership changed : Membership) : Prop where
  id : changed.id = membership.id
  userId : changed.userId = membership.userId
  organizationId : changed.organizationId = membership.organizationId
  isOwner : changed.isOwner = membership.isOwner

section

variable (membership : Membership) (roleId userId : Guid) (now : Instant)

@[simp] theorem setUpdated_status : (membership.setUpdated now userId).status = membership.status :=
  rfl

@[simp] theorem clearReview_status : membership.clearReview.status = membership.status := rfl

@[simp] theorem assignRole_status :
    (membership.assignRole roleId userId now).status = membership.status := by
  unfold assignRole
  split <;> rfl

theorem assignRole_sameRow : membership.SameRow (membership.assignRole roleId userId now) := by
  unfold assignRole
  split
  · exact ⟨rfl, rfl, rfl, rfl⟩
  · exact ⟨rfl, rfl, rfl, rfl⟩

@[simp] theorem grant_status : (membership.grant roleId userId now).status = .active := by
  unfold grant
  by_cases h : membership.status = .active
  · simp [h]
  · simp [h]

theorem grant_sameRow : membership.SameRow (membership.grant roleId userId now) := by
  unfold grant
  by_cases h : membership.status = .active
  · obtain ⟨hid, huser, horg, howner⟩ := assignRole_sameRow membership roleId userId now
    simp only [h, ne_eq, not_true_eq_false, if_false]
    exact ⟨hid, huser, horg, howner⟩
  · obtain ⟨hid, huser, horg, howner⟩ := assignRole_sameRow
      { membership with status := .active, joinedAt := membership.joinedAt <|> some now }
      roleId userId now
    simp only [h, ne_eq, not_false_eq_true, if_true]
    exact ⟨hid, huser, horg, howner⟩

end

section

variable {membership changed : Membership} {roleId userId : Guid} {now : Instant}

theorem approve_ok (h : membership.approve roleId userId now = .ok changed) :
    membership.status = .pending ∧ membership.SameRow changed ∧ changed.status = .active := by
  unfold approve at h
  split at h
  · cases h
  · rename_i hpending
    obtain ⟨hid, huser, horg, howner⟩ := assignRole_sameRow
      { membership with
        status := .active
        joinedAt := some now
        reviewedAt := some now
        reviewedBy := some userId } roleId userId now
    cases h
    exact ⟨not_not.mp hpending, ⟨hid, huser, horg, howner⟩, by simp⟩

theorem deny_ok (h : membership.deny userId now = .ok changed) :
    membership.status = .pending ∧ membership.SameRow changed ∧ changed.status = .denied := by
  unfold deny at h
  split at h
  · cases h
  · rename_i hpending
    cases h
    exact ⟨not_not.mp hpending, ⟨rfl, rfl, rfl, rfl⟩, rfl⟩

theorem requireDenialSpent_ok (h : membership.requireDenialSpent now = .ok ()) :
    membership.status = .denied ∧ membership.isWithinDenialCooldown now = false := by
  unfold requireDenialSpent at h
  split at h
  · cases h
  · rename_i hdenied
    split at h
    · cases h
    · rename_i hspent
      exact ⟨not_not.mp hdenied, Bool.eq_false_iff.mpr hspent⟩

theorem requestAgain_ok (h : membership.requestAgain now = .ok changed) :
    membership.status = .denied ∧ membership.SameRow changed ∧ changed.status = .pending := by
  unfold requestAgain at h
  cases hspent : membership.requireDenialSpent now with
  | error e => simp [hspent, Except.map] at h
  | ok _ =>
    simp only [hspent, Except.map, Except.ok.injEq] at h
    cases h
    exact ⟨(requireDenialSpent_ok hspent).1, ⟨rfl, rfl, rfl, rfl⟩, rfl⟩

theorem enrollAgain_ok (h : membership.enrollAgain roleId now = .ok changed) :
    membership.status = .denied ∧ membership.SameRow changed ∧ changed.status = .active := by
  unfold enrollAgain at h
  cases hspent : membership.requireDenialSpent now with
  | error e => simp [hspent, Except.map] at h
  | ok _ =>
    simp only [hspent, Except.map, Except.ok.injEq] at h
    obtain ⟨hid, huser, horg, howner⟩ := assignRole_sameRow
      { membership with status := .active, joinedAt := some now }.clearReview roleId
      membership.userId now
    cases h
    exact ⟨(requireDenialSpent_ok hspent).1, ⟨hid, huser, horg, howner⟩, by simp⟩

theorem suspend_ok (h : membership.suspend userId now = .ok changed) :
    membership.status = .active ∧ membership.SameRow changed ∧ changed.status = .suspended := by
  unfold suspend at h
  split at h
  · cases h
  · rename_i hactive
    cases h
    exact ⟨not_not.mp hactive, ⟨rfl, rfl, rfl, rfl⟩, rfl⟩

end

/-- The rows `LastOwnerGuard` locks and counts. -/
def isActiveOwner (membership : Membership) : Bool :=
  membership.isOwner && membership.status = .active

/-- The membership admits its holder to the organization, or asks for it. -/
def Open (membership : Membership) : Prop :=
  membership.status = .active ∨ membership.status = .pending

instance (membership : Membership) : Decidable membership.Open :=
  inferInstanceAs (Decidable (_ ∨ _))

/-- A refusal that stands: suspended, or denied with the cooldown still running. -/
def Barred (membership : Membership) (now : Instant) : Prop :=
  membership.status = .suspended ∨ membership.isWithinDenialCooldown now = true

instance (membership : Membership) (now : Instant) : Decidable (membership.Barred now) :=
  inferInstanceAs (Decidable (_ ∨ _))

variable {membership : Membership} {now : Instant}

theorem isWithinDenialCooldown_iff :
    membership.isWithinDenialCooldown now = true ↔
      membership.status = .denied ∧
        ∃ t, membership.reviewedAt = some t ∧ now < t + DenialCooldown := by
  unfold isWithinDenialCooldown deniedUntil
  by_cases hdenied : membership.status = .denied
  · cases hreviewed : membership.reviewedAt with
    | none => simp [hdenied]
    | some t => simp [hdenied]
  · simp [hdenied]

end Membership

end Wallow.Identity
