/-!
# The identity module's errors

The entries of `IdentityErrors.cs` that the modelled services raise, and the exceptions of
`DomainException.cs` that carry them.
-/

namespace Wallow.Identity

inductive ErrorKind
  | notFound
  | businessRule
  | validation
  | unauthenticated
  | forbidden
  | locked
  | failure
  deriving DecidableEq

structure ErrorCatalogEntry where
  code : String
  kind : ErrorKind
  defaultMessage : String
  deriving DecidableEq

namespace IdentityErrors

def userNotFound : ErrorCatalogEntry :=
  ⟨"Identity.UserNotFound", .notFound, "User not found"⟩

def organizationNotFound : ErrorCatalogEntry :=
  ⟨"Identity.OrganizationNotFound", .notFound, "Organization not found"⟩

def invitationNotFound : ErrorCatalogEntry :=
  ⟨"Identity.InvitationNotFound", .notFound, "Invitation not found"⟩

def roleNotFound : ErrorCatalogEntry :=
  ⟨"Identity.RoleNotFound", .businessRule, "The requested role does not exist"⟩

def userIdRequired : ErrorCatalogEntry :=
  ⟨"Identity.UserIdRequired", .businessRule, "User ID cannot be empty"⟩

def memberNotFound : ErrorCatalogEntry :=
  ⟨"Identity.MemberNotFound", .businessRule, "User is not a member of this organization"⟩

def lastOwner : ErrorCatalogEntry :=
  ⟨"Identity.LastOwner", .businessRule, "An organization must keep at least one active owner"⟩

def membershipNotPending : ErrorCatalogEntry :=
  ⟨"Identity.MembershipNotPending", .businessRule, "Only a pending membership can be reviewed"⟩

def membershipNotActive : ErrorCatalogEntry :=
  ⟨"Identity.MembershipNotActive", .businessRule, "Only an active membership can be suspended"⟩

def membershipNotDenied : ErrorCatalogEntry :=
  ⟨"Identity.MembershipNotDenied", .businessRule,
    "Only a denied membership can be asked for again"⟩

def membershipNotReinstatable : ErrorCatalogEntry :=
  ⟨"Identity.MembershipNotReinstatable", .businessRule,
    "Membership of this organization cannot be resumed by invitation"⟩

def denialCooldown : ErrorCatalogEntry :=
  ⟨"Identity.DenialCooldown", .businessRule,
    "A recent request to this organization was denied; it may be asked again later"⟩

def invitationNotPending : ErrorCatalogEntry :=
  ⟨"Identity.InvitationNotPending", .businessRule, "Only a pending invitation can be changed"⟩

def invitationExpired : ErrorCatalogEntry :=
  ⟨"Identity.InvitationExpired", .businessRule, "This invitation has expired"⟩

def invitationEmailNotVerified : ErrorCatalogEntry :=
  ⟨"Identity.InvitationEmailNotVerified", .businessRule,
    "Verify your email address before accepting an invitation"⟩

def invitationEmailMismatch : ErrorCatalogEntry :=
  ⟨"Identity.InvitationEmailMismatch", .businessRule,
    "This invitation was issued to a different email address"⟩

def authInvalidCredentials : ErrorCatalogEntry :=
  ⟨"Auth.InvalidCredentials", .unauthenticated, "The email address or password is incorrect."⟩

def authLockedOut : ErrorCatalogEntry :=
  ⟨"Auth.LockedOut", .locked, "This account is locked. Try again later."⟩

def authEmailNotConfirmed : ErrorCatalogEntry :=
  ⟨"Auth.EmailNotConfirmed", .forbidden, "Confirm your email address before signing in."⟩

def authTicketInvalid : ErrorCatalogEntry :=
  ⟨"Auth.TicketInvalid", .unauthenticated, "The sign-in ticket is invalid or has expired."⟩

def authTicketAlreadyUsed : ErrorCatalogEntry :=
  ⟨"Auth.TicketAlreadyUsed", .unauthenticated, "The sign-in ticket has already been used."⟩

def authTokenInvalid : ErrorCatalogEntry :=
  ⟨"Auth.TokenInvalid", .validation, "The token is invalid."⟩

def authTokenExpired : ErrorCatalogEntry :=
  ⟨"Auth.TokenExpired", .validation, "The token has expired."⟩

def authOtpInvalid : ErrorCatalogEntry :=
  ⟨"Auth.OtpInvalid", .unauthenticated, "The code is invalid or has expired."⟩

def authEmailClaimMissing : ErrorCatalogEntry :=
  ⟨"Auth.EmailClaimMissing", .validation, "The sign-in did not include an email address."⟩

def mfaSessionMissing : ErrorCatalogEntry :=
  ⟨"Mfa.SessionMissing", .unauthenticated,
    "Start signing in again to continue with multi-factor authentication."⟩

def mfaCodeInvalid : ErrorCatalogEntry :=
  ⟨"Mfa.CodeInvalid", .validation, "The verification code is incorrect."⟩

def mfaPasswordInvalid : ErrorCatalogEntry :=
  ⟨"Mfa.PasswordInvalid", .validation, "The password is incorrect."⟩

def mfaLockedOut : ErrorCatalogEntry :=
  ⟨"Mfa.LockedOut", .locked, "Too many failed verification attempts. Try again later."⟩

def mfaNotEnabled : ErrorCatalogEntry :=
  ⟨"Mfa.NotEnabled", .validation,
    "Multi-factor authentication is not enabled for this account."⟩

def mfaEnrollmentTokenInvalid : ErrorCatalogEntry :=
  ⟨"Mfa.EnrollmentTokenInvalid", .unauthenticated,
    "The enrollment token is invalid or has expired."⟩

def mfaUpdateFailed : ErrorCatalogEntry :=
  ⟨"Mfa.UpdateFailed", .failure, "The multi-factor settings could not be saved."⟩

def telemetryChangePending : ErrorCatalogEntry :=
  ⟨"Identity.TelemetryChangePending", .businessRule,
    "Wait for acknowledgement and any previous credential overlap to end before rotating."⟩

end IdentityErrors

/-- What the services throw: the catalog entry and the user-safe sentence that goes with it. -/
structure DomainException where
  entry : ErrorCatalogEntry
  message : String
  deriving DecidableEq

/-- `new BusinessRuleException(entry)` and `new EntityNotFoundException(entry, id)`: the entry's
own sentence. -/
def DomainException.of (entry : ErrorCatalogEntry) : DomainException :=
  ⟨entry, entry.defaultMessage⟩

end Wallow.Identity
