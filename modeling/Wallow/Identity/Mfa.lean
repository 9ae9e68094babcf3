import Mathlib
import Wallow.Identity.Membership
import Wallow.Primitives

/-!
# Users and their second factor

The part of `WallowUser.cs` that sign-in reads and writes, the codes of `MfaService.cs`, and the
two questions of a password sign-in: whether the user is exempt (`MfaExemptionChecker.cs`) and
whether an organization requires MFA (`OrganizationMfaPolicyService.cs`).
-/

namespace Wallow.Identity

/-! ## Users -/

/-- A user.  `backupCodesHash` is the list of hashes its JSON holds. -/
structure WallowUser where
  id : Guid
  email : Option String
  normalizedEmail : Option String
  emailConfirmed : Bool
  passwordHash : Option String
  hasPassword : Bool
  isActive : Bool
  lockoutEnabled : Bool
  lockoutEnd : Option Nat
  accessFailedCount : Nat
  mfaEnabled : Bool
  mfaMethod : Option String
  totpSecretEncrypted : Option String
  backupCodesHash : Option (List String)
  mfaGraceDeadline : Option Nat
  mfaFailedAttempts : Nat
  mfaLockoutEnd : Option Nat
  mfaLockoutCount : Nat
  deriving DecidableEq

def TICKS_PER_MINUTE : Nat := 60 * TICKS_PER_SECOND

/-- `DateTimeOffset.MaxValue`, in ticks since the Unix epoch. -/
def MAX_INSTANT : Nat := 2534023007999999999

namespace WallowUser

/-- `EnableMfa("totp", secret)`; `none` where it throws. -/
def enableMfa (user : WallowUser) (encryptedSecret : String) : Option WallowUser :=
  if encryptedSecret.toList.all Char.isWhitespace then none
  else
    some { user with
      mfaEnabled := true
      mfaMethod := some "totp"
      totpSecretEncrypted := some encryptedSecret }

def disableMfa (user : WallowUser) : WallowUser :=
  { user with
    mfaEnabled := false
    mfaMethod := none
    totpSecretEncrypted := none
    backupCodesHash := none }

def setBackupCodes (user : WallowUser) (hashes : List String) : WallowUser :=
  { user with backupCodesHash := some hashes }

/-- Its guard against a past deadline lets the one caller, fourteen days ahead, through. -/
def setMfaGraceDeadline (user : WallowUser) (deadline : Nat) : WallowUser :=
  { user with mfaGraceDeadline := some deadline }

/-- Exponential backoff: 15 min * 2^lockoutCount, capped at 24 hours; `none` where
`TimeSpan.FromMinutes` overflows.  Powers of two times these factors are exact as doubles, or
infinite. -/
def mfaLockoutDuration (lockoutCount : Nat) : Option Nat :=
  -- the conversion to ticks comes before the cap
  if 2 ^ 63 < 15 * TICKS_PER_MINUTE * 2 ^ lockoutCount then none
  else some (min (15 * TICKS_PER_MINUTE * 2 ^ lockoutCount) (24 * TICKS_PER_HOUR))

/-- `none` where it throws. -/
def recordMfaFailure (user : WallowUser) (maxAttempts : Nat) (now : Nat) : Option WallowUser :=
  if maxAttempts ≤ user.mfaFailedAttempts + 1 then
    (mfaLockoutDuration user.mfaLockoutCount).bind fun duration =>
      if now + duration ≤ MAX_INSTANT then
        some { user with
          mfaFailedAttempts := user.mfaFailedAttempts + 1
          mfaLockoutEnd := some (now + duration)
          mfaLockoutCount := user.mfaLockoutCount + 1 }
      else none
  else some { user with mfaFailedAttempts := user.mfaFailedAttempts + 1 }

/-- `MfaLockoutService.ResetAsync` on the row: the escalation is cleared too. -/
def resetMfaLockout (user : WallowUser) : WallowUser :=
  { user with mfaFailedAttempts := 0, mfaLockoutEnd := none, mfaLockoutCount := 0 }

def isMfaLockedOut (user : WallowUser) (now : Nat) : Bool :=
  user.mfaLockoutEnd.any (now < ·)

/-- `UserManager.IsLockedOutAsync`. -/
def isLockedOut (user : WallowUser) (now : Nat) : Bool :=
  user.lockoutEnabled && user.lockoutEnd.any (now ≤ ·)

end WallowUser

/-- Only the counters and the lockout change. -/
theorem WallowUser.recordMfaFailure_eq_some {user recorded : WallowUser} {maxAttempts now : Nat}
    (h : user.recordMfaFailure maxAttempts now = some recorded) :
    ∃ lockoutEnd count, recorded = { user with
      mfaFailedAttempts := user.mfaFailedAttempts + 1
      mfaLockoutEnd := lockoutEnd
      mfaLockoutCount := count } := by
  unfold recordMfaFailure at h
  split at h
  · obtain ⟨duration, -, hrecorded⟩ := Option.bind_eq_some_iff.mp h
    rw [Option.ite_none_right_eq_some, Option.some.injEq] at hrecorded
    exact ⟨_, _, hrecorded.2.symm⟩
  · cases h
    exact ⟨_, _, rfl⟩

/-- `DeactivateUserAsync` on the row. -/
def deactivateUser (user : WallowUser) : WallowUser :=
  { user with lockoutEnabled := true, lockoutEnd := some MAX_INSTANT }

/-! ## Codes -/

def BASE32_ALPHABET : List Char := "ABCDEFGHIJKLMNOPQRSTUVWXYZ234567".toList

/-- The loop of `FromBase32`; `none` is its `FormatException`. -/
def fromBase32Loop (buffer bitsLeft : Nat) : List Char → Option (List Nat)
  | [] => some []
  | c :: rest =>
    match BASE32_ALPHABET.idxOf? c with
    | none => none
    | some value =>
      let buffer := buffer * 32 + value
      if 8 ≤ bitsLeft + 5 then
        (fromBase32Loop buffer (bitsLeft - 3) rest).map
          (buffer / 2 ^ (bitsLeft - 3) % 256 :: ·)
      else fromBase32Loop buffer (bitsLeft + 5) rest

def fromBase32 (base32 : String) : Option (List Nat) :=
  let trimmed := (base32.toList.reverse.dropWhile (· = '=')).reverse
  fromBase32Loop 0 0 (trimmed.map Char.toUpper)

/-- The big-endian bytes of a step counter. -/
def stepBytes (step : Nat) : List Nat :=
  [7, 6, 5, 4, 3, 2, 1, 0].map fun i => step / 256 ^ i % 256

def TOTP_DIGITS : Nat := 6
def TOTP_STEP_SECONDS : Nat := 30

/-- `ToString().PadLeft(6, '0')`. -/
def padLeft (digits : Nat) (value : Nat) : String :=
  let text := (Nat.repr value).toList
  String.ofList (List.replicate (digits - text.length) '0' ++ text)

/-- What the services take from the platform: the two hashes, data protection and the normalizer
of ASP.NET Core Identity. -/
structure Platform where
  /-- `HMACSHA1.HashData`: twenty bytes. -/
  hmacSha1 : List Nat → List Nat → List Nat
  /-- The lower-case hexadecimal SHA-256 of a text. -/
  sha256Hex : String → String
  /-- The protector of `MfaService`; `none` is its `CryptographicException`. -/
  unprotectSecret : String → Option String
  /-- The protector of `PasswordlessService`. -/
  unprotectLink : String → Option String
  /-- `PasswordHasher.VerifyHashedPassword`. -/
  verifyHashedPassword : String → String → Bool
  /-- `ILookupNormalizer.NormalizeEmail`. -/
  normalizeEmail : String → String

namespace Platform

variable (platform : Platform)

def computeTotp (secret : List Nat) (step : Nat) : String :=
  let hash := platform.hmacSha1 secret (stepBytes step)
  let offset := hash.getLastD 0 % 16
  let at_ (i : Nat) : Nat := hash.getD (offset + i) 0
  let binaryCode := at_ 0 % 128 * 2 ^ 24 + at_ 1 * 2 ^ 16 + at_ 2 * 2 ^ 8 + at_ 3
  padLeft TOTP_DIGITS (binaryCode % 10 ^ TOTP_DIGITS)

/-- `ValidateTotpAsync`: a code of the current step or a neighbouring one.  `none` is the
`FormatException` of a secret that is no base32 text. -/
def validateTotp (secret code : String) (utcNow : Nat) : Option Bool :=
  -- enrollment sends the bare secret, which the protector refuses
  (fromBase32 ((platform.unprotectSecret secret).getD secret)).map fun bytes =>
    let currentStep := utcNow / TICKS_PER_SECOND / TOTP_STEP_SECONDS
    [currentStep - 1, currentStep, currentStep + 1].any fun step =>
      platform.computeTotp bytes step = code

/-- `ValidateBackupCodeAsync`: the hashes that remain when the code is one of the stored ones. -/
def redeemBackupCode (user : WallowUser) (code : String) : Option (List String) :=
  match user.backupCodesHash with
  | none => none
  | some hashes =>
    if platform.sha256Hex code ∈ hashes then some (hashes.erase (platform.sha256Hex code))
    else none

end Platform

/-! ## Exemption and policy -/

/-- The settings that sign-in reads. -/
structure OrganizationSettings where
  organizationId : Guid
  requireMfa : Bool
  allowPasswordlessLogin : Bool
  mfaGracePeriodDays : Int
  deriving DecidableEq

/-- The organizations a user is an active member of. -/
def activeOrganizations (memberships : List Membership) (userId : Guid) : List Guid :=
  (memberships.filter fun m => m.userId = userId && m.status = .active).map (·.organizationId)

def exemptsThisUser (settings : OrganizationSettings) (user : WallowUser) (now : Nat) : Bool :=
  (!settings.requireMfa && settings.allowPasswordlessLogin && !user.hasPassword) ||
    (0 < settings.mfaGracePeriodDays && user.mfaGraceDeadline.any (now < ·))

/-- `IsExemptAsync`: every active membership has settings, and they all exempt this user. -/
def isExempt (memberships : List Membership) (settings : List OrganizationSettings)
    (user : WallowUser) (now : Nat) : Bool :=
  let organizationIds := activeOrganizations memberships user.id
  let found := settings.filter (·.organizationId ∈ organizationIds)
  organizationIds.length ≠ 0 && found.length = organizationIds.length &&
    found.all (exemptsThisUser · user now)

structure OrgMfaPolicyResult where
  requiresMfa : Bool
  isInGracePeriod : Bool
  deriving DecidableEq

/-- `CheckAsync`, on the user's row as it is found again by its id. -/
def orgMfaPolicy (memberships : List Membership) (settings : List OrganizationSettings)
    (user : Option WallowUser) (now : Nat) : OrgMfaPolicyResult :=
  match user with
  | none => ⟨false, false⟩
  | some user =>
    if user.mfaEnabled then ⟨false, false⟩
    else if settings.any fun s =>
        s.requireMfa && s.organizationId ∈ activeOrganizations memberships user.id then
      ⟨true, user.mfaGraceDeadline.any (now < ·)⟩
    else ⟨false, false⟩

/-- Before the deadline a required MFA is still in its grace period. -/
theorem orgMfaPolicy_setMfaGraceDeadline {memberships : List Membership}
    {settings : List OrganizationSettings} {user : WallowUser} {deadline now : Nat}
    (h : now < deadline)
    (hrequires : (orgMfaPolicy memberships settings (some (user.setMfaGraceDeadline deadline))
      now).requiresMfa = true) :
    (orgMfaPolicy memberships settings (some (user.setMfaGraceDeadline deadline))
      now).isInGracePeriod = true := by
  unfold orgMfaPolicy at hrequires ⊢
  dsimp only at hrequires ⊢
  split at hrequires
  · cases hrequires
  · rename_i hmfa
    rw [if_neg hmfa]
    split at hrequires
    · rename_i hrequired
      rw [if_pos hrequired]
      simp [WallowUser.setMfaGraceDeadline, h]
    · cases hrequires

/-! ## A platform and a user to run with -/

def samplePasswordHash : String :=
  "AQAAAAIAAYagAAAAEAABAgMEBQYHCAkKCwwNDg8LJ1+nXP1HCEVtkGVQ8YRRub3RhgjMuQMQ6K7+XxmQVQ=="

/-- The digests of the first three time steps under two secrets. -/
def sampleDigests : List (List Nat × List (List Nat)) :=
  [([72, 101, 108, 108, 111, 33, 222, 173, 190, 239, 72, 101, 108, 108, 111, 33, 222, 173, 190,
      239],
    [[146, 32, 79, 35, 88, 111, 127, 202, 255, 46, 35, 47, 97, 153, 118, 177, 2, 169, 171, 244],
      [2, 27, 191, 4, 115, 223, 113, 60, 11, 130, 36, 183, 238, 4, 124, 195, 43, 210, 254, 193],
      [50, 11, 65, 99, 45, 205, 54, 200, 195, 28, 138, 200, 0, 76, 251, 147, 182, 17, 17, 227]]),
    ([49, 50, 51, 52, 53, 54, 55, 56, 57, 48, 49, 50, 51, 52, 53, 54, 55, 56, 57, 48],
    [[204, 147, 207, 24, 80, 141, 148, 147, 76, 100, 182, 93, 139, 167, 102, 127, 183, 205, 228,
      176],
      [117, 164, 138, 25, 212, 203, 225, 0, 100, 78, 138, 193, 57, 126, 234, 116, 122, 45, 51, 171],
      [11, 172, 183, 250, 8, 47, 239, 48, 120, 34, 17, 147, 139, 193, 197, 231, 4, 22, 255, 68]])]

/-- The platform on the values of the runs below: the digests are those of HMAC-SHA1 and SHA-256,
the password hash is one of the hasher's own. -/
def samplePlatform : Platform where
  hmacSha1 key message := ((sampleDigests.lookup key).getD []).getD (message.getLastD 0) []
  sha256Hex text :=
    if text = "0123-4567-89ab-cdef" then
      "84c758f13a821a4087fd1687740ffc64429fdddd54b77117db6bf536be94faa5"
    else if text = "000000" then
      "91b4d142823f7d20c5f08df69122de43f35f057a988d9619f6d3138485c9a203"
    else ""
  unprotectSecret _ := none
  unprotectLink signature := if signature = "CfDJ8raw" then some "raw" else none
  verifyHashedPassword hash password := hash = samplePasswordHash && password = "correct horse"
  normalizeEmail email := String.ofList (email.toList.map Char.toUpper)

example : samplePlatform.validateTotp "GEZDGNBVGY3TQOJQGEZDGNBVGY3TQOJQ" "287082" 590000000 =
    some true := by decide +kernel

/-- A user with a verified address and a password. -/
def ann : WallowUser where
  id := 1
  email := some "ann@example.com"
  normalizedEmail := some "ANN@EXAMPLE.COM"
  emailConfirmed := true
  passwordHash := some samplePasswordHash
  hasPassword := true
  isActive := true
  lockoutEnabled := true
  lockoutEnd := none
  accessFailedCount := 0
  mfaEnabled := false
  mfaMethod := none
  totpSecretEncrypted := none
  backupCodesHash := none
  mfaGraceDeadline := none
  mfaFailedAttempts := 0
  mfaLockoutEnd := none
  mfaLockoutCount := 0

end Wallow.Identity
