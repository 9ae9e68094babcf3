import Wallow.Lib.HexText
import Wallow.Identity.Errors
import Wallow.Telemetry.Gateway
import Mathlib.Tactic.NormNum

/-!
# A client's telemetry registration

`TelemetryRegistration.cs`, the credentials that `OrganizationClientService.Telemetry.cs` makes for
it, and the body that `TelemetryProvisioner.cs` sends of it.
-/

namespace Wallow.Telemetry

open HexText Identity

/-! ## Credentials -/

/-- `Guid.ToString("N")`. -/
def guidText (guid : Guid) : String := String.ofList (digits 32 guid)

/-- What `SHA256.HashData` returns. -/
structure Digest where
  bytes : List Nat
  length_eq : bytes.length = 32
  isByte : ∀ byte ∈ bytes, byte < 256

/-- `Convert.ToHexStringLower`. -/
def toHexStringLower (bytes : List Nat) : String := String.ofList (bytes.flatMap (digits 2))

/-- `NewTelemetryCredential`: the id and the verifier.  The secret is drawn by the caller. -/
def newTelemetryCredential (sha256 : String → Digest) (credential : Guid) (secret : String) :
    DesiredCredential :=
  ⟨guidText credential, toHexStringLower (sha256 secret).bytes⟩

/-! ## The registration -/

inductive TelemetryAccessState
  | enabled
  | disabled
  | deleted
  deriving DecidableEq

/-- A client of an organization.  The columns bound its id, and `RegisteredClient.Create` refuses a
blank one. -/
structure RegisteredClient where
  id : Guid
  clientId : String
  organizationId : Guid
  id_ne : id ≠ Guid.empty
  clientId_ne : clientId ≠ ""
  clientId_le : clientId.length ≤ 100

/-- `PreviousCredentialId`, `PreviousVerifier` and `RotationId`, which are set and cleared
together. -/
structure Rotation where
  previousCredentialId : String
  previousVerifier : String
  rotationId : Guid
  deriving DecidableEq

structure TelemetryRegistration where
  id : Guid
  clientId : String
  organizationId : Guid
  revision : Nat
  acknowledgedRevision : Nat
  credentialId : String
  verifier : String
  nextAttemptAt : Nat
  attempts : Nat
  failure : Option String
  concurrencyStamp : Guid
  accessState : TelemetryAccessState
  rotation : Option Rotation
  previousCredentialExpiresAt : Option Nat
  deriving DecidableEq

namespace TelemetryRegistration

def status (state : TelemetryRegistration) : String :=
  if state.accessState ≠ .enabled then
    if state.acknowledgedRevision = state.revision then "disabled" else "pending-revocation"
  else if state.failure.isSome then "action-required"
  else if state.acknowledgedRevision = state.revision then "active"
  else if state.rotation.isSome then "pending-rotation" else "pending"

/-- `Create`. -/
def create (client : RegisteredClient) (credential : DesiredCredential) (stamp : Guid)
    (now : Nat) : TelemetryRegistration where
  id := client.id
  clientId := client.clientId
  organizationId := client.organizationId
  revision := 1
  acknowledgedRevision := 0
  credentialId := credential.id
  verifier := credential.verifier
  nextAttemptAt := now
  attempts := 0
  failure := none
  concurrencyStamp := stamp
  accessState := .enabled
  rotation := none
  previousCredentialExpiresAt := none

section

variable (state : TelemetryRegistration)

/-- `Changed`. -/
def changed (stamp : Guid) (now : Nat) : TelemetryRegistration :=
  { state with
    revision := state.revision + 1
    failure := none
    attempts := 0
    nextAttemptAt := now
    concurrencyStamp := stamp }

/-- `ClearRotation`. -/
def clearRotation : TelemetryRegistration :=
  { state with rotation := none, previousCredentialExpiresAt := none }

def rotate (credential : DesiredCredential) (rotationId stamp : Guid) (now : Nat) :
    Except DomainException TelemetryRegistration :=
  if state.accessState ≠ .enabled || state.acknowledgedRevision ≠ state.revision ||
      state.previousCredentialExpiresAt.any (now < ·) then
    .error (.of IdentityErrors.telemetryChangePending)
  else
    .ok ({ state with
      rotation := some ⟨state.credentialId, state.verifier, rotationId⟩
      credentialId := credential.id
      verifier := credential.verifier
      previousCredentialExpiresAt := none }.changed stamp now)

def enable (credential : DesiredCredential) (stamp : Guid) (now : Nat) :
    Except DomainException TelemetryRegistration :=
  if state.accessState ≠ .disabled || state.acknowledgedRevision ≠ state.revision then
    .error (.of IdentityErrors.telemetryChangePending)
  else
    .ok ({ state with
      accessState := .enabled
      credentialId := credential.id
      verifier := credential.verifier }.clearRotation.changed stamp now)

/-- The state that `Revoke` is asked to reach. -/
def revokeTarget (deleted : Bool) : TelemetryAccessState :=
  if deleted then .deleted else .disabled

/-- `Revoke`, `none` where it returns without a change. -/
def revoke (deleted : Bool) (stamp : Guid) (now : Nat) : Option TelemetryRegistration :=
  if state.accessState = .deleted || state.accessState = revokeTarget deleted then none
  else some ({ state with accessState := revokeTarget deleted }.clearRotation.changed stamp now)

def acknowledge (revision : Int) (stamp : Guid) (now : Nat)
    (previousCredentialExpiresAt : Option Nat) : TelemetryRegistration :=
  if revision ≠ state.revision then state
  else
    { state with
      acknowledgedRevision := state.revision
      previousCredentialExpiresAt :=
        state.previousCredentialExpiresAt.or previousCredentialExpiresAt
      attempts := 0
      failure := none
      nextAttemptAt := now + 300 * TICKS_PER_SECOND
      concurrencyStamp := stamp }

/-- The sentence of `RequireConfiguration`. -/
def notConfigured : String :=
  "Observability is not configured. Save this credential and contact the platform operator " ++
    "for the collection endpoint."

def requireConfiguration (stamp : Guid) (now : Nat) : TelemetryRegistration :=
  { state with
    failure := some notConfigured
    nextAttemptAt := now + 300 * TICKS_PER_SECOND
    concurrencyStamp := stamp }

def retry (permanent : Bool) (stamp : Guid) (now : Nat) : TelemetryRegistration :=
  { state with
    attempts := min (state.attempts + 1) 10
    failure :=
      if permanent then some "Provisioning was rejected. Contact the platform operator." else none
    -- the exponent is the count already raised
    nextAttemptAt := now + TICKS_PER_SECOND * min 300 (2 ^ min (state.attempts + 1) 10)
    concurrencyStamp := stamp }

/-! ## The body of its request -/

def registrationState : TelemetryAccessState → RegistrationState
  | .enabled => .enabled
  | .disabled => .disabled
  | .deleted => .deleted

def environments : List String := ["development", "staging", "production", "test"]

/-- The body that `ReconcileAsync` puts. -/
def desired : DesiredRegistration where
  revision := state.revision
  clientId := state.clientId
  applicationId := state.clientId
  browserService := state.clientId ++ "-browser"
  serverService := state.clientId ++ "-server"
  environments := environments
  state := registrationState state.accessState
  credentials :=
    if state.accessState ≠ .enabled then []
    else match state.rotation with
      | none => [⟨state.credentialId, state.verifier⟩]
      | some rotation => [⟨rotation.previousCredentialId, rotation.previousVerifier⟩,
          ⟨state.credentialId, state.verifier⟩]
  rotation := state.rotation.map fun rotation =>
    ⟨rotation.rotationId, rotation.previousCredentialId, state.credentialId⟩

end

end TelemetryRegistration

/-! ## What the gateway's check says of the body -/

theorem isAsciiHexDigit_digit {n : Nat} (h : n < 16) :
    RegistrationValidation.isAsciiHexDigit (digit n) = true := by
  -- sixteen digits, each looked at
  have hall : ∀ i : Fin 16, RegistrationValidation.isAsciiHexDigit (digit i.val) = true := by
    decide
  exact hall ⟨n, h⟩

theorem isAsciiHexDigit_of_mem_digits {n number : Nat} {c : Char} (h : c ∈ digits n number) :
    RegistrationValidation.isAsciiHexDigit c = true := by
  induction n generalizing number with
  | zero => exact absurd h List.not_mem_nil
  | succ n ih =>
    rw [digits, List.mem_append, List.mem_singleton] at h
    cases h with
    | inl hinit => exact ih hinit
    | inr hlast =>
      rw [hlast]
      exact isAsciiHexDigit_digit (Nat.mod_lt _ (by decide))

theorem isIdentityCharacter_of_isAsciiHexDigit {c : Char}
    (h : RegistrationValidation.isAsciiHexDigit c = true) :
    RegistrationValidation.isIdentityCharacter c = true ∧ c ≠ '.' := by
  simp only [RegistrationValidation.isAsciiHexDigit, Bool.or_eq_true, Bool.and_eq_true,
    decide_eq_true_eq] at h
  constructor
  · simp only [RegistrationValidation.isIdentityCharacter,
      RegistrationValidation.isAsciiLetterOrDigit, Bool.or_eq_true, Bool.and_eq_true,
      decide_eq_true_eq]
    omega
  · rintro rfl
    exact absurd h (by decide)

theorem isIdentity_guidText (guid : Guid) :
    RegistrationValidation.isIdentity (guidText guid) = true ∧
      (guidText guid).toList.contains '.' = false := by
  have hlength : (guidText guid).length = 32 := by
    rw [guidText, String.length_ofList, digits_length]
  have hchars : ∀ c ∈ (guidText guid).toList, RegistrationValidation.isAsciiHexDigit c = true := by
    intro c hc
    rw [guidText, String.toList_ofList] at hc
    exact isAsciiHexDigit_of_mem_digits hc
  constructor
  · simp only [RegistrationValidation.isIdentity, hlength, Bool.and_eq_true, List.all_eq_true]
    exact ⟨by decide, fun c hc => (isIdentityCharacter_of_isAsciiHexDigit (hchars c hc)).1⟩
  · rw [List.contains_eq_mem, decide_eq_false_iff_not]
    intro hdot
    exact (isIdentityCharacter_of_isAsciiHexDigit (hchars '.' hdot)).2 rfl

theorem length_flatMap_digits (bytes : List Nat) :
    (bytes.flatMap (digits 2)).length = 2 * bytes.length := by
  induction bytes with
  | nil => rfl
  | cons byte rest ih =>
    rw [List.flatMap_cons, List.length_append, digits_length, ih, List.length_cons]
    omega

theorem isCredential_newTelemetryCredential (sha256 : String → Digest) (credential : Guid)
    (secret : String) :
    RegistrationValidation.isCredential (newTelemetryCredential sha256 credential secret) =
      true := by
  obtain ⟨hidentity, hdot⟩ := isIdentity_guidText credential
  have hlength : (toHexStringLower (sha256 secret).bytes).length = 64 := by
    rw [toHexStringLower, String.length_ofList, length_flatMap_digits, (sha256 secret).length_eq]
  have hdigits : (toHexStringLower (sha256 secret).bytes).toList.all
      RegistrationValidation.isAsciiHexDigit = true := by
    rw [toHexStringLower, String.toList_ofList, List.all_eq_true]
    intro c hc
    obtain ⟨byte, -, hbyte⟩ := List.mem_flatMap.mp hc
    exact isAsciiHexDigit_of_mem_digits hbyte
  simp only [RegistrationValidation.isCredential, newTelemetryCredential, hidentity, hdot, hlength,
    hdigits]
  rfl

/-- Different Guids have different texts. -/
theorem guidText_injective {a b : Guid} (ha : a < 2 ^ 128) (hb : b < 2 ^ 128)
    (h : guidText a = guidText b) : a = b := by
  have hdigits : digits 32 a = digits 32 b := by
    rw [guidText, guidText] at h
    exact String.ofList_injective h
  have hnumber : some (a % 16 ^ 32) = some (b % 16 ^ 32) := by
    rw [← number?_digits, ← number?_digits, hdigits]
  have hpow : (16 : Nat) ^ 32 = 2 ^ 128 := by norm_num
  rw [hpow, Nat.mod_eq_of_lt ha, Nat.mod_eq_of_lt hb] at hnumber
  exact Option.some.inj hnumber

/-- The suffix of a service's name is one an identity may have. -/
theorem isIdentity_append {clientId suffix : String} (hclient : clientId.length ≤ 100)
    (hne : clientId ≠ "") (hlength : suffix.length ≤ 28)
    (hsuffix : suffix.toList.all RegistrationValidation.isIdentityCharacter = true) :
    RegistrationValidation.isIdentity (clientId ++ suffix) =
      RegistrationValidation.isIdentity clientId := by
  have hpos : 0 < clientId.length := by
    rw [Nat.pos_iff_ne_zero]
    intro hzero
    exact hne (String.length_eq_zero_iff.mp hzero)
  have htotal : (clientId ++ suffix).length = clientId.length + suffix.length :=
    String.length_append clientId suffix
  simp only [RegistrationValidation.isIdentity, htotal, String.toList_append, List.all_append,
    hsuffix, Bool.and_true]
  rw [decide_eq_true (show 0 < clientId.length + suffix.length by omega),
    decide_eq_true (show clientId.length + suffix.length ≤ 128 by omega),
    decide_eq_true hpos, decide_eq_true (show clientId.length ≤ 128 by omega)]

namespace TelemetryRegistration

variable {state : TelemetryRegistration}

/-! The three kinds of body: without credentials, with one, with the replaced one before it. -/

theorem desired_of_not_enabled (haccess : state.accessState ≠ .enabled)
    (hrotation : state.rotation = none) :
    state.desired.state ≠ .enabled ∧ state.desired.credentials = [] ∧
      state.desired.rotation = none := by
  refine ⟨?_, if_pos haccess, ?_⟩
  · show registrationState state.accessState ≠ .enabled
    -- both other states have an access state of their own at the gateway
    cases hstate : state.accessState with
    | enabled => exact absurd hstate haccess
    | disabled => decide
    | deleted => decide
  · show state.rotation.map _ = none
    rw [hrotation]
    rfl

theorem desired_of_enabled (haccess : state.accessState = .enabled)
    (hrotation : state.rotation = none) :
    state.desired.state = .enabled ∧
      state.desired.credentials = [⟨state.credentialId, state.verifier⟩] ∧
      state.desired.rotation = none := by
  unfold desired
  rw [haccess, hrotation]
  exact ⟨rfl, rfl, rfl⟩

theorem desired_of_rotation {rotation : Rotation} (haccess : state.accessState = .enabled)
    (hrotation : state.rotation = some rotation) :
    state.desired.state = .enabled ∧
      state.desired.credentials = [⟨rotation.previousCredentialId, rotation.previousVerifier⟩,
        ⟨state.credentialId, state.verifier⟩] ∧
      state.desired.rotation = some
        ⟨rotation.rotationId, rotation.previousCredentialId, state.credentialId⟩ := by
  unfold desired
  rw [haccess, hrotation]
  exact ⟨rfl, rfl, rfl⟩

/-- An enabled registration's body lists its credential. -/
theorem credential_mem_desired (haccess : state.accessState = .enabled) :
    ⟨state.credentialId, state.verifier⟩ ∈ state.desired.credentials := by
  cases hrotation : state.rotation with
  | none =>
    rw [(desired_of_enabled haccess hrotation).2.1]
    exact List.mem_singleton_self _
  | some rotation =>
    rw [(desired_of_rotation haccess hrotation).2.1]
    exact List.mem_cons_of_mem _ (List.mem_singleton_self _)

theorem desired_state_enabled_iff :
    state.desired.state = .enabled ↔ state.accessState = .enabled := by
  show registrationState state.accessState = .enabled ↔ _
  cases state.accessState <;> decide

theorem desired_state_deleted_iff :
    state.desired.state = .deleted ↔ state.accessState = .deleted := by
  show registrationState state.accessState = .deleted ↔ _
  cases state.accessState <;> decide

/-- All that the gateway may refuse of a body is its client id. -/
theorem isValid_desired (hrevision : 0 < state.revision) (hne : state.clientId ≠ "")
    (hle : state.clientId.length ≤ 100)
    (hcredentials : state.desired.credentials.all RegistrationValidation.isCredential = true)
    (hnodup : (state.desired.credentials.map (·.id)).Nodup) :
    RegistrationValidation.isValid state.desired =
      RegistrationValidation.isIdentity state.clientId := by
  -- the two service names and the client id stand or fall together
  have hbrowser : RegistrationValidation.isIdentity state.desired.browserService =
      RegistrationValidation.isIdentity state.clientId :=
    isIdentity_append hle hne (by decide) (by decide)
  have hserver : RegistrationValidation.isIdentity state.desired.serverService =
      RegistrationValidation.isIdentity state.clientId :=
    isIdentity_append hle hne (by decide) (by decide)
  have hpositive : decide (0 < state.desired.revision) = true :=
    decide_eq_true (Int.natCast_pos.mpr hrevision)
  -- the list of environments is fixed
  have henvironments : (decide (0 < environments.length) && decide (environments.length ≤ 16) &&
      environments.all RegistrationValidation.isIdentity && decide environments.Nodup) = true := by
    decide
  have hcount : state.desired.credentials.length ≤ 4 ∧
      (state.desired.state = .enabled → 0 < state.desired.credentials.length) := by
    unfold desired
    cases haccess : state.accessState <;> cases state.rotation <;> simp [registrationState]
  have hlisted : (state.desired.state ≠ .enabled || 0 < state.desired.credentials.length) =
      true := by
    rw [Bool.or_eq_true, decide_eq_true_eq, decide_eq_true_eq]
    by_cases henabled : state.desired.state = .enabled
    · exact .inr (hcount.2 henabled)
    · exact .inl henabled
  simp only [Bool.and_eq_true] at henvironments
  obtain ⟨⟨⟨hsome, hfew⟩, hidentities⟩, hdistinct⟩ := henvironments
  unfold RegistrationValidation.isValid
  rw [hpositive, hbrowser, hserver, hcredentials, decide_eq_true hnodup, hlisted,
    decide_eq_true hcount.1]
  show (true && RegistrationValidation.isIdentity state.clientId &&
    RegistrationValidation.isIdentity state.clientId && _ && _ &&
    decide (0 < environments.length) && decide (environments.length ≤ 16) &&
    environments.all RegistrationValidation.isIdentity && decide environments.Nodup && _ && _ && _
    && _) = _
  rw [hsome, hfew, hidentities, hdistinct]
  simp only [Bool.true_and, Bool.and_true, Bool.and_self]

end TelemetryRegistration

end Wallow.Telemetry
