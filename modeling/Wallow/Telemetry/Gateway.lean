import Mathlib.Data.List.Nodup
import Mathlib.Logic.Function.Basic
import Wallow.Primitives

/-!
# The telemetry gateway's registry

`PUT /control/v1/registrations/{registrationId}` of `GatewayControl.cs` and the credential check
of `GatewayIngress.cs`.  Requests to the control API run one at a time.  The rows of
`RegistryDb.cs` are finite maps from their primary keys; the JSON a row keeps is the record it was
written from.
-/

namespace Wallow.Telemetry

/-! ## The desired registration -/

inductive RegistrationState
  | enabled
  | disabled
  | deleted
  deriving DecidableEq

structure DesiredCredential where
  id : String
  verifier : String
  deriving DecidableEq

structure CredentialRotation where
  operationId : Guid
  previousCredentialId : String
  newCredentialId : String
  deriving DecidableEq

structure DesiredRegistration where
  revision : Int
  clientId : String
  applicationId : String
  browserService : String
  serverService : String
  environments : List String
  state : RegistrationState
  credentials : List DesiredCredential
  rotation : Option CredentialRotation
  deriving DecidableEq

structure RegistrationAcknowledgement where
  registrationId : Guid
  revision : Int
  acknowledgedAt : Nat
  previousCredentialExpiresAt : Option Nat
  deriving DecidableEq

namespace RegistrationValidation

def isAsciiLetterOrDigit (character : Char) : Bool :=
  (48 ≤ character.toNat && character.toNat ≤ 57) ||
    (65 ≤ character.toNat && character.toNat ≤ 90) ||
    (97 ≤ character.toNat && character.toNat ≤ 122)

def isAsciiHexDigit (character : Char) : Bool :=
  (48 ≤ character.toNat && character.toNat ≤ 57) ||
    (65 ≤ character.toNat && character.toNat ≤ 70) ||
    (97 ≤ character.toNat && character.toNat ≤ 102)

def isIdentityCharacter (character : Char) : Bool :=
  isAsciiLetterOrDigit character || character = '-' || character = '_' || character = '.'

def isIdentity (value : String) : Bool :=
  0 < value.length && value.length ≤ 128 && value.toList.all isIdentityCharacter

def isCredential (credential : DesiredCredential) : Bool :=
  isIdentity credential.id && !credential.id.toList.contains '.' &&
    credential.verifier.length = 64 && credential.verifier.toList.all isAsciiHexDigit

/-- `IsValid`. -/
def isValid (desired : DesiredRegistration) : Bool :=
  0 < desired.revision && isIdentity desired.clientId && isIdentity desired.applicationId &&
    isIdentity desired.browserService && isIdentity desired.serverService &&
    0 < desired.environments.length && desired.environments.length ≤ 16 &&
    desired.environments.all isIdentity && desired.environments.Nodup &&
    desired.credentials.length ≤ 4 && desired.credentials.all isCredential &&
    (desired.credentials.map (·.id)).Nodup &&
    (desired.state ≠ .enabled || 0 < desired.credentials.length)

end RegistrationValidation

/-! ## The registry -/

structure RegistrationEntry where
  revision : Int
  desired : DesiredRegistration
  acknowledgement : RegistrationAcknowledgement
  deriving DecidableEq

structure CredentialEntry where
  registrationId : Guid
  verifier : String
  revoked : Bool
  expiresAt : Option Nat
  deriving DecidableEq

structure RotationEntry where
  registrationId : Guid
  previousCredentialId : String
  newCredentialId : String
  deadline : Nat
  deriving DecidableEq

structure RegistryDb where
  registrations : Guid → Option RegistrationEntry
  credentials : String → Option CredentialEntry
  rotations : Guid → Option RotationEntry

namespace RegistryDb

def empty : RegistryDb where
  registrations := fun _ => none
  credentials := fun _ => none
  rotations := fun _ => none

end RegistryDb

/-- The answers that leave the database as it is: 400 and 409. -/
inductive Refusal
  | badRequest
  | conflict
  deriving DecidableEq

/-! ## The control request -/

/-- A request, with the clock as it is read for the deadline and for the acknowledgement.  `none`
is a body that does not bind; a `null` member or an undefined state, which `IsValid` refuses,
counts as one. -/
structure PutRequest where
  registrationId : Guid
  body : Option DesiredRegistration
  now : Nat
  ackNow : Nat

section

variable (db : RegistryDb) (registrationId : Guid)

/-- The rotation this request starts: the credential it replaces is this registration's and was
neither revoked nor replaced, and nobody has the new one. -/
def startRotation (operation : CredentialRotation) (now : Nat) :
    Except Refusal (RotationEntry × RegistryDb) :=
  match db.credentials operation.previousCredentialId with
  | none => .error .conflict
  | some previous =>
    if previous.registrationId ≠ registrationId || previous.revoked ||
        previous.expiresAt.isSome || (db.credentials operation.newCredentialId).isSome then
      .error .conflict
    else
      let deadline := toUnixTimeMilliseconds (now + 24 * TICKS_PER_HOUR)
      let rotation : RotationEntry :=
        ⟨registrationId, operation.previousCredentialId, operation.newCredentialId, deadline⟩
      .ok (rotation,
        { db with
          credentials := Function.update db.credentials operation.previousCredentialId
            (some { previous with expiresAt := some deadline })
          rotations := Function.update db.rotations operation.operationId (some rotation) })

def rotate (desired : DesiredRegistration) (operation : CredentialRotation) (now : Nat) :
    Except Refusal (RotationEntry × RegistryDb) :=
  if operation.operationId = Guid.empty || desired.state ≠ .enabled ||
      operation.previousCredentialId = operation.newCredentialId ||
      !desired.credentials.any (·.id = operation.previousCredentialId) ||
      !desired.credentials.any (·.id = operation.newCredentialId) then
    .error .badRequest
  else
    match db.rotations operation.operationId with
    | some rotation =>
      if rotation.registrationId ≠ registrationId ||
          rotation.previousCredentialId ≠ operation.previousCredentialId ||
          rotation.newCredentialId ≠ operation.newCredentialId then
        .error .conflict
      else .ok (rotation, db)
    | none => startRotation db registrationId operation now

/-- The rotation of a request, if it asks for one. -/
def applyRotation (desired : DesiredRegistration) (now : Nat) :
    Except Refusal (Option RotationEntry × RegistryDb) :=
  match desired.rotation with
  | none => .ok (none, db)
  | some operation =>
    (rotate db registrationId desired operation now).map fun (rotation, db) => (some rotation, db)

/-- `string.Equals(…, OrdinalIgnoreCase)` of two verifiers, which are hexadecimal. -/
def sameVerifier (a b : String) : Bool :=
  a.toList.map Char.toLower = b.toList.map Char.toLower

/-- One turn of the loop over the desired credentials. -/
def addCredential (state : RegistrationState) (db : RegistryDb) (credential : DesiredCredential) :
    Except Refusal RegistryDb :=
  match db.credentials credential.id with
  | some stored =>
    if stored.registrationId ≠ registrationId || (stored.revoked && state = .enabled) ||
        !sameVerifier stored.verifier credential.verifier then
      .error .conflict
    else .ok db
  | none =>
    .ok { db with
      credentials := Function.update db.credentials credential.id
        (some ⟨registrationId, credential.verifier, false, none⟩) }

/-- The loop over the registration's known credentials. -/
def revokeUnlisted (desired : DesiredRegistration) : RegistryDb :=
  { db with
    credentials := fun id => (db.credentials id).map fun credential =>
      if credential.registrationId = registrationId then
        { credential with
          revoked := credential.revoked || desired.state ≠ .enabled ||
            !desired.credentials.any (·.id = id) }
      else credential }

end

/-- The part of the handler after the checks of the stored revision. -/
def change (db : RegistryDb) (request : PutRequest) (desired : DesiredRegistration) :
    Except Refusal (RegistrationAcknowledgement × RegistryDb) :=
  (applyRotation db request.registrationId desired request.now).bind fun (rotation, db) =>
    (desired.credentials.foldlM (addCredential request.registrationId desired.state) db).map
      fun db =>
        let acknowledgement : RegistrationAcknowledgement :=
          ⟨request.registrationId, desired.revision, request.ackNow,
            rotation.map fun entry => fromUnixTimeMilliseconds entry.deadline⟩
        (acknowledgement,
          { revokeUnlisted db request.registrationId desired with
            registrations := Function.update db.registrations request.registrationId
              (some ⟨desired.revision, desired, acknowledgement⟩) })

/-- The handler: what it answers, with the database it saves. -/
def put (db : RegistryDb) (request : PutRequest) :
    Except Refusal (RegistrationAcknowledgement × RegistryDb) :=
  match request.body with
  | none => .error .badRequest
  | some desired =>
    if request.registrationId = Guid.empty || !RegistrationValidation.isValid desired then
      .error .badRequest
    else
      match db.registrations request.registrationId with
      | none => change db request desired
      | some existing =>
        if existing.revision = desired.revision && existing.desired = desired then
          .ok (existing.acknowledgement, db)
        else if desired.revision ≤ existing.revision || existing.desired.state = .deleted then
          .error .conflict
        else change db request desired

/-- What is stored after a request: only an accepted one is saved. -/
def putSaved (db : RegistryDb) (request : PutRequest) : RegistryDb :=
  match put db request with
  | .ok (_, saved) => saved
  | .error _ => db

/-! ## The ingestion check -/

/-- The credential id and the secret of `Bearer <id>.<secret>`. -/
def bearerParts (authorization : String) : Option (String × String) :=
  let header := authorization.toList
  if header.take 7 = "Bearer ".toList && header.length ≤ 512 then
    match (header.drop 7).span (· ≠ '.') with
    | (id, _ :: secret) => some (String.ofList id, String.ofList secret)
    | (_, []) => none
  else none

def hexDigit (character : Char) : Nat :=
  if character.toNat ≤ 57 then character.toNat - 48
  else if character.toNat ≤ 70 then character.toNat - 55
  else character.toNat - 87

/-- `Convert.FromHexString` on the digits of a verifier. -/
def fromHex : List Char → List Nat
  | high :: low :: rest => (16 * hexDigit high + hexDigit low) :: fromHex rest
  | _ => []

section

-- `SHA256.HashData` of a UTF-8 text, as the list of its bytes
variable (sha256 : String → List Nat)

/-- The ingestion routes' check: the credential's id and its registration's desired state, where
nothing answers 401. -/
def authenticate (db : RegistryDb) (authorization environment : String) (now : Nat) :
    Option (String × DesiredRegistration) :=
  match bearerParts authorization with
  | none => none
  | some (id, secret) =>
    match db.credentials id with
    | none => none
    | some credential =>
      if credential.revoked ||
          credential.expiresAt.any (· ≤ toUnixTimeMilliseconds now) ||
          fromHex credential.verifier.toList ≠ sha256 secret then none
      else
        match db.registrations credential.registrationId with
        | none => none
        | some registration =>
          if registration.desired.state ≠ .enabled ||
              !registration.desired.environments.contains environment then none
          else some (id, registration.desired)

end

end Wallow.Telemetry
