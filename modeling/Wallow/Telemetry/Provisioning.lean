import Wallow.Lib.Transition
import Wallow.Telemetry.GatewayChange
import Wallow.Telemetry.Registration

/-!
# Provisioning: the registrations and the gateway's registry

The requests of `OrganizationClientService.Telemetry.cs` change a registration under its row lock;
any number of `TelemetryProvisioner.ReconcileAsync` runs read it, put what it asks for to the
gateway, and save what they learn under the stamp they read.  A request sent may be delivered at
any time, again or never, and so may its answer.
-/

namespace Wallow.Telemetry

open Transition

/-! ## The two parties -/

/-- The changes of a registration, with the credential each of them makes. -/
inductive Change
  | created (credentialId : String)
  | rotated (credentialId : String)
  | enabled (credentialId : String)
  | revoked (deleted : Bool)
  deriving DecidableEq

def Change.credentialId? : Change → Option String
  | .created credentialId => some credentialId
  | .rotated credentialId => some credentialId
  | .enabled credentialId => some credentialId
  | .revoked _ => none

/-- What a change asked the gateway for. -/
structure Version where
  change : Change
  desired : DesiredRegistration
  deriving DecidableEq

/-- How far a run of `ReconcileAsync` has come.  What it saves is kept beside what it read. -/
inductive Reconcile
  | idle
  | read (state : TelemetryRegistration)
  | waiting (state : TelemetryRegistration)
  | saving (original current : TelemetryRegistration)
  deriving DecidableEq

/-- The rows of Identity, the registry of the gateway, the requests and the answers under way, and
the runs.  The versions a registration has had and the Guids given out are kept for the proofs
alone. -/
structure Provisioning where
  rows : Guid → Option TelemetryRegistration
  versions : Guid → List Version
  issued : List Guid
  registry : RegistryDb
  sent : List (Guid × DesiredRegistration)
  answers : List RegistrationAcknowledgement
  runs : Nat → Reconcile

/-- A step, with the Guids, the secret and the clock readings it draws. -/
inductive Action
  | create (client : RegisteredClient) (credential : Guid) (secret : String) (stamp : Guid)
      (unconfigured : Option Guid) (now : Nat)
  | rotate (id credential : Guid) (secret : String) (rotationId stamp : Guid) (now : Nat)
  | enable (id credential : Guid) (secret : String) (stamp : Guid) (now : Nat)
  | revoke (id : Guid) (deleted : Bool) (stamp : Guid) (now : Nat)
  | read (run : Nat) (id : Guid)
  | unconfigured (run : Nat) (stamp : Guid) (now : Nat)
  | send (run : Nat)
  | deliver (id : Guid) (body : DesiredRegistration) (now ackNow : Nat)
  | receive (run : Nat) (answer : RegistrationAcknowledgement) (stamp : Guid) (now : Nat)
  | fail (run : Nat) (permanent : Bool) (stamp : Guid) (now : Nat)
  | save (run : Nat)

namespace Provisioning

def initial : Provisioning where
  rows := fun _ => none
  versions := fun _ => []
  issued := []
  registry := .empty
  sent := []
  answers := []
  runs := fun _ => .idle

section

variable (s : Provisioning)

/-- What `Guid.NewGuid` may return, one call after the other. -/
def newGuids (guids : List Guid) : Bool :=
  guids.Nodup && guids.all fun guid =>
    guid ≠ Guid.empty && guid < 2 ^ 128 && !s.issued.contains guid

/-- A committed change of a registration. -/
def commit (id : Guid) (change : Change) (state : TelemetryRegistration) (guids : List Guid) :
    Provisioning :=
  { s with
    rows := Function.update s.rows id (some state)
    versions := Function.update s.versions id (s.versions id ++ [⟨change, state.desired⟩])
    issued := guids ++ s.issued }

def setRun (run : Nat) (stage : Reconcile) : Provisioning :=
  { s with runs := Function.update s.runs run stage }

/-- A run has changed its copy and is about to save it. -/
def modify (run : Nat) (original current : TelemetryRegistration) (stamp : Guid) : Provisioning :=
  { s with
    runs := Function.update s.runs run (.saving original current)
    issued := stamp :: s.issued }

end

/-- What a run makes of a successful answer. -/
def learn (state : TelemetryRegistration) (answer : RegistrationAcknowledgement) (stamp : Guid)
    (now : Nat) : TelemetryRegistration :=
  if answer.registrationId = state.id && answer.revision = state.revision &&
      (state.rotation.isNone || answer.previousCredentialExpiresAt.isSome) then
    state.acknowledge answer.revision stamp now answer.previousCredentialExpiresAt
  else state.retry true stamp now

/-- `CreateTelemetry`: the row it adds. -/
def createTelemetry (client : RegisteredClient) (credential : DesiredCredential) (stamp : Guid)
    (unconfigured : Option Guid) (now : Nat) : TelemetryRegistration :=
  match unconfigured with
  | none => .create client credential stamp now
  | some stamp' => (TelemetryRegistration.create client credential stamp now).requireConfiguration
      stamp' now

/-- One step.  A request that is refused, or changes nothing, is none. -/
def step (sha256 : String → Digest) (s : Provisioning) : Action → Option Provisioning
  | .create client credential secret stamp unconfigured now =>
    if (s.rows client.id).isNone && s.newGuids (credential :: stamp :: unconfigured.toList) then
      let new := newTelemetryCredential sha256 credential secret
      some (s.commit client.id (.created new.id)
        (createTelemetry client new stamp unconfigured now)
        (credential :: stamp :: unconfigured.toList))
    else none
  | .rotate id credential secret rotationId stamp now =>
    (s.rows id).bind fun state =>
      if s.newGuids [credential, rotationId, stamp] then
        let new := newTelemetryCredential sha256 credential secret
        match state.rotate new rotationId stamp now with
        | .error _ => none
        | .ok state => some (s.commit id (.rotated new.id) state [credential, rotationId, stamp])
      else none
  | .enable id credential secret stamp now =>
    (s.rows id).bind fun state =>
      if s.newGuids [credential, stamp] then
        let new := newTelemetryCredential sha256 credential secret
        match state.enable new stamp now with
        | .error _ => none
        | .ok state => some (s.commit id (.enabled new.id) state [credential, stamp])
      else none
  | .revoke id deleted stamp now =>
    (s.rows id).bind fun state =>
      if s.newGuids [stamp] then
        (state.revoke deleted stamp now).map fun state =>
          s.commit id (.revoked deleted) state [stamp]
      else none
  | .read run id =>
    match s.runs run with
    | .idle => (s.rows id).map fun state => s.setRun run (.read state)
    | _ => none
  | .unconfigured run stamp now =>
    match s.runs run with
    | .read state =>
      if s.newGuids [stamp] then
        some (s.modify run state (state.requireConfiguration stamp now) stamp)
      else none
    | _ => none
  | .send run =>
    match s.runs run with
    | .read state =>
      some { s.setRun run (.waiting state) with sent := (state.id, state.desired) :: s.sent }
    | _ => none
  | .deliver id body now ackNow =>
    if s.sent.contains (id, body) then
      match put s.registry ⟨id, some body, now, ackNow⟩ with
      | .ok (answer, saved) => some { s with registry := saved, answers := answer :: s.answers }
      | .error _ => some s
    else none
  | .receive run answer stamp now =>
    match s.runs run with
    | .waiting state =>
      if s.answers.contains answer && s.newGuids [stamp] then
        some (s.modify run state (learn state answer stamp now) stamp)
      else none
    | _ => none
  | .fail run permanent stamp now =>
    match s.runs run with
    | .waiting state =>
      if s.newGuids [stamp] then some (s.modify run state (state.retry permanent stamp now) stamp)
      else none
    | _ => none
  | .save run =>
    match s.runs run with
    | .saving original current =>
      match s.rows original.id with
      | some state =>
        if state.concurrencyStamp = original.concurrencyStamp then
          some { s.setRun run .idle with
            rows := Function.update s.rows original.id (some current) }
        else some (s.setRun run .idle)
      | none => some (s.setRun run .idle)
    | _ => none

/-- The change that the acknowledged revision of a registration stands for. -/
def lastAcknowledged (s : Provisioning) (state : TelemetryRegistration) : Option Change :=
  match state.acknowledgedRevision with
  | 0 => none
  | revision + 1 => ((s.versions state.id)[revision]?).map (·.change)

end Provisioning

end Wallow.Telemetry
