import Wallow.Telemetry.Provisioning

/-!
# The life of an organization's clients

Registering, enabling, deleting and syncing clients, by `OrganizationClientService`,
`OrganizationService` and `PreRegisteredClientSyncService`, with the telemetry registrations they
leave. A request that takes the row lock of the organization is one step, but for the enabling of
telemetry, which the sync may come between: it takes no lock.
-/

namespace Wallow.Telemetry

open Transition

/-- The OpenIddict application of a client, and whether it carries the source of the sync. -/
structure ClientApplication where
  clientId : String
  fromConfig : Bool
  deriving DecidableEq

/-- What making a registration draws. -/
structure TelemetryDraw where
  credential : DesiredCredential
  stamp : Guid
  unconfigured : Option Guid
  now : Nat

/-- What a run of the provisioner saves. -/
inductive Reconciled
  | acknowledged (revision : Int) (previousCredentialExpiresAt : Option Nat)
  | unconfigured
  | failed (permanent : Bool)

structure ClientLifecycle where
  organizations : List Guid
  applications : List ClientApplication
  clients : List RegisteredClient
  registrations : List TelemetryRegistration
  /-- The clients of the transactions past `RequireClientAsync`, which hold the lock of their
  organization. -/
  enabling : List RegisteredClient
  /-- The ids given to clients so far. -/
  ids : List Guid

inductive LifecycleMove
  | createOrganization (organization : Guid)
  | register (client : RegisteredClient) (telemetry : Option TelemetryDraw)
  /-- `EnableTelemetryAsync` up to its check of the client. -/
  | requireClient (id : Guid)
  | commitEnable (id : Guid) (draw : TelemetryDraw)
  | abandonEnable (id : Guid)
  | rotate (id : Guid) (draw : TelemetryDraw) (rotationId : Guid)
  | revoke (id : Guid) (stamp : Guid) (now : Nat)
  | reconcile (id : Guid) (saved : Reconciled) (stamp : Guid) (now : Nat)
  | deleteClient (id : Guid) (stamp : Guid) (now : Nat)
  | deleteOrganization (organization : Guid) (stamp : Guid → Guid) (now : Nat)
  /-- `CreateOrUpdateClientAsync`, with the organization that its definition resolves to. -/
  | syncClient (clientId : String) (tenantId : Option Guid) (row : RegisteredClient)
  /-- `DeleteRemovedClientsAsync` of one application. -/
  | deleteRemoved (configured : List String) (clientId : String)

def Reconciled.apply (saved : Reconciled) (state : TelemetryRegistration) (stamp : Guid)
    (now : Nat) : TelemetryRegistration :=
  match saved with
  | .acknowledged revision expires => state.acknowledge revision stamp now expires
  | .unconfigured => state.requireConfiguration stamp now
  | .failed permanent => state.retry permanent stamp now

def TelemetryDraw.create (draw : TelemetryDraw) (client : RegisteredClient) :
    TelemetryRegistration :=
  Provisioning.createTelemetry client draw.credential draw.stamp draw.unconfigured draw.now

/-- `Revoke`, with what it leaves. -/
def TelemetryRegistration.revoked (state : TelemetryRegistration) (deleted : Bool) (stamp : Guid)
    (now : Nat) : TelemetryRegistration :=
  (state.revoke deleted stamp now).getD state

namespace ClientLifecycle

def start : ClientLifecycle := ⟨[], [], [], [], [], []⟩

section

variable (s : ClientLifecycle)

/-- The row lock of the organization is taken. -/
def locked (organization : Guid) : Bool :=
  s.enabling.any fun client => client.organizationId = organization

/-- The row that `RequireClientAsync` finds. -/
def requireClient (id : Guid) : Option RegisteredClient :=
  (s.clients.find? fun client => client.id = id).filter fun client =>
    !s.locked client.organizationId && s.organizations.contains client.organizationId

def registrationOf (id : Guid) : Option TelemetryRegistration :=
  s.registrations.find? fun state => state.id = id

def setRegistration (id : Guid) (change : TelemetryRegistration → TelemetryRegistration) :
    ClientLifecycle :=
  { s with
    registrations := s.registrations.map fun state =>
      if state.id = id then change state else state }

def clientOf (clientId : String) : Option RegisteredClient :=
  s.clients.find? fun client => client.clientId = clientId

/-- `registeredClients.Remove`. -/
def removeClient (id : Guid) : ClientLifecycle :=
  { s with clients := s.clients.filter fun client => client.id ≠ id }

def addClient (client : RegisteredClient) : ClientLifecycle :=
  { s with clients := s.clients ++ [client], ids := client.id :: s.ids }

/-- The application is created, or updated and marked. -/
def syncApplication (clientId : String) : ClientLifecycle :=
  { s with
    applications :=
      if s.applications.any fun application => application.clientId = clientId then
        s.applications.map fun application =>
          if application.clientId = clientId then { application with fromConfig := true }
          else application
      else s.applications ++ [⟨clientId, true⟩] }

def removeApplication (clientId : String) : ClientLifecycle :=
  { s with
    applications := s.applications.filter fun application => application.clientId ≠ clientId }

/-- `SyncRegistryRowAsync`. -/
def syncRegistryRow (clientId : String) (tenantId : Option Guid) (row : RegisteredClient) :
    ClientLifecycle :=
  match s.clientOf clientId, tenantId with
  | none, none => s
  | some record, none => s.removeClient record.id
  | none, some _ => s.addClient row
  | some record, some tenant =>
    if record.organizationId = tenant then s else (s.removeClient record.id).addClient row

end

/-- One step; `ignoreCase` is `StringComparer.OrdinalIgnoreCase`. A request that is refused is
none. -/
def step (ignoreCase : String → String → Bool) (s : ClientLifecycle) :
    LifecycleMove → Option ClientLifecycle
  | .createOrganization organization =>
    if s.organizations.contains organization then none
    else some { s with organizations := organization :: s.organizations }
  | .register client telemetry =>
    if !s.ids.contains client.id && s.organizations.contains client.organizationId &&
        !s.locked client.organizationId && (s.clientOf client.clientId).isNone &&
        !s.applications.any fun application => application.clientId = client.clientId then
      some { s.addClient client with
        applications := s.applications ++ [⟨client.clientId, false⟩]
        registrations := s.registrations ++ (telemetry.map fun draw => draw.create client).toList }
    else none
  | .requireClient id =>
    (s.requireClient id).map fun client => { s with enabling := client :: s.enabling }
  | .commitEnable id draw =>
    (s.enabling.find? fun client => client.id = id).bind fun client =>
      let ended := { s with enabling := s.enabling.filter fun client => client.id ≠ id }
      match s.registrationOf id with
      | none => some { ended with registrations := s.registrations ++ [draw.create client] }
      | some state =>
        match state.enable draw.credential draw.stamp draw.now with
        | .ok enabled => some (ended.setRegistration id fun _ => enabled)
        | .error _ => none
  | .abandonEnable id =>
    some { s with enabling := s.enabling.filter fun client => client.id ≠ id }
  | .rotate id draw rotationId =>
    (s.requireClient id).bind fun _ =>
      (s.registrationOf id).bind fun state =>
        match state.rotate draw.credential rotationId draw.stamp draw.now with
        | .ok rotated => some (s.setRegistration id fun _ => rotated)
        | .error _ => none
  | .revoke id stamp now =>
    (s.requireClient id).map fun _ => s.setRegistration id (·.revoked false stamp now)
  | .reconcile id saved stamp now =>
    some (s.setRegistration id fun state => saved.apply state stamp now)
  | .deleteClient id stamp now =>
    ((s.clients.find? fun client => client.id = id).filter fun client =>
        !s.locked client.organizationId).map fun client =>
      ((s.removeApplication client.clientId).setRegistration id
        (·.revoked true stamp now)).removeClient id
  | .deleteOrganization organization stamp now =>
    if s.organizations.contains organization && !s.locked organization then
      let bound := s.clients.filter fun client => client.organizationId = organization
      some { s with
        organizations := s.organizations.filter (· ≠ organization)
        applications := s.applications.filter fun application =>
          !bound.any fun client => client.clientId = application.clientId
        registrations := s.registrations.map fun state =>
          if state.organizationId = organization then state.revoked true (stamp state.id) now
          else state
        clients := s.clients.filter fun client => client.organizationId ≠ organization }
    else none
  | .syncClient clientId tenantId row =>
    if !s.ids.contains row.id && row.clientId = clientId &&
        tenantId.all fun tenant => tenant = row.organizationId then
      some ((s.syncApplication clientId).syncRegistryRow clientId tenantId row)
    else none
  | .deleteRemoved configured clientId =>
    if s.applications.any (fun application =>
        application.clientId = clientId && application.fromConfig) &&
        !configured.any (ignoreCase clientId) then
      let s' := s.removeApplication clientId
      match s.clientOf clientId with
      | some record => some (s'.removeClient record.id)
      | none => some s'
    else none

/-! ## The condition -/

/-- The client has a registration that is not to be deleted. -/
def hasTelemetry (s : ClientLifecycle) (id : Guid) : Bool :=
  s.registrations.any fun state => state.id = id && state.accessState ≠ .deleted

/-- The sync removes and replaces no row of a client with telemetry, and none that goes before the
enabling of its telemetry is over. -/
def keepsTelemetry (s : ClientLifecycle) : LifecycleMove → Bool
  | .syncClient clientId tenantId _ =>
    (s.clientOf clientId).all fun record =>
      tenantId = some record.organizationId || !s.hasTelemetry record.id
  | .deleteRemoved _ clientId =>
    (s.clientOf clientId).all fun record => !s.hasTelemetry record.id
  | .commitEnable id _ => s.clients.any fun client => client.id = id
  | _ => true

/-- Every registration that is not to be deleted belongs to a client there is. -/
def Covered (s : ClientLifecycle) : Prop :=
  ∀ state ∈ s.registrations, state.accessState ≠ .deleted →
    ∃ client ∈ s.clients, client.id = state.id ∧ client.organizationId = state.organizationId

structure Sound (s : ClientLifecycle) : Prop where
  covered : s.Covered
  clients : ∀ client ∈ s.clients, client.id ∈ s.ids
  registrations : ∀ state ∈ s.registrations, state.id ∈ s.ids
  enabling : ∀ client ∈ s.enabling, client.id ∈ s.ids
  clientKeys : ∀ client ∈ s.clients, ∀ other ∈ s.clients, client.id = other.id → client = other
  registrationKeys : ∀ state ∈ s.registrations, ∀ other ∈ s.registrations, state.id = other.id →
    state = other
  same : ∀ client ∈ s.enabling, ∀ row ∈ s.clients, row.id = client.id →
    row.organizationId = client.organizationId

/-! ## What changes of a registration leave -/

/-- A change keeps whose registration it is, and brings none back. -/
structure Kept (state state' : TelemetryRegistration) : Prop where
  id : state'.id = state.id
  organization : state'.organizationId = state.organizationId
  live : state'.accessState ≠ .deleted → state.accessState ≠ .deleted

theorem Kept.refl (state : TelemetryRegistration) : Kept state state := ⟨rfl, rfl, fun h => h⟩

theorem kept_revoked (state : TelemetryRegistration) (deleted : Bool) (stamp : Guid) (now : Nat) :
    Kept state (state.revoked deleted stamp now) := by
  unfold TelemetryRegistration.revoked TelemetryRegistration.revoke
  split
  · exact .refl state
  · rename_i h
    rw [Bool.or_eq_true, decide_eq_true_eq, not_or] at h
    exact ⟨rfl, rfl, fun _ => h.1⟩

theorem revoked_deleted (state : TelemetryRegistration) (stamp : Guid) (now : Nat) :
    (state.revoked true stamp now).accessState = .deleted := by
  unfold TelemetryRegistration.revoked TelemetryRegistration.revoke
  split
  · rename_i h
    simpa [TelemetryRegistration.revokeTarget] using h
  · rfl

theorem kept_reconciled (saved : Reconciled) (state : TelemetryRegistration) (stamp : Guid)
    (now : Nat) : Kept state (saved.apply state stamp now) := by
  cases saved with
  | acknowledged revision expires =>
    unfold Reconciled.apply TelemetryRegistration.acknowledge
    simp only
    split
    · exact .refl state
    · exact ⟨rfl, rfl, fun h => h⟩
  | unconfigured => exact ⟨rfl, rfl, fun h => h⟩
  | failed permanent => exact ⟨rfl, rfl, fun h => h⟩

theorem kept_enable {state enabled : TelemetryRegistration} {credential : DesiredCredential}
    {stamp : Guid} {now : Nat} (h : state.enable credential stamp now = .ok enabled) :
    Kept state enabled ∧ state.accessState ≠ .deleted := by
  unfold TelemetryRegistration.enable at h
  split at h
  · cases h
  · rename_i hstate
    cases h
    rw [Bool.or_eq_true, decide_eq_true_eq, not_or, not_not] at hstate
    have hlive : state.accessState ≠ .deleted := by
      rw [hstate.1]
      decide
    exact ⟨⟨rfl, rfl, fun _ => hlive⟩, hlive⟩

theorem kept_rotate {state rotated : TelemetryRegistration} {credential : DesiredCredential}
    {rotationId stamp : Guid} {now : Nat}
    (h : state.rotate credential rotationId stamp now = .ok rotated) : Kept state rotated := by
  unfold TelemetryRegistration.rotate at h
  split at h
  · cases h
  · cases h
    exact ⟨rfl, rfl, fun h => h⟩

theorem create_of_draw (draw : TelemetryDraw) (client : RegisteredClient) :
    (draw.create client).id = client.id ∧
      (draw.create client).organizationId = client.organizationId ∧
      (draw.create client).accessState = .enabled := by
  unfold TelemetryDraw.create Provisioning.createTelemetry
  split
  · exact ⟨rfl, rfl, rfl⟩
  · exact ⟨rfl, rfl, rfl⟩

/-! ## What a step does to the tables -/

variable {s : ClientLifecycle}

theorem sound_start : Sound start := by
  constructor <;> simp [start, Covered]

/-- The transactions under way are those there were, and perhaps one of a client there is. -/
theorem Sound.of_enabling (h : s.Sound) {enabling : List RegisteredClient}
    (henabling : ∀ client ∈ enabling, client ∈ s.enabling ∨ client ∈ s.clients) :
    Sound { s with enabling := enabling } :=
  { h with
    enabling := fun client hclient =>
      (henabling client hclient).elim (h.enabling client) (h.clients client)
    same := by
      intro client hclient row hrow hid
      cases henabling client hclient with
      | inl hold => exact h.same client hold row hrow hid
      | inr hnew => rw [h.clientKeys row hrow client hnew hid] }

theorem Sound.of_applications (h : s.Sound) (applications : List ClientApplication) :
    Sound { s with applications := applications } :=
  { h with }

theorem setRegistration_sound (h : s.Sound) {id : Guid}
    {change : TelemetryRegistration → TelemetryRegistration}
    (hkept : ∀ state ∈ s.registrations, state.id = id → Kept state (change state)) :
    Sound (s.setRegistration id change) := by
  have hmem : ∀ state' ∈ (s.setRegistration id change).registrations,
      ∃ state ∈ s.registrations, Kept state state' ∧
        state' = if state.id = id then change state else state := by
    intro state' hstate'
    obtain ⟨state, hstate, rfl⟩ := List.mem_map.mp hstate'
    refine ⟨state, hstate, ?_, rfl⟩
    split
    · rename_i hid
      exact hkept state hstate hid
    · exact .refl state
  refine { h with covered := ?_, registrations := ?_, registrationKeys := ?_ }
  · intro state' hstate' hlive
    obtain ⟨state, hstate, hsame, -⟩ := hmem state' hstate'
    obtain ⟨client, hclient, hid, horganization⟩ := h.covered state hstate (hsame.live hlive)
    exact ⟨client, hclient, hid.trans hsame.id.symm,
      horganization.trans hsame.organization.symm⟩
  · intro state' hstate'
    obtain ⟨state, hstate, hsame, -⟩ := hmem state' hstate'
    rw [hsame.id]
    exact h.registrations state hstate
  · intro state' hstate' other' hother' hid
    obtain ⟨state, hstate, hsame, heq⟩ := hmem state' hstate'
    obtain ⟨other, hother, hsame', heq'⟩ := hmem other' hother'
    rw [hsame.id, hsame'.id] at hid
    rw [heq, heq', h.registrationKeys state hstate other hother hid]

theorem removeClient_sound (h : s.Sound) {id : Guid} (hnone : s.hasTelemetry id = false) :
    Sound (s.removeClient id) := by
  have hsub : ∀ client ∈ (s.removeClient id).clients, client ∈ s.clients :=
    fun client hclient => List.mem_of_mem_filter hclient
  refine { h with covered := ?_, clients := ?_, clientKeys := ?_, same := ?_ }
  · intro state hstate hlive
    obtain ⟨client, hclient, hid, horganization⟩ := h.covered state hstate hlive
    refine ⟨client, List.mem_filter.mpr ⟨hclient, ?_⟩, hid, horganization⟩
    rw [decide_eq_true_eq]
    intro hremoved
    have hsome : s.hasTelemetry id = true :=
      List.any_eq_true.mpr ⟨state, hstate, by simp [← hid, hremoved, hlive]⟩
    rw [hnone] at hsome
    cases hsome
  · exact fun client hclient => h.clients client (hsub client hclient)
  · exact fun client hclient other hother =>
      h.clientKeys client (hsub client hclient) other (hsub other hother)
  · exact fun client hclient row hrow => h.same client hclient row (hsub row hrow)

theorem addClient_sound (h : s.Sound) {client : RegisteredClient} (hfresh : client.id ∉ s.ids) :
    Sound (s.addClient client) := by
  have hne : ∀ row ∈ s.clients, row.id ≠ client.id :=
    fun row hrow heq => hfresh (heq ▸ h.clients row hrow)
  refine { h with
    covered := ?_, clients := ?_, registrations := ?_, enabling := ?_, clientKeys := ?_
    same := ?_ }
  · intro state hstate hlive
    obtain ⟨row, hrow, hrest⟩ := h.covered state hstate hlive
    exact ⟨row, List.mem_append_left _ hrow, hrest⟩
  · intro row hrow
    cases List.mem_append.mp hrow with
    | inl hold => exact List.mem_cons_of_mem _ (h.clients row hold)
    | inr hnew =>
      rw [List.mem_singleton.mp hnew]
      exact List.mem_cons_self
  · exact fun state hstate => List.mem_cons_of_mem _ (h.registrations state hstate)
  · exact fun e he => List.mem_cons_of_mem _ (h.enabling e he)
  · intro row hrow other hother hid
    cases List.mem_append.mp hrow with
    | inl hold =>
      cases List.mem_append.mp hother with
      | inl hold' => exact h.clientKeys row hold other hold' hid
      | inr hnew' =>
        rw [List.mem_singleton.mp hnew'] at hid
        exact absurd hid (hne row hold)
    | inr hnew =>
      cases List.mem_append.mp hother with
      | inl hold' =>
        rw [List.mem_singleton.mp hnew] at hid
        exact absurd hid.symm (hne other hold')
      | inr hnew' => rw [List.mem_singleton.mp hnew, List.mem_singleton.mp hnew']
  · intro e he row hrow hid
    cases List.mem_append.mp hrow with
    | inl hold => exact h.same e he row hold hid
    | inr hnew =>
      -- the id is new, and that of a transaction under way is not
      rw [List.mem_singleton.mp hnew] at hid
      exact absurd (hid ▸ h.enabling e he) hfresh

/-- A registration is made for a client there is that has none. -/
theorem addRegistration_sound (h : s.Sound) {client : RegisteredClient} (draw : TelemetryDraw)
    (hclient : ∃ row ∈ s.clients, row.id = client.id ∧ row.organizationId = client.organizationId)
    (hnone : ∀ state ∈ s.registrations, state.id ≠ client.id) :
    Sound { s with registrations := s.registrations ++ [draw.create client] } := by
  obtain ⟨hid, horganization, -⟩ := create_of_draw draw client
  obtain ⟨row, hrow, hrowId, hrowOrganization⟩ := hclient
  refine { h with covered := ?_, registrations := ?_, registrationKeys := ?_ }
  · intro state hstate hlive
    cases List.mem_append.mp hstate with
    | inl hold => exact h.covered state hold hlive
    | inr hnew =>
      rw [List.mem_singleton.mp hnew]
      exact ⟨row, hrow, hrowId.trans hid.symm, hrowOrganization.trans horganization.symm⟩
  · intro state hstate
    cases List.mem_append.mp hstate with
    | inl hold => exact h.registrations state hold
    | inr hnew =>
      rw [List.mem_singleton.mp hnew, hid, ← hrowId]
      exact h.clients row hrow
  · intro state hstate other hother heq
    cases List.mem_append.mp hstate with
    | inl hold =>
      cases List.mem_append.mp hother with
      | inl hold' => exact h.registrationKeys state hold other hold' heq
      | inr hnew' =>
        rw [List.mem_singleton.mp hnew', hid] at heq
        exact absurd heq (hnone state hold)
    | inr hnew =>
      cases List.mem_append.mp hother with
      | inl hold' =>
        rw [List.mem_singleton.mp hnew, hid] at heq
        exact absurd heq.symm (hnone other hold')
      | inr hnew' => rw [List.mem_singleton.mp hnew, List.mem_singleton.mp hnew']

/-- The row found is the only one under its id. -/
theorem setRegistration_sound_of_found (h : s.Sound) {id : Guid}
    {state changed : TelemetryRegistration} (hfound : s.registrationOf id = some state)
    (hkept : Kept state changed) : Sound (s.setRegistration id fun _ => changed) := by
  have hid : state.id = id := by simpa using List.find?_some hfound
  apply setRegistration_sound h
  intro other hother hotherId
  rw [h.registrationKeys other hother state (List.mem_of_find?_eq_some hfound)
    (hotherId.trans hid.symm)]
  exact hkept

theorem commitEnable_sound (h : s.Sound) {ignoreCase : String → String → Bool} {id : Guid}
    {draw : TelemetryDraw} {t : ClientLifecycle}
    (hstep : s.step ignoreCase (.commitEnable id draw) = some t)
    (hkeeps : s.keepsTelemetry (.commitEnable id draw) = true) : Sound t := by
  obtain ⟨client, hclient, hcommit⟩ := Option.bind_eq_some_iff.mp hstep
  have hid : client.id = id := by simpa using List.find?_some hclient
  have hended : Sound { s with enabling := s.enabling.filter fun client => client.id ≠ id } :=
    h.of_enabling fun e he => .inl (List.mem_of_mem_filter he)
  simp only at hcommit
  split at hcommit
  · rename_i hnone
    cases hcommit
    obtain ⟨row, hrow, hrowId⟩ := List.any_eq_true.mp hkeeps
    rw [decide_eq_true_eq] at hrowId
    have hsame := h.same client (List.mem_of_find?_eq_some hclient) row hrow
      (hrowId.trans hid.symm)
    refine addRegistration_sound hended draw ⟨row, hrow, hrowId.trans hid.symm, hsame⟩ ?_
    intro state hstate hstateId
    exact absurd (hstateId.trans hid) (by simpa using List.find?_eq_none.mp hnone state hstate)
  · rename_i state hfound
    split at hcommit
    · rename_i enabled henable
      cases hcommit
      exact setRegistration_sound_of_found hended hfound (kept_enable henable).1
    · cases hcommit

theorem deleteClient_sound (h : s.Sound) (clientId : String) (id : Guid) (stamp : Guid)
    (now : Nat) :
    Sound (((s.removeApplication clientId).setRegistration id
      (·.revoked true stamp now)).removeClient id) := by
  have happlication : Sound (s.removeApplication clientId) := h.of_applications _
  have hrevoked : Sound ((s.removeApplication clientId).setRegistration id
      (·.revoked true stamp now)) :=
    setRegistration_sound happlication fun state _ _ => kept_revoked state true stamp now
  apply removeClient_sound hrevoked
  apply List.any_eq_false.mpr
  intro state' hstate'
  -- what has the id is revoked
  obtain ⟨state, hstate, rfl⟩ := List.mem_map.mp hstate'
  by_cases hid : state.id = id
  · simp [hid, revoked_deleted]
  · simp [hid]

theorem deleteOrganization_sound (h : s.Sound) (organization : Guid) (stamp : Guid → Guid)
    (now : Nat) (organizations : List Guid) (applications : List ClientApplication) :
    Sound { s with
      organizations := organizations
      applications := applications
      registrations := s.registrations.map fun state =>
        if state.organizationId = organization then state.revoked true (stamp state.id) now
        else state
      clients := s.clients.filter fun client => client.organizationId ≠ organization } := by
  have hmem : ∀ state' ∈ s.registrations.map (fun state =>
      if state.organizationId = organization then state.revoked true (stamp state.id) now
      else state), ∃ state ∈ s.registrations, Kept state state' ∧
        state' = (if state.organizationId = organization then
          state.revoked true (stamp state.id) now else state) ∧
        (state.organizationId = organization → state'.accessState = .deleted) := by
    intro state' hstate'
    obtain ⟨state, hstate, rfl⟩ := List.mem_map.mp hstate'
    refine ⟨state, hstate, ?_, rfl, ?_⟩
    · split
      · exact kept_revoked state true (stamp state.id) now
      · exact .refl state
    · intro horganization
      rw [if_pos horganization]
      exact revoked_deleted state (stamp state.id) now
  have hsub : ∀ client ∈ s.clients.filter (fun client => client.organizationId ≠ organization),
      client ∈ s.clients := fun client hclient => List.mem_of_mem_filter hclient
  constructor
  · intro state' hstate' hlive
    obtain ⟨state, hstate, hkept, -, hdeleted⟩ := hmem state' hstate'
    obtain ⟨client, hclient, hid, horganization⟩ := h.covered state hstate (hkept.live hlive)
    refine ⟨client, List.mem_filter.mpr ⟨hclient, ?_⟩, hid.trans hkept.id.symm,
      horganization.trans hkept.organization.symm⟩
    rw [decide_eq_true_eq, horganization]
    exact fun heq => hlive (hdeleted heq)
  · exact fun client hclient => h.clients client (hsub client hclient)
  · intro state' hstate'
    obtain ⟨state, hstate, hkept, -⟩ := hmem state' hstate'
    rw [hkept.id]
    exact h.registrations state hstate
  · exact h.enabling
  · exact fun client hclient other hother =>
      h.clientKeys client (hsub client hclient) other (hsub other hother)
  · intro state' hstate' other' hother' hid
    obtain ⟨state, hstate, hkept, heq, -⟩ := hmem state' hstate'
    obtain ⟨other, hother, hkept', heq', -⟩ := hmem other' hother'
    rw [hkept.id, hkept'.id] at hid
    rw [heq, heq', h.registrationKeys state hstate other hother hid]
  · exact fun client hclient row hrow => h.same client hclient row (hsub row hrow)

theorem syncRegistryRow_sound (h : s.Sound) {clientId : String} {tenantId : Option Guid}
    {row : RegisteredClient} (hfresh : row.id ∉ s.ids)
    (hkeeps : ∀ record, s.clientOf clientId = some record →
      tenantId = some record.organizationId ∨ s.hasTelemetry record.id = false) :
    Sound (s.syncRegistryRow clientId tenantId row) := by
  unfold syncRegistryRow
  split
  · exact h
  · rename_i record hrecord
    have hnone := (hkeeps record hrecord).resolve_left (by simp)
    exact removeClient_sound h hnone
  · exact addClient_sound h hfresh
  · rename_i record tenant hrecord
    split
    · exact h
    · rename_i hmoved
      have hnone := (hkeeps record hrecord).resolve_left fun heq =>
        hmoved (Option.some.inj heq).symm
      exact addClient_sound (removeClient_sound h hnone) hfresh

/-! ## The steps -/

theorem step_sound {ignoreCase : String → String → Bool} {t : ClientLifecycle} (h : s.Sound)
    {move : LifecycleMove} (hkeeps : s.keepsTelemetry move = true)
    (hstep : s.step ignoreCase move = some t) : Sound t := by
  cases move with
  | createOrganization organization =>
    simp only [step, Option.ite_none_left_eq_some, Option.some.injEq] at hstep
    obtain ⟨-, rfl⟩ := hstep
    exact { h with }
  | register client telemetry =>
    simp only [step, Option.ite_none_right_eq_some, Option.some.injEq] at hstep
    obtain ⟨hfree, rfl⟩ := hstep
    have hfresh : client.id ∉ s.ids := by
      simp only [Bool.and_eq_true, Bool.not_eq_true', List.contains_eq_mem,
        decide_eq_false_iff_not] at hfree
      exact hfree.1.1.1.1
    have hadded := addClient_sound h hfresh
    cases telemetry with
    | none =>
      rw [Option.map_none, Option.toList_none, List.append_nil]
      exact hadded.of_applications _
    | some draw =>
      have hnone : ∀ state ∈ s.registrations, state.id ≠ client.id :=
        fun state hstate heq => hfresh (heq ▸ h.registrations state hstate)
      have hrow : client ∈ (s.addClient client).clients :=
        List.mem_append_right _ (List.mem_singleton_self _)
      exact (addRegistration_sound hadded draw ⟨client, hrow, rfl, rfl⟩ hnone).of_applications _
  | requireClient id =>
    obtain ⟨client, hclient, rfl⟩ := Option.map_eq_some_iff.mp hstep
    have hrow := List.mem_of_find?_eq_some (Option.filter_eq_some_iff.mp hclient).1
    refine h.of_enabling fun e he => ?_
    cases List.mem_cons.mp he with
    | inl hnew => exact .inr (hnew ▸ hrow)
    | inr hold => exact .inl hold
  | commitEnable id draw => exact commitEnable_sound h hstep hkeeps
  | abandonEnable id =>
    cases hstep
    exact h.of_enabling fun e he => .inl (List.mem_of_mem_filter he)
  | rotate id draw rotationId =>
    obtain ⟨-, -, hrotate⟩ := Option.bind_eq_some_iff.mp hstep
    obtain ⟨state, hfound, hrotate⟩ := Option.bind_eq_some_iff.mp hrotate
    split at hrotate
    · rename_i rotated hrotated
      cases hrotate
      exact setRegistration_sound_of_found h hfound (kept_rotate hrotated)
    · cases hrotate
  | revoke id stamp now =>
    obtain ⟨-, -, rfl⟩ := Option.map_eq_some_iff.mp hstep
    exact setRegistration_sound h fun state _ _ => kept_revoked state false stamp now
  | reconcile id saved stamp now =>
    cases hstep
    exact setRegistration_sound h fun state _ _ => kept_reconciled saved state stamp now
  | deleteClient id stamp now =>
    obtain ⟨client, -, rfl⟩ := Option.map_eq_some_iff.mp hstep
    exact deleteClient_sound h client.clientId id stamp now
  | deleteOrganization organization stamp now =>
    simp only [step, Option.ite_none_right_eq_some, Option.some.injEq] at hstep
    obtain ⟨-, rfl⟩ := hstep
    exact deleteOrganization_sound h organization stamp now _ _
  | syncClient clientId tenantId row =>
    simp only [step, Option.ite_none_right_eq_some, Option.some.injEq, Bool.and_eq_true,
      Bool.not_eq_true', List.contains_eq_mem, decide_eq_false_iff_not] at hstep
    obtain ⟨⟨⟨hfresh, -⟩, -⟩, rfl⟩ := hstep
    have happlication : Sound (s.syncApplication clientId) := h.of_applications _
    apply syncRegistryRow_sound happlication hfresh
    intro record hrecord
    have hall := (Option.all_eq_true _ _).mp hkeeps record hrecord
    rw [Bool.or_eq_true, decide_eq_true_eq, Bool.not_eq_true'] at hall
    exact hall
  | deleteRemoved configured clientId =>
    simp only [step, Option.ite_none_right_eq_some] at hstep
    obtain ⟨-, hdelete⟩ := hstep
    have happlication : Sound (s.removeApplication clientId) := h.of_applications _
    split at hdelete
    · rename_i record hrecord
      cases hdelete
      have hall := (Option.all_eq_true _ _).mp hkeeps record hrecord
      rw [Bool.not_eq_true'] at hall
      exact removeClient_sound happlication hall
    · cases hdelete
      exact happlication

/-! ## A step that does not meet the condition -/

theorem not_covered_of_gone {t : ClientLifecycle} {id : Guid}
    (hgone : ∀ client ∈ t.clients, client.id ≠ id) (hlive : t.hasTelemetry id = true) :
    ¬t.Covered := by
  intro hcovered
  obtain ⟨state, hstate, htest⟩ := List.any_eq_true.mp hlive
  rw [Bool.and_eq_true, decide_eq_true_eq, decide_eq_true_eq] at htest
  obtain ⟨client, hclient, hid, -⟩ := hcovered state hstate htest.2
  exact hgone client hclient (hid.trans htest.1)

theorem removeClient_gone (s : ClientLifecycle) (id : Guid) :
    ∀ client ∈ (s.removeClient id).clients, client.id ≠ id := by
  intro client hclient
  simpa using (List.mem_filter.mp hclient).2

theorem keeps_of_covered_sync (h : s.Sound) {clientId : String} {tenantId : Option Guid}
    {row : RegisteredClient} (hfresh : row.id ∉ s.ids)
    (hcovered : (s.syncRegistryRow clientId tenantId row).Covered) {record : RegisteredClient}
    (hrecord : s.clientOf clientId = some record) :
    tenantId = some record.organizationId ∨ s.hasTelemetry record.id = false := by
  by_contra hboth
  rw [not_or, Bool.not_eq_false] at hboth
  obtain ⟨hmoved, hlive⟩ := hboth
  unfold syncRegistryRow at hcovered
  rw [hrecord] at hcovered
  cases tenantId with
  | none => exact not_covered_of_gone (removeClient_gone s record.id) hlive hcovered
  | some tenant =>
    simp only at hcovered
    split at hcovered
    · rename_i hsame
      exact hmoved (congrArg some hsame.symm)
    · have hleft : ((s.removeClient record.id).addClient row).hasTelemetry record.id = true := hlive
      refine not_covered_of_gone ?_ hleft hcovered
      intro client hclient
      cases List.mem_append.mp hclient with
      | inl hold => exact removeClient_gone s record.id client hold
      | inr hnew =>
        -- the row that takes its place has an id of its own
        rw [List.mem_singleton.mp hnew]
        have hknown := h.clients record (List.mem_of_find?_eq_some hrecord)
        exact fun heq => hfresh (heq ▸ hknown)

theorem keeps_of_covered_enable (h : s.Sound) {ignoreCase : String → String → Bool} {id : Guid}
    {draw : TelemetryDraw} {t : ClientLifecycle}
    (hstep : s.step ignoreCase (.commitEnable id draw) = some t) (hcovered : t.Covered) :
    s.keepsTelemetry (.commitEnable id draw) = true := by
  obtain ⟨client, hclient, hcommit⟩ := Option.bind_eq_some_iff.mp hstep
  have hid : client.id = id := by simpa using List.find?_some hclient
  apply List.any_eq_true.mpr
  simp only at hcommit
  split at hcommit
  · cases hcommit
    obtain ⟨hcreatedId, -, henabled⟩ := create_of_draw draw client
    obtain ⟨row, hrow, hrowId, -⟩ := hcovered (draw.create client)
      (List.mem_append_right _ (List.mem_singleton_self _)) (by rw [henabled]; decide)
    exact ⟨row, hrow, decide_eq_true (hrowId.trans (hcreatedId.trans hid))⟩
  · rename_i state hfound
    split at hcommit
    · rename_i enabled henable
      have hstateId : state.id = id := by simpa using List.find?_some hfound
      obtain ⟨row, hrow, hrowId, -⟩ := h.covered state (List.mem_of_find?_eq_some hfound)
        (kept_enable henable).2
      exact ⟨row, hrow, decide_eq_true (hrowId.trans hstateId)⟩
    · cases hcommit

theorem keeps_of_covered {ignoreCase : String → String → Bool} {t : ClientLifecycle} (h : s.Sound)
    {move : LifecycleMove} (hstep : s.step ignoreCase move = some t) (hcovered : t.Covered) :
    s.keepsTelemetry move = true := by
  cases move with
  | syncClient clientId tenantId row =>
    simp only [step, Option.ite_none_right_eq_some, Option.some.injEq, Bool.and_eq_true,
      Bool.not_eq_true', List.contains_eq_mem, decide_eq_false_iff_not] at hstep
    obtain ⟨⟨⟨hfresh, -⟩, -⟩, rfl⟩ := hstep
    have happlication : Sound (s.syncApplication clientId) := h.of_applications _
    apply (Option.all_eq_true _ _).mpr
    intro record hrecord
    rw [Bool.or_eq_true, decide_eq_true_eq, Bool.not_eq_true']
    exact keeps_of_covered_sync happlication hfresh hcovered hrecord
  | deleteRemoved configured clientId =>
    simp only [step, Option.ite_none_right_eq_some] at hstep
    obtain ⟨-, hdelete⟩ := hstep
    apply (Option.all_eq_true _ _).mpr
    intro record hrecord
    rw [hrecord] at hdelete
    cases hdelete
    rw [Bool.not_eq_true']
    by_contra hlive
    rw [Bool.not_eq_false] at hlive
    exact not_covered_of_gone (removeClient_gone (s.removeApplication clientId) record.id) hlive
      hcovered
  | commitEnable id draw => exact keeps_of_covered_enable h hstep hcovered
  | createOrganization organization => rfl
  | register client telemetry => rfl
  | requireClient id => rfl
  | abandonEnable id => rfl
  | rotate id draw rotationId => rfl
  | revoke id stamp now => rfl
  | reconcile id saved stamp now => rfl
  | deleteClient id stamp now => rfl
  | deleteOrganization organization stamp now => rfl

/-- Every registration belongs to a client throughout a run exactly when no sync of it removes or
replaces the row of a client with telemetry, nor that of one whose telemetry is being enabled. -/
theorem registrations_covered_iff (ignoreCase : String → String → Bool)
    (moves : List LifecycleMove) (t : ClientLifecycle)
    (h : follow (fun s move => s.step ignoreCase move) start moves = some t) :
    Throughout (fun s move => s.step ignoreCase move) Covered start moves ↔
      run (fun s move => s.step ignoreCase move) (fun s move => s.keepsTelemetry move) start moves =
        some t := by
  have hinv : ∀ a l b, Sound a → a.keepsTelemetry l = true → a.step ignoreCase l = some b →
      Sound b := fun _ _ _ ha hl hstep => step_sound ha hl hstep
  have hstep : ∀ a l b, Sound a → a.step ignoreCase l = some b →
      (b.Covered ↔ a.keepsTelemetry l = true) := fun _ _ _ ha hstep =>
    ⟨keeps_of_covered ha hstep, fun hl => (step_sound ha hl hstep).covered⟩
  exact run_iff_throughout sound_start sound_start.covered hinv hstep h

def webClient : RegisteredClient := ⟨7, "web", 1, by decide, by decide, by decide⟩

def webDraw : TelemetryDraw := ⟨⟨"credential", "verifier"⟩, 8, none, 0⟩

/-- A client of the configuration whose telemetry is enabled. -/
def enabledMoves : List LifecycleMove :=
  [.createOrganization 1, .syncClient "web" (some 1) webClient, .requireClient 7,
    .commitEnable 7 webDraw]

theorem registrations_covered_iff_deleted :
    Throughout (fun s move => s.step (· == ·) move) Covered start
      (enabledMoves ++ [.deleteClient 7 9 0, .deleteOrganization 1 (fun _ => 10) 0]) := by
  have hsome : (run (fun s move => s.step (· == ·) move) (fun s move => s.keepsTelemetry move) start
      (enabledMoves ++ [.deleteClient 7 9 0, .deleteOrganization 1 (fun _ => 10) 0])).isSome =
        true := by decide
  obtain ⟨t, ht⟩ := Option.isSome_iff_exists.mp hsome
  exact (registrations_covered_iff (· == ·) _ t (follow_of_run ht)).mpr ht

/-- The client is dropped from the configuration, and its credential stays. -/
theorem dropped_client_keeps_telemetry :
    ¬∀ (ignoreCase : String → String → Bool) (s : ClientLifecycle),
      Reachable (fun s move => s.step ignoreCase move) start s → s.Covered := by
  intro hclaim
  have hrun : ((follow (fun s move => s.step (· == ·) move) start
      (enabledMoves ++ [.deleteRemoved [] "web"])).any fun s =>
        s.clients.isEmpty && s.hasTelemetry 7) = true := by decide
  obtain ⟨s, hs, hleft⟩ := exists_reaches_of_run (fun _ _ _ => trivial) hrun
  rw [Bool.and_eq_true, List.isEmpty_iff] at hleft
  refine not_covered_of_gone ?_ hleft.2 (hclaim (· == ·) s hs)
  rw [hleft.1]
  exact fun client hclient => absurd hclient List.not_mem_nil

end ClientLifecycle

end Wallow.Telemetry
