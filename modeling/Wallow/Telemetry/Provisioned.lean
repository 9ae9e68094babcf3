import Wallow.Telemetry.ProvisioningHistory

/-!
# What an acknowledgement stands for

Read off the invariant: the gateway stores what an acknowledged revision asks for, a body of the
current revision is taken whenever its client id may be, and after a revocation nothing of the
registration is let in but what a later enabling made.
-/

namespace Wallow.Telemetry

open Transition

namespace Provisioning

variable {s : Provisioning} {id : Guid} {state : TelemetryRegistration}

theorem Applied.le {registry : RegistryDb} {position position' : Nat}
    (h : Applied registry id position) (hle : position' ≤ position) :
    Applied registry id position' := by
  obtain ⟨e, he, hlt⟩ := h
  exact ⟨e, he, by omega⟩

/-! ## Acknowledged -/

/-- The stored registration is one of the versions, up to the row's. -/
theorem stored_version (h : s.Sound) (hrow : s.rows id = some state) {e : RegistrationEntry}
    (he : s.registry.registrations id = some e) :
    ∃ position v, s.versionAt id position = some v ∧ v.desired = e.desired ∧
      e.revision = position + 1 ∧ position + 1 ≤ state.revision := by
  obtain ⟨⟨position, v, hv, hdesired, hrevision⟩, -⟩ := h.registry.stored id e he
  have hlt := versionAt_lt hv
  rw [← (h.recorded.row id state hrow).revision] at hlt
  exact ⟨position, v, hv, hdesired, hrevision, hlt⟩

/-- Once the gateway has reached the row's revision it stores what the row asks for. -/
theorem stored_of_applied (h : s.Sound) (hrow : s.rows id = some state)
    (happlied : Applied s.registry id (state.revision - 1)) :
    ∃ acknowledgement, s.registry.registrations id =
      some ⟨state.revision, state.desired, acknowledgement⟩ := by
  obtain ⟨e, he, hlt⟩ := happlied
  obtain ⟨position, v, hv, hdesired, hrevision, hle⟩ := stored_version h hrow he
  have hstate := h.recorded.row id state hrow
  obtain ⟨change, hlast, -⟩ := hstate.last
  have hposition : position = state.revision - 1 := by omega
  rw [hposition, hlast, Option.some.injEq] at hv
  have hsame : state.desired = e.desired := by
    rw [← hdesired, ← hv]
  have hnumber : e.revision = state.revision := by
    have hpositive := hstate.positive
    omega
  refine ⟨e.acknowledgement, ?_⟩
  rw [he, ← hnumber, hsame]

theorem stored_of_acknowledged (h : s.Sound) (hrow : s.rows id = some state)
    (hacknowledged : state.acknowledgedRevision = state.revision) :
    ∃ acknowledgement, s.registry.registrations id =
      some ⟨state.revision, state.desired, acknowledgement⟩ := by
  have hpositive := (h.recorded.row id state hrow).positive
  exact stored_of_applied h hrow
    (h.runs.acknowledged id state hrow (state.revision - 1) (by omega))

/-! ## The body of the current revision -/

/-- The gateway does not know a credential before it reaches the version that makes it. -/
theorem credential_unknown (h : s.Sound) {position : Nat} {v : Version} {credentialId : String}
    (hv : s.versionAt id position = some v) (hnot : ¬ Applied s.registry id position)
    (hchange : v.change.credentialId? = some credentialId) :
    s.registry.credentials credentialId = none := by
  cases hc : s.registry.credentials credentialId with
  | none => rfl
  | some c =>
    obtain ⟨position', v', d, hv', hd, hid, happlied⟩ := h.registry.credential credentialId c hc
    obtain ⟨hregistration, hle⟩ := h.recorded.fresh.credential id position v credentialId hv hchange
      c.registrationId position' v' d hv' hd hid
    rw [hregistration] at happlied
    exact absurd (happlied.le hle) hnot

theorem rotation_unknown (h : s.Sound) {position : Nat} {v : Version}
    {operation : CredentialRotation} (hv : s.versionAt id position = some v)
    (hnot : ¬ Applied s.registry id position) (hoperation : v.desired.rotation = some operation) :
    s.registry.rotations operation.operationId = none := by
  cases hentry : s.registry.rotations operation.operationId with
  | none => rfl
  | some entry =>
    obtain ⟨position', v', hv', hoperation', happlied⟩ :=
      h.registry.rotation operation.operationId entry hentry
    obtain ⟨hregistration, hposition⟩ := h.recorded.fresh.operation id position v operation hv
      hoperation entry.registrationId position' v' _ hv' hoperation' rfl
    rw [hregistration, hposition] at happlied
    exact absurd happlied hnot

/-- A credential is replaced by one version at most. -/
theorem replaced_once (h : s.Sound) {position position' : Nat} {v v' : Version}
    {operation operation' : CredentialRotation} (hv : s.versionAt id position = some v)
    (hv' : s.versionAt id position' = some v') (hoperation : v.desired.rotation = some operation)
    (hoperation' : v'.desired.rotation = some operation')
    (hsame : operation'.previousCredentialId = operation.previousCredentialId) :
    position ≤ position' := by
  obtain ⟨-, -, -, before, -, -, hbefore, hmade, -⟩ :=
    (h.recorded.version id position v hv).rotation operation hoperation
  obtain ⟨-, -, -, before', d', hposition', hbefore', -, -, hlisted', -, hid'⟩ :=
    (h.recorded.version id position' v' hv').rotation operation' hoperation'
  have hle := (h.recorded.fresh.credential id (position - 1) before _ hbefore hmade id
    (position' - 1) before' d' hbefore' hlisted' (hid'.trans hsame)).2
  omega

/-- The rotation of a version that the gateway is about to reach can start. -/
theorem startable (h : s.Sound) {position : Nat} {v : Version} {operation : CredentialRotation}
    (hv : s.versionAt id position = some v) (hoperation : v.desired.rotation = some operation)
    (hnot : ¬ Applied s.registry id position)
    (hbefore : ∀ position', position' < position → Applied s.registry id position') :
    ∃ previous, Startable s.registry id v.desired operation previous ∧
      ∀ d ∈ v.desired.credentials, d.id = operation.previousCredentialId →
        sameVerifier previous.verifier d.verifier = true := by
  have hsound := h.recorded.version id position v hv
  obtain ⟨hchange, hne, hdistinct, before, d, hposition, hat, hmade, henabled, hold, hlisted,
    hid⟩ := hsound.rotation operation hoperation
  have hcredentialId : v.change.credentialId? = some operation.newCredentialId := by
    rw [hchange]
    rfl
  -- the gateway stores the version before, where the replaced credential is live
  obtain ⟨e, he, hlt⟩ := hbefore (position - 1) (by omega)
  obtain ⟨⟨position₀, v₀, hv₀, hdesired₀, hrevision₀⟩, -⟩ := h.registry.stored id e he
  have hposition₀ : position₀ = position - 1 := by
    by_contra hother
    exact hnot ⟨e, he, by omega⟩
  have hstored : before.desired = e.desired := by
    rw [← hdesired₀]
    rw [hposition₀] at hv₀
    exact congrArg Version.desired (Option.some.inj (hat.symm.trans hv₀))
  rw [hstored] at henabled hold
  obtain ⟨previous, hprevious, hregistration, hlive, hverifier⟩ :=
    h.registry.live id e he henabled d hold
  rw [hid] at hprevious
  have hunending : previous.expiresAt = none := by
    cases hexpires : previous.expiresAt with
    | none => rfl
    | some deadline =>
      obtain ⟨position', v', operation', hv', hoperation', hsame, happlied⟩ :=
        h.registry.expiring operation.previousCredentialId previous hprevious
          (by rw [hexpires]; rfl)
      rw [hregistration] at hv' happlied
      have hle := replaced_once h hv hv' hoperation hoperation' hsame
      exact absurd (happlied.le hle) hnot
  have hnew : ∃ d ∈ v.desired.credentials, d.id = operation.newCredentialId :=
    hsound.own operation.newCredentialId hcredentialId
  refine ⟨previous, ⟨hne, ?_, hdistinct, ⟨d, hlisted, hid⟩, hnew,
    rotation_unknown h hv hnot hoperation, hprevious, hregistration, hlive, hunending,
    credential_unknown h hv hnot hcredentialId⟩, ?_⟩
  · exact hsound.enabled.mp (by rw [hcredentialId]; rfl)
  · intro d' hd' hid'
    have hsame : d' = d := List.inj_on_of_nodup_map hsound.nodup hd' hlisted (hid'.trans hid.symm)
    rw [hsame]
    exact hverifier

/-- The body of the row's revision is refused only for its client id. -/
theorem put_current (h : s.Sound) (hrow : s.rows id = some state) (now ackNow : Nat) :
    if RegistrationValidation.isIdentity state.clientId = true then
      ∃ answer saved, put s.registry ⟨id, some state.desired, now, ackNow⟩ = .ok (answer, saved)
    else put s.registry ⟨id, some state.desired, now, ackNow⟩ = .error .badRequest := by
  have hstate := h.recorded.row id state hrow
  obtain ⟨change, hlast, -⟩ := hstate.last
  have hsound := h.recorded.version id _ _ hlast
  have hvalid : RegistrationValidation.isValid state.desired =
      RegistrationValidation.isIdentity state.clientId := hsound.valid
  split
  · rename_i hidentity
    rw [← hvalid] at hidentity
    by_cases happlied : Applied s.registry id (state.revision - 1)
    · obtain ⟨acknowledgement, hstored⟩ := stored_of_applied h hrow happlied
      have hkept : Stored (PutRequest.mk id (some state.desired) now ackNow).registrationId
          state.desired acknowledgement s.registry := hstored
      exact ⟨acknowledgement, s.registry, put_stored hkept rfl hstate.key_ne hidentity⟩
    · have hbefore : ∀ position', position' < state.revision - 1 →
          change.credentialId?.isSome → Applied s.registry id position' := by
        intro position' hlt hmade
        refine h.runs.acknowledged id state hrow position' ?_
        by_contra hpending
        have hnone := hstate.pending _ _ hlast (by omega)
        rw [hnone] at hmade
        cases hmade
      have hnewer : ∀ e, s.registry.registrations id = some e →
          e.revision < state.desired.revision ∧ e.desired.state ≠ .deleted := by
        intro e he
        obtain ⟨position, v, hv, hdesired, hrevision, hle⟩ := stored_version h hrow he
        have hlt : position + 1 < state.revision := by
          by_contra hge
          exact happlied ⟨e, he, by omega⟩
        constructor
        · show e.revision < (state.revision : Int)
          omega
        · rw [← hdesired]
          refine h.recorded.undeleted id position v hv ?_
          rw [← hstate.revision]
          exact hlt
      have hmade : ∀ operation, state.desired.rotation = some operation →
          change.credentialId?.isSome := by
        intro operation hoperation
        have hrotated : change = .rotated operation.newCredentialId :=
          (hsound.rotation operation hoperation).1
        rw [hrotated]
        rfl
      refine put_accepted rfl hstate.key_ne hidentity hnewer (change_accepted hsound.nodup ?_ ?_)
      · intro d hd stored hknown
        cases (hsound.listed d hd).2 with
        | inl hown =>
          rw [credential_unknown h hlast happlied hown] at hknown
          cases hknown
        | inr hprevious =>
          obtain ⟨operation, hoperation, hid⟩ := hprevious
          obtain ⟨previous, hstart, hverifier⟩ := startable h hlast hoperation happlied
            fun position' hlt => hbefore position' hlt (hmade operation hoperation)
          rw [← hid, hstart.stored, Option.some.injEq] at hknown
          rw [← hknown]
          exact ⟨hstart.registrationId, fun _ => hstart.live, hverifier d hd hid.symm⟩
      · intro operation hoperation
        obtain ⟨previous, hstart, -⟩ := startable h hlast hoperation happlied
          fun position' hlt => hbefore position' hlt (hmade operation hoperation)
        exact ⟨previous, hstart⟩
  · rename_i hidentity
    rw [← hvalid, Bool.not_eq_true] at hidentity
    unfold put
    dsimp only
    rw [if_pos]
    rw [hidentity, Bool.not_false, Bool.or_true]

/-! ## The last acknowledged change -/

/-- Who is let in has a live credential, and a registration that is enabled. -/
theorem authenticate_registration {sha256 : String → List Nat} {db : RegistryDb}
    {authorization environment credentialId : String} {now : Nat} {desired : DesiredRegistration}
    (h : authenticate sha256 db authorization environment now = some (credentialId, desired)) :
    ∃ c e, db.credentials credentialId = some c ∧ c.revoked = false ∧
      db.registrations c.registrationId = some e ∧ e.desired.state = .enabled ∧
      e.desired = desired := by
  unfold authenticate at h
  split at h
  · cases h
  split at h
  · cases h
  rename_i c hc
  split at h
  · cases h
  rename_i hlive
  split at h
  · cases h
  rename_i e he
  split at h
  · cases h
  rename_i hserved
  simp only [Bool.or_eq_true, not_or, decide_eq_true_eq, Bool.not_eq_true, not_not] at hlive hserved
  cases h
  exact ⟨c, e, hc, hlive.1.1, he, hserved.1, rfl⟩

/-- After a revocation only what the next enabling made is let in. -/
theorem enabled_of_authenticate {sha256 : String → List Nat} (h : s.Sound)
    (hrow : s.rows id = some state) {deleted : Bool}
    (hrevoked : s.lastAcknowledged state = some (.revoked deleted))
    {authorization environment credentialId : String} {now : Nat} {desired : DesiredRegistration}
    (hauth : authenticate sha256 s.registry authorization environment now =
      some (credentialId, desired))
    {c : CredentialEntry} (hc : s.registry.credentials credentialId = some c)
    (hregistration : c.registrationId = id) :
    s.versionAt id state.acknowledgedRevision = some ⟨.enabled credentialId, desired⟩ := by
  have hstate := h.recorded.row id state hrow
  obtain ⟨c', e, hc', hlive, he, henabled, hdesired⟩ := authenticate_registration hauth
  have hsame : c' = c := Option.some.inj (hc'.symm.trans hc)
  rw [hsame] at hlive he
  rw [hregistration] at he
  -- the gateway has reached the revocation, and stores a version that is enabled
  unfold lastAcknowledged at hrevoked
  split at hrevoked
  · cases hrevoked
  rename_i revision hacknowledged
  obtain ⟨v₀, hv₀, hchange₀⟩ := Option.map_eq_some_iff.mp hrevoked
  rw [hstate.key] at hv₀
  have hv₀At : s.versionAt id revision = some v₀ := hv₀
  obtain ⟨position, v, hv, hversion, hrevision, -⟩ := stored_version h hrow he
  have hsound := h.recorded.version id position v hv
  have hmade : v.change.credentialId?.isSome := by
    rw [hsound.enabled, hversion]
    exact henabled
  have hreached : revision ≤ position := by
    obtain ⟨e', he', hlt⟩ := h.runs.acknowledged id state hrow revision (by omega)
    have hentry : e' = e := Option.some.inj (he'.symm.trans he)
    rw [hentry] at hlt
    omega
  have hlater : position ≠ revision := by
    intro hposition
    rw [hposition, hv₀At, Option.some.injEq] at hv
    rw [← hv, hchange₀] at hmade
    cases hmade
  -- what is not acknowledged begins with the one change that was waited for
  have hnext : position = state.acknowledgedRevision := by
    by_contra hother
    have hnone := hstate.pending position v hv (by omega)
    rw [hnone] at hmade
    cases hmade
  obtain ⟨e', he', -, d, hd, hid⟩ := h.registry.listed credentialId c hc hlive
  rw [hregistration] at he'
  have hentry : e' = e := Option.some.inj (he'.symm.trans he)
  rw [hentry, ← hversion] at hd
  -- and which is no rotation, for the version before made no credential
  have hunrotated : ∀ operation, v.desired.rotation ≠ some operation := by
    intro operation hoperation
    obtain ⟨-, -, -, before, d', -, hbefore, hbeforeMade, -⟩ := hsound.rotation operation hoperation
    have hposition : position - 1 = revision := by omega
    rw [hposition] at hbefore
    have hbeforeSame : v₀ = before := Option.some.inj (hv₀At.symm.trans hbefore)
    rw [← hbeforeSame, hchange₀] at hbeforeMade
    cases hbeforeMade
  have hown : v.change.credentialId? = some credentialId := by
    cases (hsound.listed d hd).2 with
    | inl hown =>
      rw [← hid]
      exact hown
    | inr hreplaced =>
      obtain ⟨operation, hoperation, -⟩ := hreplaced
      exact absurd hoperation (hunrotated operation)
  have hchange : v.change = .enabled credentialId := by
    cases hkind : v.change with
    | created made =>
      have hfirst := hsound.first made hkind
      omega
    | rotated made =>
      obtain ⟨operation, hoperation⟩ := Option.isSome_iff_exists.mp (hsound.rotated made hkind)
      exact absurd hoperation (hunrotated operation)
    | enabled made =>
      rw [hkind] at hown
      exact congrArg Change.enabled (Option.some.inj hown)
    | revoked d' =>
      rw [hkind] at hown
      cases hown
  rw [← hnext, hv, ← hchange, ← hdesired, ← hversion]

/-! ## Provisioning -/

/-- In every state reached: where the row's revision is acknowledged, the gateway stores what it
asks for; a body of the row's revision is what the row asks for, is never answered 409, and is
answered 400 exactly when its client id is none the gateway takes; and while the last acknowledged
change is a revocation, a credential of the registration that is let in is the one that the next
change, an enabling not yet acknowledged, has made. -/
theorem provisioning (sha256 : String → Digest) (h : Reachable (step sha256) initial s)
    (hrow : s.rows id = some state) :
    (state.acknowledgedRevision = state.revision → ∃ acknowledgement,
      s.registry.registrations id = some ⟨state.revision, state.desired, acknowledgement⟩) ∧
    (∀ body now ackNow, (id, body) ∈ s.sent → body.revision = state.revision →
      body = state.desired ∧
      put s.registry ⟨id, some body, now, ackNow⟩ ≠ .error .conflict ∧
      (put s.registry ⟨id, some body, now, ackNow⟩ = .error .badRequest ↔
        RegistrationValidation.isIdentity state.clientId = false)) ∧
    (∀ deleted, s.lastAcknowledged state = some (.revoked deleted) →
      ∀ authorization environment now credentialId desired c,
        authenticate (fun secret => (sha256 secret).bytes) s.registry authorization environment
          now = some (credentialId, desired) →
        s.registry.credentials credentialId = some c → c.registrationId = id →
        state.acknowledgedRevision < state.revision ∧
        s.versionAt id state.acknowledgedRevision = some ⟨.enabled credentialId, desired⟩) := by
  have hsound := sound_of_reachable h
  have hstate := hsound.recorded.row id state hrow
  refine ⟨stored_of_acknowledged hsound hrow, ?_, ?_⟩
  · intro body now ackNow hsent hrevision
    have hbody : body = state.desired := by
      obtain ⟨position, v, hv, hdesired⟩ := hsound.runs.sent (id, body) hsent
      obtain ⟨change, hlast, -⟩ := hstate.last
      have hversion : v.desired = body := hdesired
      have hnumber := (hsound.recorded.version id position v hv).revision
      rw [hversion, hrevision] at hnumber
      have hposition : position = state.revision - 1 := by
        have hpositive := hstate.positive
        omega
      rw [hposition, hlast, Option.some.injEq] at hv
      rw [← hversion, ← hv]
    have hput := put_current hsound hrow now ackNow
    refine ⟨hbody, ?_⟩
    rw [hbody]
    split at hput
    · rename_i hidentity
      obtain ⟨answer, saved, hok⟩ := hput
      rw [hok, hidentity]
      exact ⟨by simp, by simp⟩
    · rename_i hidentity
      rw [hput]
      exact ⟨by simp, iff_of_true rfl (eq_false_of_ne_true hidentity)⟩
  · intro deleted hrevoked authorization environment now credentialId desired c hauth hc hid
    have hnext := enabled_of_authenticate hsound hrow hrevoked hauth hc hid
    refine ⟨?_, hnext⟩
    rw [hstate.revision]
    exact versionAt_lt hnext

/-! ## An enabling whose answer is lost, and a client id that is no identity -/

/-- A secret, and what SHA-256 makes of it. -/
def sampleSecret : String := String.ofList (List.flatten (List.replicate 32 ['2', 'b']))

def sampleDigest : Digest where
  bytes := [123, 98, 11, 55, 238, 137, 228, 96, 219, 15, 3, 243, 105, 224, 52, 41, 88, 50, 144,
    241, 59, 246, 229, 176, 185, 105, 33, 163, 171, 5, 147, 196]
  length_eq := rfl
  isByte := by decide

theorem sampleId_ne : (7 : Guid) ≠ Guid.empty := by decide

def sampleClient : RegisteredClient where
  id := 7
  clientId := "app-acme-web"
  organizationId := 3
  id_ne := sampleId_ne
  clientId_ne := by decide
  clientId_le := by decide

/-- A client as a configuration may name one. -/
def spacedClient : RegisteredClient where
  id := 7
  clientId := "acme portal"
  organizationId := 3
  id_ne := sampleId_ne
  clientId_ne := by decide
  clientId_le := by decide

/-- A run of `ReconcileAsync` on a registration in a state, to its end or until its answer is
lost. -/
def reconciled (state : TelemetryRegistration) (stamp : Guid) (answered : Bool) : List Action :=
  [.read 0 state.id, .send 0, .deliver state.id state.desired 1 1] ++
    if answered then [.receive 0 ⟨state.id, state.revision, 1, none⟩ stamp 1, .save 0] else []

/-- A registration is created and revoked, each with its acknowledgement. -/
def revokedOnce : List Action :=
  let first := TelemetryRegistration.create sampleClient
    (newTelemetryCredential (fun _ => sampleDigest) 100 sampleSecret) 101 0
  let acknowledged := first.acknowledge 1 102 1 none
  let revoked := (acknowledged.revoke false 103 2).getD acknowledged
  [.create sampleClient 100 sampleSecret 101 none 0] ++ reconciled first 102 true ++
    [.revoke 7 false 103 2] ++ reconciled revoked 104 true

/-- It is then enabled again, and the last answer is lost. -/
def enabledAgain : List Action :=
  let new := newTelemetryCredential (fun _ => sampleDigest) 105 sampleSecret
  let first := TelemetryRegistration.create sampleClient new 101 0
  let enabled := { first with revision := 3, acknowledgedRevision := 2, concurrencyStamp := 106 }
  revokedOnce ++ [.enable 7 105 sampleSecret 106 3] ++ reconciled enabled 107 false

/-- The last acknowledged change is a revocation, and a credential of the registration is let in. -/
def letIn (s : Provisioning) : Bool :=
  (s.rows 7).any (fun state => s.lastAcknowledged state = some (.revoked false)) &&
    (authenticate (fun _ => sampleDigest.bytes) s.registry
      ("Bearer " ++ guidText 105 ++ "." ++ sampleSecret) "production" 9).any fun (id, _) =>
        (s.registry.credentials id).any (·.registrationId = 7)

/-- The body of the current revision has been sent, and would be answered 400. -/
def refused (s : Provisioning) : Bool :=
  (s.rows 7).any fun state => s.sent.contains (7, state.desired) &&
    !RegistrationValidation.isValid state.desired

theorem provisioning_overtaken :
    (∃ s state credentialId desired c, Reachable (step fun _ => sampleDigest) initial s ∧
      s.rows 7 = some state ∧ s.lastAcknowledged state = some (.revoked false) ∧
      authenticate (fun _ => sampleDigest.bytes) s.registry
        ("Bearer " ++ guidText 105 ++ "." ++ sampleSecret) "production" 9 =
          some (credentialId, desired) ∧
      s.registry.credentials credentialId = some c ∧ c.registrationId = 7) ∧
    (∃ s state, Reachable (step fun _ => sampleDigest) initial s ∧ s.rows 7 = some state ∧
      (7, state.desired) ∈ s.sent ∧ state.desired.revision = state.revision ∧
      ∀ now ackNow, put s.registry ⟨7, some state.desired, now, ackNow⟩ = .error .badRequest) := by
  constructor
  · have hrun : (run (step fun _ => sampleDigest) (fun _ _ => true) initial enabledAgain).any
        letIn = true := by
      decide +kernel
    obtain ⟨s, hreach, hs⟩ := exists_reaches_of_run (fun _ _ _ => trivial) hrun
    rw [letIn, Bool.and_eq_true] at hs
    obtain ⟨hrevoked, hlet⟩ := hs
    obtain ⟨state, hrow, hrevoked⟩ := (Option.any_eq_true ..).mp hrevoked
    obtain ⟨⟨credentialId, desired⟩, hauth, hcredential⟩ := (Option.any_eq_true ..).mp hlet
    obtain ⟨c, hc, hregistration⟩ := (Option.any_eq_true ..).mp hcredential
    exact ⟨s, state, credentialId, desired, c, hreach, hrow, of_decide_eq_true hrevoked, hauth, hc,
      of_decide_eq_true hregistration⟩
  · have hrun : (run (step fun _ => sampleDigest) (fun _ _ => true) initial
        [.create spacedClient 100 sampleSecret 101 none 0, .read 0 7, .send 0]).any
        refused = true := by
      decide +kernel
    obtain ⟨s, hreach, hs⟩ := exists_reaches_of_run (fun _ _ _ => trivial) hrun
    obtain ⟨state, hrow, hstate⟩ := (Option.any_eq_true ..).mp hs
    rw [Bool.and_eq_true, List.contains_eq_mem, decide_eq_true_eq] at hstate
    refine ⟨s, state, hreach, hrow, hstate.1, rfl, fun now ackNow => ?_⟩
    unfold put
    dsimp only
    rw [if_pos]
    rw [hstate.2, Bool.or_true]

/-- Once its revocation is acknowledged, the gateway stores the disabled registration. -/
theorem provisioning_revoked :
    ∃ s state, Reachable (step fun _ => sampleDigest) initial s ∧ s.rows 7 = some state ∧
      state.accessState = .disabled ∧ ∃ acknowledgement,
        s.registry.registrations 7 = some ⟨state.revision, state.desired, acknowledgement⟩ := by
  have hrun : (run (step fun _ => sampleDigest) (fun _ _ => true) initial revokedOnce).any
      (fun s => (s.rows 7).any fun state => state.accessState = .disabled &&
        state.acknowledgedRevision = state.revision) = true := by
    decide +kernel
  obtain ⟨s, hreach, hs⟩ := exists_reaches_of_run (fun _ _ _ => trivial) hrun
  obtain ⟨state, hrow, hstate⟩ := (Option.any_eq_true ..).mp hs
  rw [Bool.and_eq_true, decide_eq_true_eq, decide_eq_true_eq] at hstate
  exact ⟨s, state, hreach, hrow, hstate.1,
    (provisioning (fun _ => sampleDigest) hreach hrow).1 hstate.2⟩

/-- What is shown of a registration is so at the gateway: where it is disabled, none of its
credentials is let in; where it is active, the gateway stores its current revision, enabled. -/
theorem status_truthful (sha256 : String → Digest) (h : Reachable (step sha256) initial s)
    (hrow : s.rows id = some state) :
    (state.status = "disabled" → ∀ authorization environment now credentialId desired c,
      authenticate (fun secret => (sha256 secret).bytes) s.registry authorization environment
        now = some (credentialId, desired) →
      s.registry.credentials credentialId = some c → c.registrationId ≠ id) ∧
    (state.status = "active" → ∃ acknowledgement, s.registry.registrations id =
      some ⟨state.revision, state.desired, acknowledgement⟩ ∧ state.desired.state = .enabled) := by
  have hsound := sound_of_reachable h
  have hstored := stored_of_acknowledged hsound hrow
  unfold TelemetryRegistration.status
  by_cases haccess : state.accessState = .enabled
  · rw [if_neg (not_not.mpr haccess)]
    refine ⟨fun hstatus => ?_, fun hstatus => ?_⟩
    · split_ifs at hstatus <;> exact absurd hstatus (by decide)
    · by_cases hacknowledged : state.acknowledgedRevision = state.revision
      · have ⟨acknowledgement, hregistration⟩ := hstored hacknowledged
        exact ⟨acknowledgement, hregistration,
          TelemetryRegistration.desired_state_enabled_iff.mpr haccess⟩
      · split_ifs at hstatus <;> exact absurd hstatus (by decide)
  · rw [if_pos haccess]
    refine ⟨fun hstatus authorization environment now credentialId desired c hauth hc hid => ?_,
      fun hstatus => ?_⟩
    · by_cases hacknowledged : state.acknowledgedRevision = state.revision
      · -- who is let in has an enabled registration at the gateway, which is the current one
        have ⟨acknowledgement, hregistration⟩ := hstored hacknowledged
        have ⟨c', e, hc', _, he, henabled, _⟩ := authenticate_registration hauth
        rw [Option.some.inj (hc'.symm.trans hc), hid, hregistration, Option.some.injEq] at he
        rw [← he] at henabled
        exact haccess (TelemetryRegistration.desired_state_enabled_iff.mp henabled)
      · rw [if_neg hacknowledged] at hstatus
        exact absurd hstatus (by decide)
    · split_ifs at hstatus <;> exact absurd hstatus (by decide)

/-- A registration is revoked before anything of it is sent. -/
def revokedAtOnce : List Action :=
  let first := TelemetryRegistration.create sampleClient
    (newTelemetryCredential (fun _ => sampleDigest) 100 sampleSecret) 101 0
  [.create sampleClient 100 sampleSecret 101 none 0, .revoke 7 false 103 2] ++
    reconciled ((first.revoke false 103 2).getD first) 104 true

theorem status_truthful_revoked :
    ∃ s state, Reachable (step fun _ => sampleDigest) initial s ∧ s.rows 7 = some state ∧
      state.status = "disabled" ∧ ∀ authorization environment now credentialId desired c,
        authenticate (fun _ => sampleDigest.bytes) s.registry authorization environment
          now = some (credentialId, desired) →
        s.registry.credentials credentialId = some c → c.registrationId ≠ 7 := by
  have hrun : (run (step fun _ => sampleDigest) (fun _ _ => true) initial revokedAtOnce).any
      (fun s => (s.rows 7).any fun state => state.status = "disabled") = true := by
    decide +kernel
  have ⟨s, hreach, hs⟩ := exists_reaches_of_run (fun _ _ _ => trivial) hrun
  have ⟨state, hrow, hstatus⟩ := (Option.any_eq_true ..).mp hs
  rw [decide_eq_true_eq] at hstatus
  exact ⟨s, state, hreach, hrow, hstatus,
    (status_truthful (fun _ => sampleDigest) hreach hrow).1 hstatus⟩

end Provisioning

end Wallow.Telemetry
