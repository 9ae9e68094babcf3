import Wallow.Telemetry.Versions

/-!
# The requests commit sound changes

Creating, rotating, enabling and revoking, each on a recorded registration.
-/

namespace Wallow.Telemetry

open RegistrationValidation

/-! ## The version of each kind of body -/

section

variable {history : List Version} {position : Nat} {change : Change}
  {state : TelemetryRegistration}

theorem desired_revision (hrevision : state.revision = position + 1) :
    state.desired.revision = position + 1 := by
  show (state.revision : Int) = position + 1
  rw [hrevision]
  exact Int.natCast_succ position

theorem sound_of_enabled (hrevision : state.revision = position + 1) (hne : state.clientId ≠ "")
    (hle : state.clientId.length ≤ 100) (haccess : state.accessState = .enabled)
    (hrotation : state.rotation = none)
    (hcredential : isCredential ⟨state.credentialId, state.verifier⟩ = true)
    (hchange : change.credentialId? = some state.credentialId)
    (hfirst : ∀ credentialId, change = .created credentialId → position = 0)
    (hrotated : ∀ credentialId, change ≠ .rotated credentialId) :
    Version.Sound history position ⟨change, state.desired⟩ := by
  obtain ⟨hstate, hcredentials, hnone⟩ := TelemetryRegistration.desired_of_enabled haccess hrotation
  have hnodup : (state.desired.credentials.map (·.id)).Nodup := by
    rw [hcredentials]
    exact List.nodup_singleton _
  constructor
  case revision =>
    exact desired_revision hrevision
  case valid =>
    refine TelemetryRegistration.isValid_desired (by omega) hne hle ?_ hnodup
    rw [hcredentials, List.all_cons, List.all_nil, hcredential]
    rfl
  case nodup =>
    exact hnodup
  case first =>
    exact hfirst
  case enabled =>
    exact iff_of_true (by rw [hchange]; rfl) hstate
  case revoked =>
    exact fun hdisabled => absurd hstate hdisabled
  case own =>
    intro credentialId hcredentialId
    rw [hchange, Option.some.injEq] at hcredentialId
    rw [hcredentials]
    exact ⟨_, List.mem_singleton_self _, hcredentialId⟩
  case listed =>
    intro d hd
    rw [hcredentials, List.mem_singleton] at hd
    rw [hd]
    exact ⟨hcredential, .inl hchange⟩
  case rotation =>
    intro operation hoperation
    rw [hnone] at hoperation
    cases hoperation
  case rotated =>
    exact fun credentialId h => absurd h (hrotated credentialId)

theorem sound_of_not_enabled (hrevision : state.revision = position + 1)
    (hne : state.clientId ≠ "") (hle : state.clientId.length ≤ 100)
    (haccess : state.accessState ≠ .enabled) (hrotation : state.rotation = none)
    (hchange : ∃ deleted, change = .revoked deleted) :
    Version.Sound history position ⟨change, state.desired⟩ := by
  obtain ⟨hstate, hcredentials, hnone⟩ :=
    TelemetryRegistration.desired_of_not_enabled haccess hrotation
  obtain ⟨deleted, hrevoked⟩ := hchange
  have hnodup : (state.desired.credentials.map (·.id)).Nodup := by
    rw [hcredentials]
    exact List.nodup_nil
  constructor
  case revision =>
    exact desired_revision hrevision
  case valid =>
    refine TelemetryRegistration.isValid_desired (by omega) hne hle ?_ hnodup
    rw [hcredentials]
    rfl
  case nodup =>
    exact hnodup
  case first =>
    intro credentialId h
    rw [hrevoked] at h
    cases h
  case enabled =>
    refine iff_of_false ?_ hstate
    rw [hrevoked]
    exact Bool.false_ne_true
  case revoked =>
    exact fun _ => ⟨hcredentials, hnone⟩
  case own =>
    intro credentialId h
    rw [hrevoked] at h
    cases h
  case listed =>
    intro d hd
    rw [hcredentials] at hd
    exact absurd hd List.not_mem_nil
  case rotation =>
    intro operation hoperation
    rw [hnone] at hoperation
    cases hoperation
  case rotated =>
    intro credentialId h
    rw [hrevoked] at h
    cases h

theorem sound_of_rotation {rotation : Rotation} {before : Version}
    (hrevision : state.revision = position + 1) (hne : state.clientId ≠ "")
    (hle : state.clientId.length ≤ 100) (haccess : state.accessState = .enabled)
    (hrotation : state.rotation = some rotation)
    (hcredential : isCredential ⟨state.credentialId, state.verifier⟩ = true)
    (hprevious : isCredential ⟨rotation.previousCredentialId, rotation.previousVerifier⟩ = true)
    (hdistinct : rotation.previousCredentialId ≠ state.credentialId)
    (hid : rotation.rotationId ≠ Guid.empty) (hposition : position ≠ 0)
    (hbefore : history[position - 1]? = some before)
    (hmade : before.change.credentialId? = some rotation.previousCredentialId)
    (henabled : before.desired.state = .enabled)
    (hlisted : ⟨rotation.previousCredentialId, rotation.previousVerifier⟩ ∈
      before.desired.credentials) :
    Version.Sound history position ⟨.rotated state.credentialId, state.desired⟩ := by
  obtain ⟨hstate, hcredentials, hoperation⟩ :=
    TelemetryRegistration.desired_of_rotation haccess hrotation
  have hnodup : (state.desired.credentials.map (·.id)).Nodup := by
    rw [hcredentials, List.map_cons, List.map_cons, List.map_nil, List.nodup_cons]
    exact ⟨fun hmem => hdistinct (List.mem_singleton.mp hmem), List.nodup_singleton _⟩
  constructor
  case revision =>
    exact desired_revision hrevision
  case valid =>
    refine TelemetryRegistration.isValid_desired (by omega) hne hle ?_ hnodup
    rw [hcredentials, List.all_cons, List.all_cons, List.all_nil, hcredential, hprevious]
    rfl
  case nodup =>
    exact hnodup
  case first =>
    intro credentialId h
    cases h
  case enabled =>
    exact iff_of_true rfl hstate
  case revoked =>
    exact fun hdisabled => absurd hstate hdisabled
  case own =>
    intro credentialId h
    cases h
    rw [hcredentials]
    exact ⟨_, List.mem_cons_of_mem _ (List.mem_singleton_self _), rfl⟩
  case listed =>
    intro d hd
    rw [hcredentials, List.mem_cons, List.mem_singleton] at hd
    cases hd with
    | inl hold =>
      rw [hold]
      exact ⟨hprevious, .inr ⟨_, hoperation, rfl⟩⟩
    | inr hnew =>
      rw [hnew]
      exact ⟨hcredential, .inl rfl⟩
  case rotation =>
    intro operation h
    rw [hoperation, Option.some.injEq] at h
    rw [← h]
    refine ⟨rfl, hid, hdistinct, before, _, hposition, hbefore, hmade, henabled, hlisted, ?_, rfl⟩
    rw [hcredentials]
    exact List.mem_cons_self
  case rotated =>
    intro credentialId _
    rw [hoperation]
    rfl

end

/-! ## The requests -/

namespace Provisioning

section

variable {s : Provisioning} {id : Guid} {state state' : TelemetryRegistration}
  {credential rotationId stamp : Guid} {now : Nat}

/-- The last version of a registration that is not deleted is none that deletes it. -/
theorem RowSound.undeleted (h : s.RowSound id state) (haccess : state.accessState ≠ .deleted) :
    ∀ v, (s.versions id).getLast? = some v → v.desired.state ≠ .deleted := by
  intro v hv
  obtain ⟨change, hlast, -⟩ := h.last
  rw [List.getLast?_eq_getElem?, ← h.revision] at hv
  rw [versionAt, hv, Option.some.injEq] at hlast
  rw [hlast]
  exact fun hdeleted => haccess (TelemetryRegistration.desired_state_deleted_iff.mp hdeleted)

theorem commits_create {new : DesiredCredential} {client : RegisteredClient}
    {unconfigured : Option Guid} (h : s.Recorded) (hnew : isCredential new = true)
    (htext : new.id = guidText credential) (hnone : s.rows client.id = none)
    (hguids : s.newGuids (credential :: stamp :: unconfigured.toList) = true) :
    Commits s client.id (.created new.id) (createTelemetry client new stamp unconfigured now)
      (credential :: stamp :: unconfigured.toList) := by
  have hlength : (s.versions client.id).length = 0 := by
    rw [h.absent client.id hnone]
    rfl
  have hmem : credential ∈ credential :: stamp :: unconfigured.toList := List.mem_cons_self
  have hlt : credential < 2 ^ 128 := (not_issued_of_newGuids hguids hmem).2.1
  have hsound : Version.Sound (s.versions client.id) (s.versions client.id).length
      ⟨.created new.id, (createTelemetry client new stamp unconfigured now).desired⟩ := by
    rw [hlength]
    cases unconfigured with
    | none =>
      exact sound_of_enabled rfl client.clientId_ne client.clientId_le rfl rfl hnew rfl
        (fun _ _ => rfl) fun _ h => by cases h
    | some stamp' =>
      exact sound_of_enabled rfl client.clientId_ne client.clientId_le rfl rfl hnew rfl
        (fun _ _ => rfl) fun _ h => by cases h
  have hundeleted : ∀ v, (s.versions client.id).getLast? = some v →
      v.desired.state ≠ .deleted := by
    intro v hv
    rw [h.absent client.id hnone] at hv
    cases hv
  cases unconfigured with
  | none =>
    exact ⟨rfl, client.id_ne, client.clientId_ne, client.clientId_le, by rw [hlength]; rfl, hguids,
      List.mem_cons_of_mem _ List.mem_cons_self, hsound, hundeleted, .inl ⟨hnone, rfl⟩,
      fun _ => hlength.symm,
      fun credentialId hid => ⟨Option.some.inj hid, credential, hmem, hlt,
        (Option.some.inj hid).symm.trans htext⟩,
      fun operation hoperation => by cases hoperation⟩
  | some stamp' =>
    exact ⟨rfl, client.id_ne, client.clientId_ne, client.clientId_le, by rw [hlength]; rfl, hguids,
      List.mem_cons_of_mem _ (List.mem_cons_of_mem _ List.mem_cons_self), hsound, hundeleted,
      .inl ⟨hnone, rfl⟩, fun _ => hlength.symm,
      fun credentialId hid => ⟨Option.some.inj hid, credential, hmem, hlt,
        (Option.some.inj hid).symm.trans htext⟩,
      fun operation hoperation => by cases hoperation⟩

/-- What `Rotate` makes of a registration. -/
theorem rotate_ok {new : DesiredCredential}
    (h : state.rotate new rotationId stamp now = .ok state') :
    state.accessState = .enabled ∧ state.acknowledgedRevision = state.revision ∧
      state' = { state with
        revision := state.revision + 1
        failure := none
        attempts := 0
        nextAttemptAt := now
        concurrencyStamp := stamp
        rotation := some ⟨state.credentialId, state.verifier, rotationId⟩
        credentialId := new.id
        verifier := new.verifier
        previousCredentialExpiresAt := none } := by
  unfold TelemetryRegistration.rotate at h
  split at h
  · cases h
  · rename_i hallowed
    simp only [Bool.or_eq_true, decide_eq_true_eq, not_or, not_not] at hallowed
    exact ⟨hallowed.1.1, hallowed.1.2, (Except.ok.inj h).symm⟩

theorem enable_ok {new : DesiredCredential} (h : state.enable new stamp now = .ok state') :
    state.accessState = .disabled ∧ state.acknowledgedRevision = state.revision ∧
      state' = { state with
        revision := state.revision + 1
        failure := none
        attempts := 0
        nextAttemptAt := now
        concurrencyStamp := stamp
        accessState := .enabled
        credentialId := new.id
        verifier := new.verifier
        rotation := none
        previousCredentialExpiresAt := none } := by
  unfold TelemetryRegistration.enable at h
  split at h
  · cases h
  · rename_i hallowed
    simp only [Bool.or_eq_true, decide_eq_true_eq, not_or, not_not] at hallowed
    exact ⟨hallowed.1, hallowed.2, (Except.ok.inj h).symm⟩

theorem revoke_some {deleted : Bool} (h : state.revoke deleted stamp now = some state') :
    state.accessState ≠ .deleted ∧ state' = { state with
        revision := state.revision + 1
        failure := none
        attempts := 0
        nextAttemptAt := now
        concurrencyStamp := stamp
        accessState := TelemetryRegistration.revokeTarget deleted
        rotation := none
        previousCredentialExpiresAt := none } := by
  unfold TelemetryRegistration.revoke at h
  split at h
  · cases h
  · rename_i hallowed
    simp only [Bool.or_eq_true, decide_eq_true_eq, not_or] at hallowed
    exact ⟨hallowed.1, (Option.some.inj h).symm⟩

theorem commits_enable {new : DesiredCredential} (h : s.Recorded) (hnew : isCredential new = true)
    (htext : new.id = guidText credential) (hrow : s.rows id = some state)
    (hguids : s.newGuids [credential, stamp] = true)
    (henable : state.enable new stamp now = .ok state') :
    Commits s id (.enabled new.id) state' [credential, stamp] := by
  have hstate := h.row id state hrow
  obtain ⟨haccess, hacknowledged, rfl⟩ := enable_ok henable
  have hmem : credential ∈ [credential, stamp] := List.mem_cons_self
  constructor
  case key =>
    exact hstate.key
  case key_ne =>
    exact hstate.key_ne
  case clientId_ne =>
    exact hstate.clientId_ne
  case clientId_le =>
    exact hstate.clientId_le
  case revision =>
    exact congrArg (· + 1) hstate.revision
  case newGuids =>
    exact hguids
  case stamp =>
    exact List.mem_cons_of_mem _ (List.mem_singleton_self _)
  case sound =>
    exact sound_of_enabled (congrArg (· + 1) hstate.revision) hstate.clientId_ne
      hstate.clientId_le rfl rfl hnew rfl (fun _ h => by cases h) fun _ h => by cases h
  case undeleted =>
    exact hstate.undeleted (by rw [haccess]; decide)
  case before =>
    exact .inr ⟨state, hrow, rfl⟩
  case acknowledged =>
    intro _
    exact hacknowledged.trans hstate.revision
  case credential =>
    intro credentialId hid
    exact ⟨Option.some.inj hid, credential, hmem, (not_issued_of_newGuids hguids hmem).2.1,
      (Option.some.inj hid).symm.trans htext⟩
  case rotationId =>
    intro operation hoperation
    cases hoperation

theorem commits_revoke {deleted : Bool} (h : s.Recorded) (hrow : s.rows id = some state)
    (hguids : s.newGuids [stamp] = true)
    (hrevoke : state.revoke deleted stamp now = some state') :
    Commits s id (.revoked deleted) state' [stamp] := by
  have hstate := h.row id state hrow
  obtain ⟨haccess, rfl⟩ := revoke_some hrevoke
  have htarget : TelemetryRegistration.revokeTarget deleted ≠ .enabled := by
    cases deleted <;> decide
  constructor
  case key =>
    exact hstate.key
  case key_ne =>
    exact hstate.key_ne
  case clientId_ne =>
    exact hstate.clientId_ne
  case clientId_le =>
    exact hstate.clientId_le
  case revision =>
    exact congrArg (· + 1) hstate.revision
  case newGuids =>
    exact hguids
  case stamp =>
    exact List.mem_singleton_self _
  case sound =>
    exact sound_of_not_enabled (congrArg (· + 1) hstate.revision) hstate.clientId_ne
      hstate.clientId_le htarget rfl ⟨deleted, rfl⟩
  case undeleted =>
    exact hstate.undeleted haccess
  case before =>
    exact .inr ⟨state, hrow, rfl⟩
  case acknowledged =>
    intro hmade
    cases hmade
  case credential =>
    intro credentialId hid
    cases hid
  case rotationId =>
    intro operation hoperation
    cases hoperation

theorem commits_rotate {new : DesiredCredential} (h : s.Recorded) (hnew : isCredential new = true)
    (htext : new.id = guidText credential) (hrow : s.rows id = some state)
    (hguids : s.newGuids [credential, rotationId, stamp] = true)
    (hrotate : state.rotate new rotationId stamp now = .ok state') :
    Commits s id (.rotated new.id) state' [credential, rotationId, stamp] := by
  have hstate := h.row id state hrow
  obtain ⟨haccess, hacknowledged, heq⟩ := rotate_ok hrotate
  have hmem : credential ∈ [credential, rotationId, stamp] := List.mem_cons_self
  have hdrawn : rotationId ∈ [credential, rotationId, stamp] :=
    List.mem_cons_of_mem _ List.mem_cons_self
  have hclientId : state'.clientId = state.clientId := by rw [heq]
  have hrevision : state'.revision = (s.versions id).length + 1 := by
    rw [heq, ← hstate.revision]
  have haccess' : state'.accessState = .enabled := by
    rw [heq]
    exact haccess
  have hrotation : state'.rotation = some ⟨state.credentialId, state.verifier, rotationId⟩ := by
    rw [heq]
  have hcredentialId : state'.credentialId = new.id := by rw [heq]
  have hcredential : isCredential ⟨state'.credentialId, state'.verifier⟩ = true := by
    rw [heq]
    exact hnew
  -- the version before made the credential that is replaced
  obtain ⟨change, hlast, hmade⟩ := hstate.last
  have hbefore := h.version id _ _ hlast
  have henabled : state.desired.state = .enabled :=
    TelemetryRegistration.desired_state_enabled_iff.mpr haccess
  have hchange : change.credentialId? = some state.credentialId := by
    obtain ⟨credentialId, hid⟩ := Option.isSome_iff_exists.mp (hbefore.enabled.mpr henabled)
    rw [hmade credentialId hid]
    exact hid
  have hlisted := TelemetryRegistration.credential_mem_desired haccess
  have hposition : (s.versions id).length ≠ 0 := by
    have hpositive := hstate.positive
    rw [← hstate.revision]
    omega
  -- and the new one's Guid was not given out
  have hdistinct : state.credentialId ≠ state'.credentialId := by
    intro hsame
    obtain ⟨guid, hissued, hlt, hguidText⟩ := h.fresh.issuedCredential id _ _ _ hlast hlisted
    obtain ⟨hunissued, hltNew, -⟩ := not_issued_of_newGuids hguids hmem
    have hguid : guid = credential := guidText_injective hlt hltNew
      (hguidText.symm.trans (hsame.trans (hcredentialId.trans htext)))
    exact hunissued (hguid ▸ hissued)
  constructor
  case key =>
    rw [heq]
    exact hstate.key
  case key_ne =>
    exact hstate.key_ne
  case clientId_ne =>
    rw [hclientId]
    exact hstate.clientId_ne
  case clientId_le =>
    rw [hclientId]
    exact hstate.clientId_le
  case revision =>
    exact hrevision
  case newGuids =>
    exact hguids
  case stamp =>
    rw [heq]
    exact List.mem_cons_of_mem _ (List.mem_cons_of_mem _ (List.mem_singleton_self _))
  case sound =>
    rw [← hcredentialId]
    have hbeforeAt : (s.versions id)[(s.versions id).length - 1]? =
        some ⟨change, state.desired⟩ := by
      rw [← hstate.revision]
      exact hlast
    exact sound_of_rotation hrevision (hclientId ▸ hstate.clientId_ne)
      (hclientId ▸ hstate.clientId_le) haccess' hrotation hcredential (hbefore.listed _ hlisted).1
      hdistinct (not_issued_of_newGuids hguids hdrawn).2.2 hposition hbeforeAt hchange henabled
      hlisted
  case undeleted =>
    exact hstate.undeleted (by rw [haccess]; decide)
  case before =>
    exact .inr ⟨state, hrow, by rw [heq]⟩
  case acknowledged =>
    intro _
    rw [heq]
    exact hacknowledged.trans hstate.revision
  case credential =>
    intro credentialId hid
    have hsame : new.id = credentialId := Option.some.inj hid
    rw [← hsame]
    exact ⟨hcredentialId, credential, hmem, (not_issued_of_newGuids hguids hmem).2.1, htext⟩
  case rotationId =>
    intro operation hop
    rw [(TelemetryRegistration.desired_of_rotation haccess' hrotation).2.2] at hop
    cases hop
    exact hdrawn

end

end Provisioning

end Wallow.Telemetry
