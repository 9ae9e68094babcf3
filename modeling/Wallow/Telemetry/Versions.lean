import Wallow.Telemetry.Provisioning

/-!
# The versions of a registration

Each committed change appends one version, whose credential and rotation are new; the row stands
for the last one.  A change other than a revocation waits for its predecessor's acknowledgement, so
what is not acknowledged is one change and the revocations after it.
-/

namespace Wallow.Telemetry

open Transition

/-! ## One version -/

/-- What the version at a position of a history asks for. -/
structure Version.Sound (history : List Version) (position : Nat) (v : Version) : Prop where
  revision : v.desired.revision = position + 1
  valid : RegistrationValidation.isValid v.desired =
    RegistrationValidation.isIdentity v.desired.clientId
  nodup : (v.desired.credentials.map (·.id)).Nodup
  first : ∀ credentialId, v.change = .created credentialId → position = 0
  enabled : v.change.credentialId?.isSome ↔ v.desired.state = .enabled
  revoked : v.desired.state ≠ .enabled → v.desired.credentials = [] ∧ v.desired.rotation = none
  own : ∀ credentialId, v.change.credentialId? = some credentialId →
    ∃ d ∈ v.desired.credentials, d.id = credentialId
  listed : ∀ d ∈ v.desired.credentials, RegistrationValidation.isCredential d = true ∧
    (v.change.credentialId? = some d.id ∨ ∃ operation, v.desired.rotation = some operation ∧
      operation.previousCredentialId = d.id)
  rotation : ∀ operation, v.desired.rotation = some operation →
    v.change = .rotated operation.newCredentialId ∧ operation.operationId ≠ Guid.empty ∧
      operation.previousCredentialId ≠ operation.newCredentialId ∧
      ∃ before d, position ≠ 0 ∧ history[position - 1]? = some before ∧
        before.change.credentialId? = some operation.previousCredentialId ∧
        before.desired.state = .enabled ∧ d ∈ before.desired.credentials ∧
        d ∈ v.desired.credentials ∧ d.id = operation.previousCredentialId
  rotated : ∀ credentialId, v.change = .rotated credentialId → v.desired.rotation.isSome

theorem Version.Sound.append {history : List Version} {position : Nat} {v : Version}
    (h : v.Sound history position) (later : List Version) :
    v.Sound (history ++ later) position where
  revision := h.revision
  valid := h.valid
  nodup := h.nodup
  first := h.first
  enabled := h.enabled
  revoked := h.revoked
  own := h.own
  listed := h.listed
  rotation := by
    intro operation hoperation
    obtain ⟨hchange, hid, hne, before, d, hposition, hbefore, hrest⟩ :=
      h.rotation operation hoperation
    have hlt : position - 1 < history.length := by
      by_contra hge
      rw [List.getElem?_eq_none (Nat.le_of_not_lt hge)] at hbefore
      cases hbefore
    refine ⟨hchange, hid, hne, before, d, hposition, ?_, hrest⟩
    rw [List.getElem?_append_left hlt]
    exact hbefore
  rotated := h.rotated

/-! ## What a step commits -/

/-- A change that a request commits, as the histories see it. -/
structure Commits (s : Provisioning) (id : Guid) (change : Change) (state : TelemetryRegistration)
    (guids : List Guid) : Prop where
  key : state.id = id
  key_ne : id ≠ Guid.empty
  clientId_ne : state.clientId ≠ ""
  clientId_le : state.clientId.length ≤ 100
  revision : state.revision = (s.versions id).length + 1
  newGuids : s.newGuids guids = true
  stamp : state.concurrencyStamp ∈ guids
  sound : Version.Sound (s.versions id) (s.versions id).length ⟨change, state.desired⟩
  undeleted : ∀ v, (s.versions id).getLast? = some v → v.desired.state ≠ .deleted
  before : (s.rows id = none ∧ state.acknowledgedRevision = 0) ∨
    ∃ old, s.rows id = some old ∧ state.acknowledgedRevision = old.acknowledgedRevision
  acknowledged : change.credentialId?.isSome →
    state.acknowledgedRevision = (s.versions id).length
  credential : ∀ credentialId, change.credentialId? = some credentialId →
    state.credentialId = credentialId ∧
      ∃ guid ∈ guids, guid < 2 ^ 128 ∧ credentialId = guidText guid
  rotationId : ∀ operation, state.desired.rotation = some operation →
    operation.operationId ∈ guids

/-! ## The histories of all registrations -/

namespace Provisioning

/-- The version at a position of a registration's history. -/
def versionAt (s : Provisioning) (id : Guid) (position : Nat) : Option Version :=
  (s.versions id)[position]?

/-- A credential of a history is new with the change that makes it, and so is a rotation. -/
structure Fresh (s : Provisioning) : Prop where
  credential : ∀ id position v credentialId, s.versionAt id position = some v →
    v.change.credentialId? = some credentialId →
    ∀ id' position' v' d, s.versionAt id' position' = some v' →
      d ∈ v'.desired.credentials → d.id = credentialId → id' = id ∧ position ≤ position'
  operation : ∀ id position v operation, s.versionAt id position = some v →
    v.desired.rotation = some operation →
    ∀ id' position' v' operation', s.versionAt id' position' = some v' →
      v'.desired.rotation = some operation' →
      operation'.operationId = operation.operationId → id' = id ∧ position' = position
  issuedCredential : ∀ id position v d, s.versionAt id position = some v →
    d ∈ v.desired.credentials → ∃ guid ∈ s.issued, guid < 2 ^ 128 ∧ d.id = guidText guid
  issuedOperation : ∀ id position v operation, s.versionAt id position = some v →
    v.desired.rotation = some operation → operation.operationId ∈ s.issued

/-- The row of a registration and its history. -/
structure RowSound (s : Provisioning) (id : Guid) (state : TelemetryRegistration) : Prop where
  key : state.id = id
  key_ne : id ≠ Guid.empty
  clientId_ne : state.clientId ≠ ""
  clientId_le : state.clientId.length ≤ 100
  revision : state.revision = (s.versions id).length
  positive : 0 < state.revision
  last : ∃ change, s.versionAt id (state.revision - 1) = some ⟨change, state.desired⟩ ∧
    ∀ credentialId, change.credentialId? = some credentialId → state.credentialId = credentialId
  stamp : state.concurrencyStamp ∈ s.issued
  acknowledged : state.acknowledgedRevision ≤ state.revision
  pending : ∀ position v, s.versionAt id position = some v →
    state.acknowledgedRevision < position → v.change.credentialId? = none

structure Recorded (s : Provisioning) : Prop where
  absent : ∀ id, s.rows id = none → s.versions id = []
  row : ∀ id state, s.rows id = some state → s.RowSound id state
  version : ∀ id position v, s.versionAt id position = some v →
    v.Sound (s.versions id) position
  undeleted : ∀ id position v, s.versionAt id position = some v →
    position + 1 < (s.versions id).length → v.desired.state ≠ .deleted
  fresh : s.Fresh

/-! ## A commit -/

section

variable {s : Provisioning} {id : Guid} {change : Change} {state : TelemetryRegistration}
  {guids : List Guid}

theorem versionAt_lt {position : Nat} {v : Version} (h : s.versionAt id position = some v) :
    position < (s.versions id).length := by
  by_contra hge
  rw [versionAt, List.getElem?_eq_none (Nat.le_of_not_lt hge)] at h
  cases h

theorem commit_versionAt (s : Provisioning) (id : Guid) (change : Change)
    (state : TelemetryRegistration) (guids : List Guid) (id' : Guid) (position : Nat) :
    (s.commit id change state guids).versionAt id' position =
      if id' = id ∧ position = (s.versions id).length then some ⟨change, state.desired⟩
      else s.versionAt id' position := by
  unfold versionAt commit
  by_cases hid : id' = id
  · subst hid
    simp only [Function.update_self, true_and]
    by_cases hposition : position = (s.versions id').length
    · rw [if_pos hposition, hposition, List.getElem?_append_right (Nat.le_refl _), Nat.sub_self]
      rfl
    · rw [if_neg hposition]
      by_cases hlt : position < (s.versions id').length
      · exact List.getElem?_append_left hlt
      · have hend :
            (s.versions id' ++ [(⟨change, state.desired⟩ : Version)]).length ≤ position := by
          rw [List.length_append, List.length_singleton]
          omega
        rw [List.getElem?_eq_none hend, List.getElem?_eq_none (Nat.le_of_not_lt hlt)]
  · simp only [Function.update_of_ne hid, hid, false_and, if_false]

/-- A version after a commit was there before, or is the one committed. -/
theorem versionAt_of_commit {id' : Guid} {position : Nat} {v : Version}
    (h : (s.commit id change state guids).versionAt id' position = some v) :
    s.versionAt id' position = some v ∨
      (id' = id ∧ position = (s.versions id).length ∧ v = ⟨change, state.desired⟩) := by
  rw [commit_versionAt] at h
  split at h
  · rename_i hnew
    exact .inr ⟨hnew.1, hnew.2, (Option.some.inj h).symm⟩
  · exact .inl h

theorem commit_versionAt_of_old {id' : Guid} {position : Nat} {v : Version}
    (h : s.versionAt id' position = some v) :
    (s.commit id change state guids).versionAt id' position = some v := by
  rw [commit_versionAt, if_neg]
  · exact h
  · intro hnew
    have hlt := versionAt_lt h
    rw [hnew.1, hnew.2] at hlt
    exact Nat.lt_irrefl _ hlt

theorem commit_versionAt_new :
    (s.commit id change state guids).versionAt id (s.versions id).length =
      some ⟨change, state.desired⟩ := by
  rw [commit_versionAt, if_pos ⟨rfl, rfl⟩]

/-- A Guid that is drawn was not given out before. -/
theorem not_issued_of_newGuids (h : s.newGuids guids = true) {guid : Guid} (hmem : guid ∈ guids) :
    guid ∉ s.issued ∧ guid < 2 ^ 128 ∧ guid ≠ Guid.empty := by
  simp only [newGuids, Bool.and_eq_true, List.all_eq_true, decide_eq_true_eq,
    Bool.not_eq_true', List.contains_eq_mem, decide_eq_false_iff_not] at h
  have hguid := h.2 guid hmem
  exact ⟨hguid.2, hguid.1.2, hguid.1.1⟩

theorem Fresh.commit (h : s.Fresh) (hv : ∀ id position v, s.versionAt id position = some v →
    v.Sound (s.versions id) position) (hc : Commits s id change state guids) :
    (s.commit id change state guids).Fresh := by
  -- a credential made by this change is listed in no earlier version
  have hnew : ∀ credentialId, change.credentialId? = some credentialId →
      ∀ id' position' v' d, s.versionAt id' position' = some v' → d ∈ v'.desired.credentials →
        d.id ≠ credentialId := by
    intro credentialId hchange id' position' v' d hv' hd hid
    obtain ⟨-, guid, hguid, hlt, htext⟩ := hc.credential credentialId hchange
    obtain ⟨guid', hguid', hlt', htext'⟩ := h.issuedCredential id' position' v' d hv' hd
    have hsame : guid' = guid := guidText_injective hlt' hlt (by rw [← htext', hid, htext])
    exact (not_issued_of_newGuids hc.newGuids hguid).1 (hsame ▸ hguid')
  have hnewOperation : ∀ operation, state.desired.rotation = some operation →
      ∀ id' position' v' operation', s.versionAt id' position' = some v' →
        v'.desired.rotation = some operation' →
        operation'.operationId ≠ operation.operationId := by
    intro operation hoperation id' position' v' operation' hv' hoperation' hsame
    have hissued := h.issuedOperation id' position' v' operation' hv' hoperation'
    rw [hsame] at hissued
    exact (not_issued_of_newGuids hc.newGuids (hc.rotationId operation hoperation)).1 hissued
  constructor
  case credential =>
    intro id₁ position₁ v₁ credentialId hv₁ hchange id₂ position₂ v₂ d hv₂ hd hid
    cases versionAt_of_commit hv₁ with
    | inl hold₁ =>
      cases versionAt_of_commit hv₂ with
      | inl hold₂ =>
        exact
          h.credential id₁ position₁ v₁ credentialId hold₁ hchange id₂ position₂ v₂ d hold₂ hd hid
      | inr hlast =>
        -- the committed version lists its own credential, or the one that it replaces
        obtain ⟨hid₂, hposition₂, hversion₂⟩ := hlast
        rw [hversion₂] at hd
        cases (hc.sound.listed d hd).2 with
        | inl hown =>
          obtain ⟨d', hd', hid'⟩ := (hv id₁ position₁ v₁ hold₁).own credentialId hchange
          exact absurd (hid'.trans hid.symm) (hnew d.id hown id₁ position₁ v₁ d' hold₁ hd')
        | inr hprevious =>
          obtain ⟨operation, hoperation, hreplaced⟩ := hprevious
          obtain ⟨-, -, -, before, d', -, hbefore, -, -, hlisted, -, hd'⟩ :=
            hc.sound.rotation operation hoperation
          have hbeforeAt : s.versionAt id ((s.versions id).length - 1) = some before := hbefore
          have hfound := h.credential id₁ position₁ v₁ credentialId hold₁ hchange id _ before d'
            hbeforeAt hlisted (hd'.trans (hreplaced.trans hid))
          exact ⟨hid₂.trans hfound.1, by omega⟩
    | inr hlast =>
      obtain ⟨hid₁, hposition₁, hversion₁⟩ := hlast
      rw [hversion₁] at hchange
      cases versionAt_of_commit hv₂ with
      | inl hold₂ => exact absurd hid (hnew credentialId hchange id₂ position₂ v₂ d hold₂ hd)
      | inr hlast₂ => exact ⟨hlast₂.1.trans hid₁.symm, by omega⟩
  case operation =>
    intro id₁ position₁ v₁ operation₁ hv₁ hop₁ id₂ position₂ v₂ operation₂ hv₂ hop₂ hsame
    cases versionAt_of_commit hv₁ with
    | inl hold₁ =>
      cases versionAt_of_commit hv₂ with
      | inl hold₂ =>
        exact h.operation id₁ position₁ v₁ operation₁ hold₁ hop₁ id₂ position₂ v₂ operation₂ hold₂
          hop₂ hsame
      | inr hlast =>
        rw [hlast.2.2] at hop₂
        exact absurd hsame.symm
          (hnewOperation operation₂ hop₂ id₁ position₁ v₁ operation₁ hold₁ hop₁)
    | inr hlast =>
      rw [hlast.2.2] at hop₁
      cases versionAt_of_commit hv₂ with
      | inl hold₂ =>
        exact absurd hsame (hnewOperation operation₁ hop₁ id₂ position₂ v₂ operation₂ hold₂ hop₂)
      | inr hlast₂ => exact ⟨hlast₂.1.trans hlast.1.symm, hlast₂.2.1.trans hlast.2.1.symm⟩
  case issuedCredential =>
    intro id₁ position₁ v₁ d hv₁ hd
    cases versionAt_of_commit hv₁ with
    | inl hold =>
      obtain ⟨guid, hguid, hrest⟩ := h.issuedCredential id₁ position₁ v₁ d hold hd
      exact ⟨guid, List.mem_append_right _ hguid, hrest⟩
    | inr hlast =>
      rw [hlast.2.2] at hd
      cases (hc.sound.listed d hd).2 with
      | inl hown =>
        obtain ⟨-, guid, hguid, hlt, htext⟩ := hc.credential d.id hown
        exact ⟨guid, List.mem_append_left _ hguid, hlt, htext⟩
      | inr hprevious =>
        obtain ⟨operation, hoperation, hreplaced⟩ := hprevious
        obtain ⟨-, -, -, before, d', -, hbefore, -, -, hlisted, -, hd'⟩ :=
          hc.sound.rotation operation hoperation
        obtain ⟨guid, hguid, hlt, htext⟩ :=
          h.issuedCredential id ((s.versions id).length - 1) before d' hbefore hlisted
        exact ⟨guid, List.mem_append_right _ hguid, hlt, by rw [← hreplaced, ← hd', htext]⟩
  case issuedOperation =>
    intro id₁ position₁ v₁ operation hv₁ hoperation
    cases versionAt_of_commit hv₁ with
    | inl hold =>
      exact List.mem_append_right _ (h.issuedOperation id₁ position₁ v₁ operation hold hoperation)
    | inr hlast =>
      rw [hlast.2.2] at hoperation
      exact List.mem_append_left _ (hc.rotationId operation hoperation)

theorem RowSound.mono {s' : Provisioning} (h : s.RowSound id state)
    (hversions : s'.versions id = s.versions id) (hissued : ∀ guid ∈ s.issued, guid ∈ s'.issued) :
    s'.RowSound id state := by
  have hat : ∀ position, s'.versionAt id position = s.versionAt id position := by
    intro position
    rw [versionAt, hversions, versionAt]
  refine ⟨h.key, h.key_ne, h.clientId_ne, h.clientId_le, ?_, h.positive, ?_, hissued _ h.stamp,
    h.acknowledged, ?_⟩
  · rw [hversions]
    exact h.revision
  · rw [hat]
    exact h.last
  · intro position v hv
    rw [hat] at hv
    exact h.pending position v hv

theorem commit_versions_of_ne {id' : Guid} (hne : id' ≠ id) :
    (s.commit id change state guids).versions id' = s.versions id' :=
  Function.update_of_ne hne ..

theorem commit_versions_self : (s.commit id change state guids).versions id =
    s.versions id ++ [⟨change, state.desired⟩] :=
  Function.update_self ..

theorem RowSound.commit (h : s.Recorded) (hc : Commits s id change state guids) :
    (s.commit id change state guids).RowSound id state := by
  have hlength : ((s.commit id change state guids).versions id).length =
      (s.versions id).length + 1 := by
    rw [commit_versions_self, List.length_append, List.length_singleton]
  constructor
  case key =>
    exact hc.key
  case key_ne =>
    exact hc.key_ne
  case clientId_ne =>
    exact hc.clientId_ne
  case clientId_le =>
    exact hc.clientId_le
  case revision =>
    rw [hlength]
    exact hc.revision
  case positive =>
    rw [hc.revision]
    exact Nat.succ_pos _
  case last =>
    refine ⟨change, ?_, fun credentialId hchange => (hc.credential credentialId hchange).1⟩
    rw [hc.revision, Nat.add_sub_cancel]
    exact commit_versionAt_new
  case stamp =>
    exact List.mem_append_left _ hc.stamp
  case acknowledged =>
    rw [hc.revision]
    cases hc.before with
    | inl hnew =>
      rw [hnew.2]
      exact Nat.zero_le _
    | inr hchanged =>
      obtain ⟨old, hold, hacknowledged⟩ := hchanged
      have hrow := h.row id old hold
      have hle := hrow.acknowledged
      have hrevision := hrow.revision
      omega
  case pending =>
    intro position v hv hlt
    cases versionAt_of_commit hv with
    | inr hlast =>
      -- a change that makes a credential has waited for the acknowledgement before it
      rw [hlast.2.2]
      cases hcredential : change.credentialId? with
      | none => rfl
      | some credentialId =>
        have hwaited := hc.acknowledged (by rw [hcredential]; rfl)
        omega
    | inl hold =>
      cases hc.before with
      | inl hnew =>
        have hposition := versionAt_lt hold
        rw [h.absent id hnew.1] at hposition
        exact absurd hposition (Nat.not_lt_zero _)
      | inr hchanged =>
        obtain ⟨old, hrow, hacknowledged⟩ := hchanged
        exact (h.row id old hrow).pending position v hold (hacknowledged ▸ hlt)

theorem Recorded.commit (h : s.Recorded) (hc : Commits s id change state guids) :
    (s.commit id change state guids).Recorded := by
  constructor
  case absent =>
    intro id' hnone
    by_cases hid : id' = id
    · rw [hid] at hnone
      exact absurd hnone (by simp [Provisioning.commit])
    · rw [commit_versions_of_ne hid]
      exact h.absent id' (by rw [← hnone]; exact (Function.update_of_ne hid ..).symm)
  case row =>
    intro id' state' hstate'
    by_cases hid : id' = id
    · rw [hid] at hstate' ⊢
      have hsame : state' = state := by
        have hrow : (s.commit id change state guids).rows id = some state :=
          Function.update_self ..
        exact Option.some.inj (hstate'.symm.trans hrow)
      rw [hsame]
      exact RowSound.commit h hc
    · have hold : s.rows id' = some state' := by
        rw [← hstate']
        exact (Function.update_of_ne hid ..).symm
      exact (h.row id' state' hold).mono (commit_versions_of_ne hid)
        fun guid hguid => List.mem_append_right _ hguid
  case version =>
    intro id' position v hv
    cases versionAt_of_commit hv with
    | inl hold =>
      by_cases hid : id' = id
      · rw [hid] at hold ⊢
        rw [commit_versions_self]
        exact (h.version id position v hold).append _
      · rw [commit_versions_of_ne hid]
        exact h.version id' position v hold
    | inr hlast =>
      rw [hlast.1, hlast.2.1, hlast.2.2, commit_versions_self]
      exact hc.sound.append _
  case undeleted =>
    intro id' position v hv hlt
    by_cases hid : id' = id
    · rw [hid, commit_versions_self, List.length_append, List.length_singleton] at hlt
      cases versionAt_of_commit hv with
      | inr hlast => omega
      | inl hold =>
        rw [hid] at hold
        by_cases hend : position + 1 = (s.versions id).length
        · refine hc.undeleted v ?_
          rw [List.getLast?_eq_getElem?, ← hend, Nat.add_sub_cancel]
          exact hold
        · exact h.undeleted id position v hold (by omega)
    · rw [commit_versions_of_ne hid] at hlt
      cases versionAt_of_commit hv with
      | inr hlast => exact absurd hlast.1 hid
      | inl hold => exact h.undeleted id' position v hold hlt
  case fresh =>
    exact h.fresh.commit h.version hc

end

end Provisioning

end Wallow.Telemetry
