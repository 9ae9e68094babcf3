import Wallow.Telemetry.Reconciling

/-!
# What every history of provisioning keeps

Three invariants, each kept by every effect of a step: the rows and their histories are recorded,
the runs hold copies that are current or overtaken, and the registry holds nothing but what some
version asked for.
-/

namespace Wallow.Telemetry

open Transition Growth

namespace Provisioning

/-! ## What the gateway has reached -/

/-- The gateway stores the version at `position` of a registration's history, or a later one. -/
def Applied (registry : RegistryDb) (id : Guid) (position : Nat) : Prop :=
  ∃ e, registry.registrations id = some e ∧ (position : Int) < e.revision

theorem Applied.put {registry saved : RegistryDb} {request : PutRequest}
    {answer : RegistrationAcknowledgement} {id : Guid} {position : Nat}
    (h : Applied registry id position) (hput : put registry request = .ok (answer, saved)) :
    Applied saved id position := by
  obtain ⟨e, he, hlt⟩ := h
  cases put_ok hput with
  | inl hreplay =>
    obtain ⟨-, -, -, -, hsame⟩ := hreplay
    rw [hsame]
    exact ⟨e, he, hlt⟩
  | inr hnew =>
    obtain ⟨desired, hchanged⟩ := hnew
    by_cases hid : id = request.registrationId
    · have hnewer := (hchanged.newer e (hid ▸ he)).1
      refine ⟨⟨desired.revision, desired, answer⟩, ?_, Int.lt_trans hlt hnewer⟩
      rw [hchanged.registrations, hid]
      exact Function.update_self ..
    · refine ⟨e, ?_, hlt⟩
      rw [hchanged.registrations, Function.update_of_ne hid]
      exact he

/-! ## The runs -/

/-- A registration as some run has read it. -/
structure Copied (s : Provisioning) (state : TelemetryRegistration) : Prop where
  known : ∃ change, s.versionAt state.id (state.revision - 1) = some ⟨change, state.desired⟩
  stamp : state.concurrencyStamp ∈ s.issued
  current : ∀ row, s.rows state.id = some row →
    row.concurrencyStamp = state.concurrencyStamp → row = state

/-- What a run is about to save of its copy. -/
structure Pending (s : Provisioning) (original current : TelemetryRegistration) : Prop where
  same : Bookkeeping original current
  stamp : current.concurrencyStamp ∈ s.issued
  unsaved : ∀ id row, s.rows id = some row → row.concurrencyStamp ≠ current.concurrencyStamp
  acknowledged : current.acknowledgedRevision = original.acknowledgedRevision ∨
    (current.acknowledgedRevision = original.revision ∧
      ∀ position, position < original.revision → Applied s.registry original.id position)

structure RunsSound (s : Provisioning) : Prop where
  copy : ∀ run state, (s.runs run).copy? = some state → s.Copied state
  pending : ∀ run original current, s.runs run = .saving original current →
    s.Pending original current
  unread : ∀ run original current, s.runs run = .saving original current →
    ∀ run' state, (s.runs run').copy? = some state →
      state.concurrencyStamp ≠ current.concurrencyStamp
  distinct : ∀ run original current, s.runs run = .saving original current →
    ∀ run' original' current', s.runs run' = .saving original' current' →
      current'.concurrencyStamp = current.concurrencyStamp → run' = run
  sent : ∀ message ∈ s.sent, ∃ position v, s.versionAt message.1 position = some v ∧
    v.desired = message.2
  answers : ∀ answer ∈ s.answers, ∀ position : Nat, (position : Int) < answer.revision →
    Applied s.registry answer.registrationId position
  acknowledged : ∀ id row, s.rows id = some row → ∀ position,
    position < row.acknowledgedRevision → Applied s.registry id position

/-! ## The registry -/

/-- Each row of the registry comes from a version that the gateway has reached, and what is live is
what the stored version lists. -/
structure RegistrySound (s : Provisioning) : Prop where
  stored : ∀ id e, s.registry.registrations id = some e →
    (∃ position v, s.versionAt id position = some v ∧ v.desired = e.desired ∧
      e.revision = position + 1) ∧
    e.acknowledgement.registrationId = id ∧ e.acknowledgement.revision = e.revision
  credential : ∀ credentialId c, s.registry.credentials credentialId = some c →
    ∃ position v d, s.versionAt c.registrationId position = some v ∧
      d ∈ v.desired.credentials ∧ d.id = credentialId ∧
      Applied s.registry c.registrationId position
  rotation : ∀ operationId entry, s.registry.rotations operationId = some entry →
    ∃ position v, s.versionAt entry.registrationId position = some v ∧
      v.desired.rotation = some
        ⟨operationId, entry.previousCredentialId, entry.newCredentialId⟩ ∧
      Applied s.registry entry.registrationId position
  live : ∀ id e, s.registry.registrations id = some e → e.desired.state = .enabled →
    ∀ d ∈ e.desired.credentials, ∃ c, s.registry.credentials d.id = some c ∧
      c.registrationId = id ∧ c.revoked = false ∧ sameVerifier c.verifier d.verifier = true
  listed : ∀ credentialId c, s.registry.credentials credentialId = some c → c.revoked = false →
    ∃ e, s.registry.registrations c.registrationId = some e ∧ e.desired.state = .enabled ∧
      ∃ d ∈ e.desired.credentials, d.id = credentialId
  expiring : ∀ credentialId c, s.registry.credentials credentialId = some c →
    c.expiresAt.isSome → ∃ position v operation,
      s.versionAt c.registrationId position = some v ∧ v.desired.rotation = some operation ∧
      operation.previousCredentialId = credentialId ∧
      Applied s.registry c.registrationId position

/-- The invariant of provisioning. -/
structure Sound (s : Provisioning) : Prop where
  recorded : s.Recorded
  runs : s.RunsSound
  registry : s.RegistrySound

theorem sound_initial : initial.Sound := by
  refine ⟨?_, ?_, ?_⟩
  · refine ⟨fun _ _ => rfl, ?_, ?_, ?_, ?_⟩
    · intro id state h
      cases h
    · intro id position v h
      cases h
    · intro id position v h
      cases h
    · constructor
      · intro id position v credentialId h
        cases h
      · intro id position v operation h
        cases h
      · intro id position v d h
        cases h
      · intro id position v operation h
        cases h
  · constructor
    · intro run state h
      cases h
    · intro run original current h
      cases h
    · intro run original current h
      cases h
    · intro run original current h
      cases h
    · intro message h
      cases h
    · intro answer h
      cases h
    · intro id row h
      cases h
  · constructor
    · intro id e h
      cases h
    · intro credentialId c h
      cases h
    · intro operationId entry h
      cases h
    · intro id e h
      cases h
    · intro credentialId c h
      cases h
    · intro credentialId c h
      cases h

/-! ## The registry, step by step -/

section

variable {s s' : Provisioning}

/-- The registry stays sound as long as the histories only grow. -/
theorem RegistrySound.mono (h : s.RegistrySound) (hregistry : s'.registry = s.registry)
    (hat : ∀ id position v, s.versionAt id position = some v →
      s'.versionAt id position = some v) : s'.RegistrySound := by
  constructor
  case stored =>
    intro id e he
    rw [hregistry] at he
    obtain ⟨⟨position, v, hv, hrest⟩, hacknowledgement⟩ := h.stored id e he
    exact ⟨⟨position, v, hat _ _ _ hv, hrest⟩, hacknowledgement⟩
  case credential =>
    intro credentialId c hc
    rw [hregistry] at hc ⊢
    obtain ⟨position, v, d, hv, hrest⟩ := h.credential credentialId c hc
    exact ⟨position, v, d, hat _ _ _ hv, hrest⟩
  case rotation =>
    intro operationId entry hentry
    rw [hregistry] at hentry ⊢
    obtain ⟨position, v, hv, hrest⟩ := h.rotation operationId entry hentry
    exact ⟨position, v, hat _ _ _ hv, hrest⟩
  case live =>
    rw [hregistry]
    exact h.live
  case listed =>
    rw [hregistry]
    exact h.listed
  case expiring =>
    intro credentialId c hc hexpires
    rw [hregistry] at hc ⊢
    obtain ⟨position, v, operation, hv, hrest⟩ := h.expiring credentialId c hc hexpires
    exact ⟨position, v, operation, hat _ _ _ hv, hrest⟩

/-- A delivered version that the gateway settles. -/
theorem RegistrySound.settle {id : Guid} {body : DesiredRegistration}
    {now ackNow position : Nat} {v : Version} {answer : RegistrationAcknowledgement}
    {saved : RegistryDb} (h : s.RegistrySound) (hs : s.Recorded)
    (hv : s.versionAt id position = some v) (hbody : v.desired = body)
    (hput : put s.registry ⟨id, some body, now, ackNow⟩ = .ok (answer, saved))
    (hchanged : Changed s.registry ⟨id, some body, now, ackNow⟩ body answer saved)
    (hsettled : Settled id body s.registry saved)
    (hanswer : answer.registrationId = id ∧ answer.revision = body.revision) :
    { s with registry := saved, answers := answer :: s.answers }.RegistrySound := by
  have hrevision : body.revision = position + 1 := by
    rw [← hbody]
    exact (hs.version id position v hv).revision
  have hself : saved.registrations id = some ⟨body.revision, body, answer⟩ := by
    rw [hchanged.registrations]
    exact Function.update_self ..
  have hother : ∀ id', id' ≠ id → saved.registrations id' = s.registry.registrations id' := by
    intro id' hne
    rw [hchanged.registrations]
    exact Function.update_of_ne hne ..
  have hreached : Applied saved id position := by
    refine ⟨_, hself, ?_⟩
    show (position : Int) < body.revision
    rw [hrevision]
    exact Int.lt_succ _
  constructor
  case stored =>
    intro id' e he
    by_cases hid : id' = id
    · rw [hid] at he ⊢
      rw [hself, Option.some.injEq] at he
      rw [← he]
      exact ⟨⟨position, v, hv, hbody, hrevision⟩, hanswer⟩
    · rw [hother id' hid] at he
      exact h.stored id' e he
  case credential =>
    intro credentialId c hc
    cases hsettled.known credentialId c hc with
    | inl hold =>
      obtain ⟨before, hbefore, hregistration⟩ := hold
      obtain ⟨position', v', d, hv', hd, hid, happlied⟩ := h.credential credentialId before hbefore
      rw [hregistration] at hv' happlied
      exact ⟨position', v', d, hv', hd, hid, happlied.put hput⟩
    | inr hnew =>
      obtain ⟨hregistration, d, hd, hid⟩ := hnew
      rw [hregistration]
      exact ⟨position, v, d, hv, hbody.symm ▸ hd, hid, hreached⟩
  case rotation =>
    intro operationId entry hentry
    cases hsettled.rotations operationId entry hentry with
    | inl hold =>
      obtain ⟨position', v', hv', hrotation, happlied⟩ := h.rotation operationId entry hold
      exact ⟨position', v', hv', hrotation, happlied.put hput⟩
    | inr hnew =>
      rw [hnew.1]
      exact ⟨position, v, hv, hbody.symm ▸ hnew.2, hreached⟩
  case live =>
    intro id' e he henabled d hd
    by_cases hid : id' = id
    · rw [hid] at he ⊢
      rw [hself, Option.some.injEq] at he
      rw [← he] at henabled hd
      exact hsettled.listed henabled d hd
    · rw [hother id' hid] at he
      obtain ⟨c, hc, hregistration, hlive⟩ := h.live id' e he henabled d hd
      obtain ⟨c', hc', hextends⟩ := hchanged.credentials d.id c hc
      -- another registration's row is as it was
      have hne : c'.registrationId ≠ id := by
        rw [hextends.registrationId, hregistration]
        exact hid
      have hsame : c = c' := Option.some.inj (hc.symm.trans (hsettled.other d.id c' hc' hne))
      rw [← hsame] at hc'
      exact ⟨c, hc', hregistration, hlive⟩
  case listed =>
    intro credentialId c hc hlive
    by_cases hid : c.registrationId = id
    · obtain ⟨henabled, hlisted⟩ := hsettled.live credentialId c hc hid hlive
      rw [hid]
      exact ⟨_, hself, henabled, hlisted⟩
    · obtain ⟨e, he, hrest⟩ := h.listed credentialId c (hsettled.other credentialId c hc hid) hlive
      exact ⟨e, by rw [hother c.registrationId hid]; exact he, hrest⟩
  case expiring =>
    intro credentialId c hc hexpires
    cases hsettled.expiring credentialId c hc hexpires with
    | inl hold =>
      obtain ⟨before, hbefore, hregistration, hends⟩ := hold
      obtain ⟨position', v', operation, hv', hrotation, hid, happlied⟩ :=
        h.expiring credentialId before hbefore hends
      rw [hregistration] at hv' happlied
      exact ⟨position', v', operation, hv', hrotation, hid, happlied.put hput⟩
    | inr hnew =>
      obtain ⟨hregistration, operation, hrotation, hid⟩ := hnew
      rw [hregistration]
      exact ⟨position, v, operation, hv, hbody.symm ▸ hrotation, hid, hreached⟩

theorem RegistrySound.deliver {id : Guid} {body : DesiredRegistration} {now ackNow : Nat}
    {answer : RegistrationAcknowledgement} {saved : RegistryDb} (h : s.Sound)
    (hsent : (id, body) ∈ s.sent)
    (hput : put s.registry ⟨id, some body, now, ackNow⟩ = .ok (answer, saved)) :
    { s with registry := saved, answers := answer :: s.answers }.RegistrySound := by
  cases put_settled hput with
  | inl hreplay =>
    obtain ⟨-, -, -, -, hsame⟩ := hreplay
    exact h.registry.mono hsame fun _ _ _ hv => hv
  | inr hnew =>
    obtain ⟨desired, hchanged, hsettled, hanswer⟩ := hnew
    have hdesired : body = desired := Option.some.inj hchanged.body
    rw [← hdesired] at hchanged hsettled hanswer
    obtain ⟨position, v, hv, hbody⟩ := h.runs.sent (id, body) hsent
    exact h.registry.settle h.recorded hv hbody hput hchanged hsettled hanswer

end

/-! ## The rows, step by step -/

section

variable {s s' : Provisioning}

theorem Recorded.mono (h : s.Recorded) (hrows : s'.rows = s.rows)
    (hversions : s'.versions = s.versions) (hissued : ∀ guid ∈ s.issued, guid ∈ s'.issued) :
    s'.Recorded := by
  have hat : ∀ id position, s'.versionAt id position = s.versionAt id position := by
    intro id position
    rw [versionAt, hversions, versionAt]
  constructor
  case absent =>
    rw [hrows, hversions]
    exact h.absent
  case row =>
    intro id state hstate
    rw [hrows] at hstate
    exact (h.row id state hstate).mono (by rw [hversions]) hissued
  case version =>
    intro id position v hv
    rw [hat] at hv
    rw [hversions]
    exact h.version id position v hv
  case undeleted =>
    intro id position v hv
    rw [hat] at hv
    rw [hversions]
    exact h.undeleted id position v hv
  case fresh =>
    constructor
    · intro id position v credentialId hv hchange id' position' v' d hv'
      rw [hat] at hv hv'
      exact h.fresh.credential id position v credentialId hv hchange id' position' v' d hv'
    · intro id position v operation hv hoperation id' position' v' operation' hv'
      rw [hat] at hv hv'
      exact h.fresh.operation id position v operation hv hoperation id' position' v' operation' hv'
    · intro id position v d hv hd
      rw [hat] at hv
      obtain ⟨guid, hguid, hrest⟩ := h.fresh.issuedCredential id position v d hv hd
      exact ⟨guid, hissued guid hguid, hrest⟩
    · intro id position v operation hv hoperation
      rw [hat] at hv
      exact hissued _ (h.fresh.issuedOperation id position v operation hv hoperation)

/-- A run saves over the row that it has read. -/
theorem Sound.row_of_stamp {run : Nat} {original current state : TelemetryRegistration}
    (h : s.Sound) (hsaving : s.runs run = .saving original current)
    (hrow : s.rows original.id = some state)
    (hstamp : state.concurrencyStamp = original.concurrencyStamp) : state = original :=
  (h.runs.copy run original (by rw [hsaving]; rfl)).current state hrow hstamp

theorem Recorded.save {run : Nat} {original current state : TelemetryRegistration} (h : s.Sound)
    (hsaving : s.runs run = .saving original current) (hrow : s.rows original.id = some state)
    (hstamp : state.concurrencyStamp = original.concurrencyStamp) :
    { s.setRun run .idle with
      rows := Function.update s.rows original.id (some current) }.Recorded := by
  have hsame := h.row_of_stamp hsaving hrow hstamp
  rw [hsame] at hrow
  have hold := h.recorded.row original.id original hrow
  have hpending := h.runs.pending run original current hsaving
  have hbook := hpending.same
  have hcurrent : s.RowSound original.id current := by
    constructor
    case key =>
      exact hbook.id
    case key_ne =>
      exact hold.key_ne
    case clientId_ne =>
      rw [hbook.clientId]
      exact hold.clientId_ne
    case clientId_le =>
      rw [hbook.clientId]
      exact hold.clientId_le
    case revision =>
      rw [hbook.revision]
      exact hold.revision
    case positive =>
      rw [hbook.revision]
      exact hold.positive
    case last =>
      rw [hbook.revision, hbook.desired, hbook.credentialId]
      exact hold.last
    case stamp =>
      exact hpending.stamp
    case acknowledged =>
      rw [hbook.revision]
      cases hpending.acknowledged with
      | inl hkept =>
        rw [hkept]
        exact hold.acknowledged
      | inr hlearnt => exact Nat.le_of_eq hlearnt.1
    case pending =>
      intro position v hv hlt
      cases hpending.acknowledged with
      | inl hkept => exact hold.pending position v hv (hkept ▸ hlt)
      | inr hlearnt =>
        have hposition := versionAt_lt hv
        rw [← hold.revision, ← hlearnt.1] at hposition
        omega
  constructor
  case absent =>
    intro id hnone
    by_cases hid : id = original.id
    · rw [hid] at hnone
      exact absurd hnone (by simp)
    · exact h.recorded.absent id (by rw [← hnone]; exact (Function.update_of_ne hid ..).symm)
  case row =>
    intro id state' hstate'
    by_cases hid : id = original.id
    · rw [hid] at hstate' ⊢
      have hnew : state' = current := by
        have hself : Function.update s.rows original.id (some current) original.id =
          some current := Function.update_self ..
        exact Option.some.inj (hstate'.symm.trans hself)
      rw [hnew]
      exact hcurrent.mono rfl fun _ hguid => hguid
    · have hbefore : s.rows id = some state' := by
        rw [← hstate']
        exact (Function.update_of_ne hid ..).symm
      exact (h.recorded.row id state' hbefore).mono rfl fun _ hguid => hguid
  case version =>
    exact h.recorded.version
  case undeleted =>
    exact h.recorded.undeleted
  case fresh =>
    exact ⟨h.recorded.fresh.credential, h.recorded.fresh.operation,
      h.recorded.fresh.issuedCredential, h.recorded.fresh.issuedOperation⟩

end

/-! ## The runs, step by step -/

section

variable {s s' : Provisioning} {state : TelemetryRegistration}

theorem Copied.mono (h : s.Copied state)
    (hat : ∀ id position v, s.versionAt id position = some v →
      s'.versionAt id position = some v)
    (hissued : ∀ guid ∈ s.issued, guid ∈ s'.issued)
    (hrows : ∀ row, s'.rows state.id = some row →
      row.concurrencyStamp = state.concurrencyStamp → s.rows state.id = some row) :
    s'.Copied state := by
  constructor
  · obtain ⟨change, hchange⟩ := h.known
    exact ⟨change, hat _ _ _ hchange⟩
  · exact hissued _ h.stamp
  · exact fun row hrow hstamp => h.current row (hrows row hrow hstamp) hstamp

/-- A row that is read is a copy. -/
theorem copied_of_row {id : Guid} (h : s.Recorded) (hrow : s.rows id = some state) :
    s.Copied state := by
  have hstate := h.row id state hrow
  constructor
  · obtain ⟨change, hlast, -⟩ := hstate.last
    rw [hstate.key]
    exact ⟨change, hlast⟩
  · exact hstate.stamp
  · intro row hother _
    rw [hstate.key, hrow] at hother
    exact (Option.some.inj hother).symm

theorem RunsSound.commit {id : Guid} {change : Change} {guids : List Guid} (h : s.Sound)
    (hc : Commits s id change state guids) : (s.commit id change state guids).RunsSound := by
  have hfresh : ∀ guid ∈ s.issued, state.concurrencyStamp ≠ guid := by
    intro guid hguid hsame
    exact (not_issued_of_newGuids hc.newGuids hc.stamp).1 (hsame ▸ hguid)
  have hself : (s.commit id change state guids).rows id = some state := Function.update_self ..
  have hother : ∀ id', id' ≠ id → (s.commit id change state guids).rows id' = s.rows id' :=
    fun id' hne => Function.update_of_ne hne ..
  have hissued : ∀ guid ∈ s.issued, guid ∈ (s.commit id change state guids).issued :=
    fun guid hguid => List.mem_append_right _ hguid
  constructor
  case copy =>
    intro run copy hcopy
    have hcopied := h.runs.copy run copy hcopy
    refine hcopied.mono (fun _ _ _ => commit_versionAt_of_old) hissued ?_
    intro row hrow hstamp
    by_cases hid : copy.id = id
    · rw [hid, hself, Option.some.injEq] at hrow
      rw [← hrow] at hstamp
      exact absurd hstamp (hfresh _ hcopied.stamp)
    · rw [hother copy.id hid] at hrow
      exact hrow
  case pending =>
    intro run original current hsaving
    have hpending := h.runs.pending run original current hsaving
    refine ⟨hpending.same, hissued _ hpending.stamp, ?_, hpending.acknowledged⟩
    intro id' row hrow
    by_cases hid : id' = id
    · rw [hid, hself, Option.some.injEq] at hrow
      rw [← hrow]
      exact hfresh _ hpending.stamp
    · rw [hother id' hid] at hrow
      exact hpending.unsaved id' row hrow
  case unread =>
    exact h.runs.unread
  case distinct =>
    exact h.runs.distinct
  case sent =>
    intro message hmessage
    obtain ⟨position, v, hv, hdesired⟩ := h.runs.sent message hmessage
    exact ⟨position, v, commit_versionAt_of_old hv, hdesired⟩
  case answers =>
    exact h.runs.answers
  case acknowledged =>
    intro id' row hrow position hlt
    by_cases hid : id' = id
    · rw [hid, hself, Option.some.injEq] at hrow
      rw [hid]
      rw [← hrow] at hlt
      cases hc.before with
      | inl hnew =>
        rw [hnew.2] at hlt
        exact absurd hlt (Nat.not_lt_zero _)
      | inr hchanged =>
        obtain ⟨old, hold, hacknowledged⟩ := hchanged
        exact h.runs.acknowledged id old hold position (hacknowledged ▸ hlt)
    · rw [hother id' hid] at hrow
      exact h.runs.acknowledged id' row hrow position hlt

/-- A run moves on to a stage whose copy, if it has one, is a copy, and which saves nothing. -/
theorem RunsSound.setRun {run : Nat} {stage : Reconcile} (h : s.RunsSound)
    (hcopy : ∀ copy, stage.copy? = some copy → s.Copied copy ∧
      ∀ run' original current, s.runs run' = .saving original current →
        copy.concurrencyStamp ≠ current.concurrencyStamp)
    (hstage : ∀ original current, stage ≠ .saving original current) :
    (s.setRun run stage).RunsSound := by
  have hself : (s.setRun run stage).runs run = stage := Function.update_self ..
  have hother : ∀ run', run' ≠ run → (s.setRun run stage).runs run' = s.runs run' :=
    fun run' hne => Function.update_of_ne hne ..
  have hsaving : ∀ run' original current,
      (s.setRun run stage).runs run' = .saving original current →
      s.runs run' = .saving original current := by
    intro run' original current hsaving
    by_cases hrun : run' = run
    · rw [hrun, hself] at hsaving
      exact absurd hsaving (hstage original current)
    · rw [hother run' hrun] at hsaving
      exact hsaving
  constructor
  case copy =>
    intro run' copy hread
    by_cases hrun : run' = run
    · rw [hrun, hself] at hread
      exact (hcopy copy hread).1.mono (fun _ _ _ hv => hv) (fun _ hg => hg) fun _ hr _ => hr
    · rw [hother run' hrun] at hread
      exact (h.copy run' copy hread).mono (fun _ _ _ hv => hv) (fun _ hg => hg) fun _ hr _ => hr
  case pending =>
    intro run' original current hpending
    have hold := h.pending run' original current (hsaving run' original current hpending)
    exact ⟨hold.same, hold.stamp, hold.unsaved, hold.acknowledged⟩
  case unread =>
    intro run' original current hpending run'' copy hread
    have hold := hsaving run' original current hpending
    by_cases hrun : run'' = run
    · rw [hrun, hself] at hread
      exact (hcopy copy hread).2 run' original current hold
    · rw [hother run'' hrun] at hread
      exact h.unread run' original current hold run'' copy hread
  case distinct =>
    intro run' original current hpending run'' original' current' hpending'
    exact h.distinct run' original current (hsaving run' original current hpending) run'' original'
      current' (hsaving run'' original' current' hpending')
  case sent =>
    exact h.sent
  case answers =>
    exact h.answers
  case acknowledged =>
    exact h.acknowledged

theorem RunsSound.modify {run : Nat} {original current : TelemetryRegistration} {stamp : Guid}
    (h : s.Sound) (hcopy : (s.runs run).copy? = some original)
    (hnew : s.newGuids [stamp] = true) (hsame : Bookkeeping original current)
    (hstamp : current.concurrencyStamp = stamp) (hlearnt : s.Learnt original current) :
    (s.modify run original current stamp).RunsSound := by
  have hfresh : ∀ guid ∈ s.issued, guid ≠ current.concurrencyStamp := by
    intro guid hguid heq
    rw [heq, hstamp] at hguid
    exact (not_issued_of_newGuids hnew (List.mem_singleton_self _)).1 hguid
  have hissued : ∀ guid ∈ s.issued, guid ∈ (s.modify run original current stamp).issued :=
    fun guid hguid => List.mem_cons_of_mem _ hguid
  have hself : (s.modify run original current stamp).runs run = .saving original current :=
    Function.update_self ..
  have hother : ∀ run', run' ≠ run →
      (s.modify run original current stamp).runs run' = s.runs run' :=
    fun run' hne => Function.update_of_ne hne ..
  -- the copies are those there were
  have hcopies : ∀ run' copy, ((s.modify run original current stamp).runs run').copy? = some copy →
      (s.runs run').copy? = some copy := by
    intro run' copy hread
    by_cases hrun : run' = run
    · rw [hrun, hself] at hread
      rw [hrun, hcopy]
      exact hread
    · rw [hother run' hrun] at hread
      exact hread
  constructor
  case copy =>
    intro run' copy hread
    exact (h.runs.copy run' copy (hcopies run' copy hread)).mono (fun _ _ _ hv => hv) hissued
      fun _ hr _ => hr
  case pending =>
    intro run' original' current' hsaving
    by_cases hrun : run' = run
    · rw [hrun, hself] at hsaving
      cases hsaving
      refine ⟨hsame, ?_, ?_, ?_⟩
      · rw [hstamp]
        exact List.mem_cons_self
      · intro id row hrow
        exact hfresh _ (h.recorded.row id row hrow).stamp
      · cases hlearnt with
        | inl hkept => exact .inl hkept
        | inr hanswered =>
          obtain ⟨hacknowledged, answer, hanswer, hid, hrevision⟩ := hanswered
          refine .inr ⟨hacknowledged, fun position hlt => ?_⟩
          have happlied := h.runs.answers answer hanswer position
            (by rw [hrevision]; exact Int.ofNat_lt.mpr hlt)
          rw [hid] at happlied
          exact happlied
    · rw [hother run' hrun] at hsaving
      have hold := h.runs.pending run' original' current' hsaving
      exact ⟨hold.same, hissued _ hold.stamp, hold.unsaved, hold.acknowledged⟩
  case unread =>
    intro run' original' current' hsaving run'' copy hread
    have hcopied := hcopies run'' copy hread
    by_cases hrun : run' = run
    · rw [hrun, hself] at hsaving
      cases hsaving
      exact hfresh _ (h.runs.copy run'' copy hcopied).stamp
    · rw [hother run' hrun] at hsaving
      exact h.runs.unread run' original' current' hsaving run'' copy hcopied
  case distinct =>
    intro run₁ original₁ current₁ hsaving₁ run₂ original₂ current₂ hsaving₂ heq
    by_cases hrun₁ : run₁ = run
    · by_cases hrun₂ : run₂ = run
      · rw [hrun₁, hrun₂]
      · rw [hrun₁, hself] at hsaving₁
        rw [hother run₂ hrun₂] at hsaving₂
        cases hsaving₁
        exact absurd heq (hfresh _ (h.runs.pending run₂ original₂ current₂ hsaving₂).stamp)
    · rw [hother run₁ hrun₁] at hsaving₁
      by_cases hrun₂ : run₂ = run
      · rw [hrun₂, hself] at hsaving₂
        cases hsaving₂
        exact absurd heq.symm (hfresh _ (h.runs.pending run₁ original₁ current₁ hsaving₁).stamp)
      · rw [hother run₂ hrun₂] at hsaving₂
        exact h.runs.distinct run₁ original₁ current₁ hsaving₁ run₂ original₂ current₂ hsaving₂ heq
  case sent =>
    exact h.runs.sent
  case answers =>
    exact h.runs.answers
  case acknowledged =>
    exact h.runs.acknowledged

theorem RunsSound.deliver {id : Guid} {body : DesiredRegistration} {now ackNow : Nat}
    {answer : RegistrationAcknowledgement} {saved : RegistryDb} (h : s.Sound)
    (hput : put s.registry ⟨id, some body, now, ackNow⟩ = .ok (answer, saved)) :
    { s with registry := saved, answers := answer :: s.answers }.RunsSound := by
  -- what is answered is stored
  have hanswered : ∃ e, saved.registrations answer.registrationId = some e ∧
      answer.revision = e.revision := by
    cases put_settled hput with
    | inl hreplay =>
      obtain ⟨e, he, -, hanswer, hsame⟩ := hreplay
      obtain ⟨-, hid, hrevision⟩ := h.registry.stored id e he
      rw [hsame, hanswer, hid]
      exact ⟨e, he, hrevision⟩
    | inr hnew =>
      obtain ⟨desired, hchanged, -, hid, hrevision⟩ := hnew
      rw [hid, hchanged.registrations]
      exact ⟨_, Function.update_self .., hrevision⟩
  constructor
  case copy =>
    intro run copy hread
    exact (h.runs.copy run copy hread).mono (fun _ _ _ hv => hv) (fun _ hg => hg) fun _ hr _ => hr
  case pending =>
    intro run original current hsaving
    have hold := h.runs.pending run original current hsaving
    refine ⟨hold.same, hold.stamp, hold.unsaved, ?_⟩
    cases hold.acknowledged with
    | inl hkept => exact .inl hkept
    | inr hlearnt =>
      exact .inr ⟨hlearnt.1, fun position hlt => (hlearnt.2 position hlt).put hput⟩
  case unread =>
    exact h.runs.unread
  case distinct =>
    exact h.runs.distinct
  case sent =>
    exact h.runs.sent
  case answers =>
    intro answer' hmem position hlt
    cases List.mem_cons.mp hmem with
    | inl hsame =>
      obtain ⟨e, he, hrevision⟩ := hanswered
      rw [hsame] at hlt ⊢
      exact ⟨e, he, hrevision ▸ hlt⟩
    | inr hold => exact (h.runs.answers answer' hold position hlt).put hput
  case acknowledged =>
    intro id' row hrow position hlt
    exact (h.runs.acknowledged id' row hrow position hlt).put hput

theorem RunsSound.save {run : Nat} {original current : TelemetryRegistration} (h : s.Sound)
    (hsaving : s.runs run = .saving original current) (hrow : s.rows original.id = some state)
    (hstamp : state.concurrencyStamp = original.concurrencyStamp) :
    { s.setRun run .idle with
      rows := Function.update s.rows original.id (some current) }.RunsSound := by
  have hsame := h.row_of_stamp hsaving hrow hstamp
  rw [hsame] at hrow
  have hidle : (s.setRun run .idle).RunsSound :=
    h.runs.setRun (fun _ hcopy => by cases hcopy) fun _ _ hstage => by cases hstage
  have hrows : ∀ id row, Function.update s.rows original.id (some current) id = some row →
      (id = original.id ∧ row = current) ∨ s.rows id = some row := by
    intro id row hnew
    by_cases hid : id = original.id
    · rw [hid, Function.update_self, Option.some.injEq] at hnew
      exact .inl ⟨hid, hnew.symm⟩
    · rw [Function.update_of_ne hid] at hnew
      exact .inr hnew
  have hself : (s.setRun run .idle).runs run = .idle := Function.update_self ..
  have hother : ∀ run', run' ≠ run → (s.setRun run .idle).runs run' = s.runs run' :=
    fun run' hne => Function.update_of_ne hne ..
  have hothers : ∀ run' original' current',
      (s.setRun run .idle).runs run' = .saving original' current' →
      run' ≠ run ∧ s.runs run' = .saving original' current' := by
    intro run' original' current' hstage
    have hne : run' ≠ run := by
      intro hrun
      rw [hrun, hself] at hstage
      cases hstage
    rw [hother run' hne] at hstage
    exact ⟨hne, hstage⟩
  constructor
  case copy =>
    intro run' copy hread
    refine (hidle.copy run' copy hread).mono (fun _ _ _ hv => hv) (fun _ hg => hg) ?_
    intro row hnew heq
    cases hrows copy.id row hnew with
    | inr hold => exact hold
    | inl hsaved =>
      -- nobody has read what is saved only now
      have hread' : (s.runs run').copy? = some copy := by
        have hstage : ((s.setRun run .idle).runs run').copy? = some copy := hread
        by_cases hrun : run' = run
        · rw [hrun, hself] at hstage
          cases hstage
        · rw [hother run' hrun] at hstage
          exact hstage
      rw [hsaved.2] at heq
      exact absurd heq.symm (h.runs.unread run original current hsaving run' copy hread')
  case pending =>
    intro run' original' current' hstage
    obtain ⟨hne, hold⟩ := hothers run' original' current' hstage
    have hpending := h.runs.pending run' original' current' hold
    refine ⟨hpending.same, hpending.stamp, ?_, hpending.acknowledged⟩
    intro id row hnew
    cases hrows id row hnew with
    | inr hbefore => exact hpending.unsaved id row hbefore
    | inl hsaved =>
      rw [hsaved.2]
      intro heq
      exact hne (h.runs.distinct run original current hsaving run' original' current' hold heq.symm)
  case unread =>
    exact hidle.unread
  case distinct =>
    exact hidle.distinct
  case sent =>
    exact h.runs.sent
  case answers =>
    exact h.runs.answers
  case acknowledged =>
    intro id row hnew position hlt
    cases hrows id row hnew with
    | inr hbefore => exact h.runs.acknowledged id row hbefore position hlt
    | inl hsaved =>
      rw [hsaved.2] at hlt
      rw [hsaved.1]
      cases (h.runs.pending run original current hsaving).acknowledged with
      | inl hkept => exact h.runs.acknowledged original.id original hrow position (hkept ▸ hlt)
      | inr hlearnt => exact hlearnt.2 position (hlearnt.1 ▸ hlt)

/-- The step lemma of provisioning. -/
theorem Sound.effect (h : s.Sound) (heffect : Effect s s') : s'.Sound := by
  cases heffect with
  | commit hc =>
    exact ⟨h.recorded.commit hc, .commit h hc,
      h.registry.mono rfl fun _ _ _ => commit_versionAt_of_old⟩
  | read hidle hrow =>
    refine ⟨h.recorded.mono rfl rfl fun _ hg => hg, ?_, h.registry.mono rfl fun _ _ _ hv => hv⟩
    refine h.runs.setRun (fun copy hcopy => ?_) fun _ _ hstage => by cases hstage
    cases hcopy
    exact ⟨copied_of_row h.recorded hrow, fun run' original current hsaving =>
      (h.runs.pending run' original current hsaving).unsaved _ _ hrow⟩
  | @send run state hread =>
    have hcopy : (s.runs run).copy? = some state := by
      rw [hread]
      rfl
    have hset : (s.setRun run (.waiting state)).RunsSound := by
      refine h.runs.setRun (fun copy hwaiting => ?_) fun _ _ hstage => by cases hstage
      cases hwaiting
      exact ⟨h.runs.copy run _ hcopy, fun run' original current hsaving =>
        h.runs.unread run' original current hsaving run _ hcopy⟩
    refine ⟨h.recorded.mono rfl rfl fun _ hg => hg, ?_, h.registry.mono rfl fun _ _ _ hv => hv⟩
    constructor
    case copy =>
      intro run' copy hread'
      exact (hset.copy run' copy hread').mono (fun _ _ _ hv => hv) (fun _ hg => hg) fun _ hr _ => hr
    case pending =>
      intro run' original current hsaving
      have hold := hset.pending run' original current hsaving
      exact ⟨hold.same, hold.stamp, hold.unsaved, hold.acknowledged⟩
    case unread =>
      exact hset.unread
    case distinct =>
      exact hset.distinct
    case sent =>
      intro message hmessage
      cases List.mem_cons.mp hmessage with
      | inr hold => exact h.runs.sent message hold
      | inl hnew =>
        obtain ⟨change, hknown⟩ := (h.runs.copy run state hcopy).known
        rw [hnew]
        exact ⟨_, _, hknown, rfl⟩
    case answers =>
      exact h.runs.answers
    case acknowledged =>
      exact h.runs.acknowledged
  | modify hcopy hnew hsame hstamp hlearnt =>
    exact ⟨h.recorded.mono rfl rfl fun _ hg => List.mem_cons_of_mem _ hg,
      .modify h hcopy hnew hsame hstamp hlearnt, h.registry.mono rfl fun _ _ _ hv => hv⟩
  | deliver hsent hput =>
    exact ⟨h.recorded.mono rfl rfl fun _ hg => hg, .deliver h hput, .deliver h hsent hput⟩
  | refuse => exact h
  | save hsaving hrow hstamp =>
    exact ⟨.save h hsaving hrow hstamp, .save h hsaving hrow hstamp,
      h.registry.mono rfl fun _ _ _ hv => hv⟩
  | discard hsaving =>
    refine ⟨h.recorded.mono rfl rfl fun _ hg => hg, ?_, h.registry.mono rfl fun _ _ _ hv => hv⟩
    exact h.runs.setRun (fun _ hcopy => by cases hcopy) fun _ _ hstage => by cases hstage

/-- Every state that provisioning reaches is sound. -/
theorem sound_of_reachable {sha256 : String → Digest} (h : Reachable (step sha256) initial s) :
    s.Sound :=
  h.invariant Sound sound_initial fun _ _ _ hsound _ hstep =>
    hsound.effect (effect_of_step hsound.recorded hstep)

end

end Provisioning

end Wallow.Telemetry
