import Wallow.Telemetry.GatewayHistory

/-!
# What an accepted change leaves, and when a change is accepted

The three passes of the control handler, one after the other: a rotation gives the replaced
credential its end, the desired credentials are added where they are not yet known, and the
registration's other credentials are revoked.
-/

namespace Wallow.Telemetry

open Growth

variable {db db' : RegistryDb} {registrationId : Guid} {desired : DesiredRegistration}
  {state : RegistrationState} {credentials : List DesiredCredential} {now : Nat}

@[simp] theorem sameVerifier_self (verifier : String) : sameVerifier verifier verifier = true := by
  rw [sameVerifier, decide_eq_true_eq]

/-! ## The loop over the desired credentials -/

/-- A credential that the loop lets pass: nobody has it, or this registration has it, live where
the registration is to be enabled, with the same verifier. -/
def Addable (registrationId : Guid) (state : RegistrationState) (db : RegistryDb)
    (credential : DesiredCredential) : Prop :=
  ∀ stored, db.credentials credential.id = some stored →
    stored.registrationId = registrationId ∧ (state = .enabled → stored.revoked = false) ∧
      sameVerifier stored.verifier credential.verifier = true

/-- The row of a credential that has passed the loop. -/
def Added (registrationId : Guid) (state : RegistrationState) (db : RegistryDb)
    (credential : DesiredCredential) : Prop :=
  ∃ stored, db.credentials credential.id = some stored ∧
    stored.registrationId = registrationId ∧ (state = .enabled → stored.revoked = false) ∧
      sameVerifier stored.verifier credential.verifier = true

/-- The row that the loop adds. -/
def newEntry (registrationId : Guid) (credential : DesiredCredential) : CredentialEntry :=
  ⟨registrationId, credential.verifier, false, none⟩

theorem addCredential_of_addable {credential : DesiredCredential}
    (h : Addable registrationId state db credential) :
    ∃ db', addCredential registrationId state db credential = .ok db' := by
  unfold addCredential
  cases hstored : db.credentials credential.id with
  | none => exact ⟨_, rfl⟩
  | some stored =>
    have hlive := h stored hstored
    have hpass : ¬ (stored.registrationId ≠ registrationId ||
        (stored.revoked && state = .enabled) ||
        !sameVerifier stored.verifier credential.verifier) = true := by
      simp only [hlive.1, hlive.2.2, Bool.or_eq_true, Bool.and_eq_true, decide_eq_true_eq,
        Bool.not_true, not_or, not_and]
      refine ⟨⟨not_not_intro rfl, ?_⟩, by decide⟩
      intro hrevoked henabled
      rw [hlive.2.1 henabled] at hrevoked
      exact absurd hrevoked (by decide)
    exact ⟨db, if_neg hpass⟩

/-- One turn of the loop: a known credential stays as it is, an unknown one is added. -/
theorem addCredential_ok {credential : DesiredCredential}
    (h : addCredential registrationId state db credential = .ok db') :
    (db' = db ∧ Added registrationId state db credential) ∨
    (db.credentials credential.id = none ∧ db' = { db with
      credentials := Function.update db.credentials credential.id
        (some (newEntry registrationId credential)) }) := by
  unfold addCredential at h
  cases hstored : db.credentials credential.id with
  | none =>
    simp only [hstored, Except.ok.injEq] at h
    exact .inr ⟨rfl, h.symm⟩
  | some stored =>
    simp only [hstored] at h
    split at h
    · cases h
    · rename_i hpass
      simp only [Bool.or_eq_true, Bool.and_eq_true, decide_eq_true_eq, not_or, not_and, not_not,
        Bool.not_eq_true', Bool.not_eq_false] at hpass
      cases h
      refine .inl ⟨rfl, stored, hstored, hpass.1.1, ?_, hpass.2⟩
      intro henabled
      cases hrevoked : stored.revoked with
      | false => rfl
      | true => exact absurd henabled (hpass.1.2 hrevoked)

/-- What the whole loop leaves: the rows there were, and those of listed credentials. -/
structure AddedAll (registrationId : Guid) (state : RegistrationState)
    (credentials : List DesiredCredential) (db db' : RegistryDb) : Prop where
  kept : ∀ id c, db.credentials id = some c → db'.credentials id = some c
  known : ∀ id c, db'.credentials id = some c → db.credentials id = some c ∨
    (∃ d ∈ credentials, d.id = id) ∧ c.registrationId = registrationId ∧ c.expiresAt = none
  listed : ∀ d ∈ credentials, Added registrationId state db' d
  rotations : db'.rotations = db.rotations

theorem Added.kept {credential : DesiredCredential}
    (h : Added registrationId state db credential)
    (hkept : ∀ id c, db.credentials id = some c → db'.credentials id = some c) :
    Added registrationId state db' credential := by
  cases h with
  | intro stored h => exact ⟨stored, hkept _ _ h.1, h.2⟩

theorem addedAll_single {credential : DesiredCredential}
    (h : addCredential registrationId state db credential = .ok db') :
    AddedAll registrationId state [credential] db db' := by
  cases addCredential_ok h with
  | inl hknown =>
    rw [hknown.1]
    constructor
    case kept =>
      exact fun _ _ hc => hc
    case known =>
      exact fun _ _ hc => .inl hc
    case listed =>
      intro d hd
      rw [List.mem_singleton.mp hd]
      exact hknown.2
    case rotations =>
      rfl
  | inr hnew =>
    have hself : db'.credentials credential.id = some (newEntry registrationId credential) := by
      rw [hnew.2]
      exact Function.update_self ..
    have hother : ∀ id, id ≠ credential.id → db'.credentials id = db.credentials id := by
      intro id hne
      rw [hnew.2]
      exact Function.update_of_ne hne ..
    constructor
    case kept =>
      intro id c hc
      have hne : id ≠ credential.id := by
        intro hid
        rw [hid, hnew.1] at hc
        cases hc
      rw [hother id hne]
      exact hc
    case known =>
      intro id c hc
      by_cases hid : id = credential.id
      · rw [hid, hself] at hc
        cases hc
        exact .inr ⟨⟨credential, List.mem_singleton_self _, hid.symm⟩, rfl, rfl⟩
      · rw [hother id hid] at hc
        exact .inl hc
    case listed =>
      intro d hd
      rw [List.mem_singleton.mp hd]
      exact ⟨_, hself, rfl, fun _ => rfl, sameVerifier_self _⟩
    case rotations =>
      rw [hnew.2]

theorem addCredentials_ok (h : credentials.foldlM (addCredential registrationId state) db =
    .ok db') : AddedAll registrationId state credentials db db' := by
  induction credentials generalizing db with
  | nil =>
    cases h
    exact ⟨fun _ _ hc => hc, fun _ _ hc => .inl hc, fun _ hd => absurd hd List.not_mem_nil, rfl⟩
  | cons credential rest ih =>
    rw [List.foldlM_cons] at h
    cases hstep : addCredential registrationId state db credential with
    | error e =>
      rw [hstep] at h
      cases h
    | ok db₁ =>
      rw [hstep] at h
      have hhead := addedAll_single hstep
      have hrest := ih h
      constructor
      case kept =>
        exact fun id c hc => hrest.kept id c (hhead.kept id c hc)
      case known =>
        intro id c hc
        cases hrest.known id c hc with
        | inr hlisted =>
          have hmem : ∃ d ∈ credential :: rest, d.id = id :=
            hlisted.1.imp fun d hd => ⟨List.mem_cons_of_mem _ hd.1, hd.2⟩
          exact .inr ⟨hmem, hlisted.2⟩
        | inl hmid =>
          cases hhead.known id c hmid with
          | inl hold => exact .inl hold
          | inr hlisted =>
            have hmem : ∃ d ∈ credential :: rest, d.id = id := by
              obtain ⟨d, hd, hid⟩ := hlisted.1
              rw [List.mem_singleton.mp hd] at hid
              exact ⟨credential, List.mem_cons_self, hid⟩
            exact .inr ⟨hmem, hlisted.2⟩
      case listed =>
        intro d hd
        cases List.mem_cons.mp hd with
        | inl heq =>
          rw [heq]
          exact (hhead.listed credential (List.mem_singleton_self _)).kept hrest.kept
        | inr hmem => exact hrest.listed d hmem
      case rotations =>
        rw [hrest.rotations, hhead.rotations]

/-- Where each credential may be added and none is listed twice, the loop goes through. -/
theorem addCredentials_of_addable (hnodup : (credentials.map (·.id)).Nodup)
    (h : ∀ d ∈ credentials, Addable registrationId state db d) :
    ∃ db', credentials.foldlM (addCredential registrationId state) db = .ok db' := by
  induction credentials generalizing db with
  | nil => exact ⟨db, rfl⟩
  | cons credential rest ih =>
    rw [List.map_cons, List.nodup_cons] at hnodup
    cases addCredential_of_addable (h credential List.mem_cons_self) with
    | intro db₁ hstep =>
      have hrest : ∀ d ∈ rest, Addable registrationId state db₁ d := by
        intro d hd stored hstored
        have hne : d.id ≠ credential.id := fun heq =>
          hnodup.1 (List.mem_map.mpr ⟨d, hd, heq⟩)
        have hold : db.credentials d.id = some stored := by
          cases (addedAll_single hstep).known d.id stored hstored with
          | inl hold => exact hold
          | inr hlisted =>
            cases hlisted.1 with
            | intro d' hd' =>
              rw [List.mem_singleton.mp hd'.1] at hd'
              exact absurd hd'.2.symm hne
        exact h d (List.mem_cons_of_mem _ hd) stored hold
      cases ih hnodup.2 hrest with
      | intro db' hdb' => exact ⟨db', by rw [List.foldlM_cons, hstep]; exact hdb'⟩

/-! ## The change as a whole -/

/-- What the rotation pass leaves: rows as they were, and the end of the replaced one. -/
structure Rotated (registrationId : Guid) (desired : DesiredRegistration) (db db' : RegistryDb) :
    Prop where
  known : ∀ id c, db'.credentials id = some c → db.credentials id = some c ∨
    ∃ operation before, desired.rotation = some operation ∧
      operation.previousCredentialId = id ∧ db.credentials id = some before ∧
      before.registrationId = registrationId ∧ c.registrationId = registrationId
  rotations : ∀ id entry, db'.rotations id = some entry → db.rotations id = some entry ∨
    (entry.registrationId = registrationId ∧
      desired.rotation = some ⟨id, entry.previousCredentialId, entry.newCredentialId⟩)

theorem rotated_of_applyRotation {rotation : Option RotationEntry}
    (h : applyRotation db registrationId desired now = .ok (rotation, db')) :
    Rotated registrationId desired db db' := by
  unfold applyRotation at h
  cases hdesired : desired.rotation with
  | none =>
    simp only [hdesired, Except.ok.injEq, Prod.mk.injEq] at h
    rw [← h.2]
    exact ⟨fun _ _ hc => .inl hc, fun _ _ he => .inl he⟩
  | some operation =>
    simp only [hdesired] at h
    cases hrotate : rotate db registrationId desired operation now with
    | error e => simp [hrotate, Except.map] at h
    | ok rotated =>
      simp only [hrotate, Except.map, Except.ok.injEq, Prod.mk.injEq] at h
      rw [← h.2]
      cases hknown : db.rotations operation.operationId with
      | some entry =>
        -- the rotation is on record: nothing is written
        have hsame : rotated.2 = db := by
          unfold rotate at hrotate
          split at hrotate
          · cases hrotate
          · simp only [hknown] at hrotate
            split at hrotate
            · cases hrotate
            · cases hrotate
              rfl
        rw [hsame]
        exact ⟨fun _ _ hc => .inl hc, fun _ _ he => .inl he⟩
      | none =>
        obtain ⟨⟨previous, hprevious, hregistration, -, -, -, hcredentials⟩, -, hentry,
          hrotations⟩ := startRotation_ok ((rotate_ok hrotate).2.2 hknown)
        constructor
        · intro id c hc
          rw [hcredentials] at hc
          by_cases hid : id = operation.previousCredentialId
          · rw [hid, Function.update_self] at hc
            cases hc
            refine .inr ⟨operation, previous, hdesired, hid.symm, ?_, hregistration, hregistration⟩
            rw [hid]
            exact hprevious
          · rw [Function.update_of_ne hid] at hc
            exact .inl hc
        · intro id entry he
          rw [hrotations] at he
          by_cases hid : id = operation.operationId
          · rw [hid, Function.update_self, Option.some.injEq] at he
            refine .inr ?_
            rw [← he, hentry, hid]
            exact ⟨rfl, hdesired⟩
          · rw [Function.update_of_ne hid] at he
            exact .inl he

/-- What an accepted change leaves of credentials and rotations, row by row. -/
structure Settled (registrationId : Guid) (desired : DesiredRegistration) (db db' : RegistryDb) :
    Prop where
  known : ∀ id c', db'.credentials id = some c' →
    (∃ c, db.credentials id = some c ∧ c.registrationId = c'.registrationId) ∨
      (c'.registrationId = registrationId ∧ ∃ d ∈ desired.credentials, d.id = id)
  other : ∀ id c', db'.credentials id = some c' → c'.registrationId ≠ registrationId →
    db.credentials id = some c'
  live : ∀ id c', db'.credentials id = some c' → c'.registrationId = registrationId →
    c'.revoked = false → desired.state = .enabled ∧ ∃ d ∈ desired.credentials, d.id = id
  listed : desired.state = .enabled → ∀ d ∈ desired.credentials,
    ∃ c', db'.credentials d.id = some c' ∧ c'.registrationId = registrationId ∧
      c'.revoked = false ∧ sameVerifier c'.verifier d.verifier = true
  expiring : ∀ id c', db'.credentials id = some c' → c'.expiresAt.isSome →
    (∃ c, db.credentials id = some c ∧ c.registrationId = c'.registrationId ∧
      c.expiresAt.isSome) ∨
    (c'.registrationId = registrationId ∧ ∃ operation, desired.rotation = some operation ∧
      operation.previousCredentialId = id)
  rotations : ∀ id entry, db'.rotations id = some entry → db.rotations id = some entry ∨
    (entry.registrationId = registrationId ∧
      desired.rotation = some ⟨id, entry.previousCredentialId, entry.newCredentialId⟩)

/-- The row that the last pass leaves of one. -/
theorem revokeUnlisted_some {id : String} {c' : CredentialEntry}
    (h : (revokeUnlisted db registrationId desired).credentials id = some c') :
    ∃ c, db.credentials id = some c ∧ c'.registrationId = c.registrationId ∧
      c'.verifier = c.verifier ∧ c'.expiresAt = c.expiresAt ∧
      (c.registrationId ≠ registrationId → c' = c) ∧
      (c.registrationId = registrationId → c'.revoked = (c.revoked || desired.state ≠ .enabled ||
        !desired.credentials.any (·.id = id))) := by
  obtain ⟨c, hc, hrow⟩ := Option.map_eq_some_iff.mp h
  refine ⟨c, hc, ?_⟩
  by_cases hregistration : c.registrationId = registrationId
  · simp only [hregistration, if_true] at hrow
    rw [← hrow]
    exact ⟨hregistration.symm, rfl, rfl, fun hne => absurd hregistration hne, fun _ => rfl⟩
  · simp only [hregistration, if_false] at hrow
    rw [← hrow]
    exact ⟨rfl, rfl, rfl, fun _ => rfl, fun heq => absurd heq hregistration⟩

theorem settled_of_passes {db₁ db₂ : RegistryDb} (h₁ : Rotated registrationId desired db db₁)
    (h₂ : AddedAll registrationId desired.state desired.credentials db₁ db₂) :
    Settled registrationId desired db (revokeUnlisted db₂ registrationId desired) := by
  constructor
  case known =>
    intro id c' hc'
    obtain ⟨c, hc, hregistration, -⟩ := revokeUnlisted_some hc'
    rw [hregistration]
    cases h₂.known id c hc with
    | inr hlisted => exact .inr ⟨hlisted.2.1, hlisted.1⟩
    | inl hmid =>
      cases h₁.known id c hmid with
      | inl hold => exact .inl ⟨c, hold, rfl⟩
      | inr hreplaced =>
        obtain ⟨operation, before, -, -, hbefore, hreg, hreg'⟩ := hreplaced
        exact .inl ⟨before, hbefore, hreg.trans hreg'.symm⟩
  case other =>
    intro id c' hc' hne
    obtain ⟨c, hc, hregistration, -, -, hsame, -⟩ := revokeUnlisted_some hc'
    rw [hregistration] at hne
    rw [hsame hne]
    cases h₂.known id c hc with
    | inr hlisted => exact absurd hlisted.2.1 hne
    | inl hmid =>
      cases h₁.known id c hmid with
      | inl hold => exact hold
      | inr hreplaced =>
        obtain ⟨operation, before, -, -, -, -, hreg⟩ := hreplaced
        exact absurd hreg hne
  case live =>
    intro id c' hc' hregistration hlive
    obtain ⟨c, hc, hreg, -, -, -, hrevoked⟩ := revokeUnlisted_some hc'
    rw [hrevoked (hreg.symm.trans hregistration)] at hlive
    simp only [Bool.or_eq_false_iff, decide_eq_false_iff_not, not_not, Bool.not_eq_false',
      List.any_eq_true, decide_eq_true_eq] at hlive
    exact ⟨hlive.1.2, hlive.2⟩
  case listed =>
    intro henabled d hd
    obtain ⟨stored, hstored, hregistration, hlive, hverifier⟩ := h₂.listed d hd
    have hrow : (revokeUnlisted db₂ registrationId desired).credentials d.id = some
        { stored with revoked := stored.revoked || desired.state ≠ .enabled ||
            !desired.credentials.any (·.id = d.id) } := by
      simp only [revokeUnlisted, hstored, Option.map_some, hregistration, if_true]
    refine ⟨_, hrow, hregistration, ?_, hverifier⟩
    have hany : desired.credentials.any (·.id = d.id) = true := by
      rw [List.any_eq_true]
      exact ⟨d, hd, decide_eq_true rfl⟩
    simp only [hlive henabled, henabled, hany]
    decide
  case expiring =>
    intro id c' hc' hexpires
    obtain ⟨c, hc, hregistration, -, hexpiresAt, -⟩ := revokeUnlisted_some hc'
    rw [hexpiresAt] at hexpires
    rw [hregistration]
    cases h₂.known id c hc with
    | inr hlisted =>
      rw [hlisted.2.2] at hexpires
      exact absurd hexpires (by decide)
    | inl hmid =>
      cases h₁.known id c hmid with
      | inl hold => exact .inl ⟨c, hold, rfl, hexpires⟩
      | inr hreplaced =>
        obtain ⟨operation, before, hoperation, hid, -, -, hreg⟩ := hreplaced
        exact .inr ⟨hreg, operation, hoperation, hid⟩
  case rotations =>
    intro id entry hentry
    have hmid : db₁.rotations id = some entry := by
      rw [← h₂.rotations]
      exact hentry
    exact h₁.rotations id entry hmid

theorem settled_of_change {request : PutRequest} {acknowledgement : RegistrationAcknowledgement}
    (h : change db request desired = .ok (acknowledgement, db')) :
    Settled request.registrationId desired db db' := by
  obtain ⟨rotation, db₁, db₂, hrotation, hadd, -, hdb⟩ := change_ok h
  have hsettled := settled_of_passes (rotated_of_applyRotation hrotation) (addCredentials_ok hadd)
  rw [hdb]
  exact ⟨hsettled.known, hsettled.other, hsettled.live, hsettled.listed, hsettled.expiring,
    hsettled.rotations⟩

/-- An accepted request replays what is stored, or settles its body. -/
theorem put_settled {request : PutRequest} {acknowledgement : RegistrationAcknowledgement}
    (h : put db request = .ok (acknowledgement, db')) :
    (∃ e, db.registrations request.registrationId = some e ∧ request.body = some e.desired ∧
      acknowledgement = e.acknowledgement ∧ db' = db) ∨
    ∃ desired, Changed db request desired acknowledgement db' ∧
      Settled request.registrationId desired db db' ∧
      acknowledgement.registrationId = request.registrationId ∧
      acknowledgement.revision = desired.revision := by
  cases put_cases h with
  | inl hreplay => exact .inl hreplay
  | inr hnew =>
    obtain ⟨desired, hbody, hvalid, hnewer, hchange⟩ := hnew
    obtain ⟨_, _, _, -, -, hacknowledgement, -⟩ := change_ok hchange
    refine .inr ⟨desired, changed_of_change hbody hvalid hnewer hchange, settled_of_change hchange,
      ?_⟩
    rw [hacknowledgement]
    exact ⟨rfl, rfl⟩

/-! ## When a change is accepted -/

/-- The rotation a body asks for can start: what it replaces is live and has no end, and neither
the rotation nor its new credential is known. -/
structure Startable (db : RegistryDb) (registrationId : Guid) (desired : DesiredRegistration)
    (operation : CredentialRotation) (previous : CredentialEntry) : Prop where
  operationId : operation.operationId ≠ Guid.empty
  state : desired.state = .enabled
  ne : operation.previousCredentialId ≠ operation.newCredentialId
  listedPrevious : ∃ d ∈ desired.credentials, d.id = operation.previousCredentialId
  listedNew : ∃ d ∈ desired.credentials, d.id = operation.newCredentialId
  unknown : db.rotations operation.operationId = none
  stored : db.credentials operation.previousCredentialId = some previous
  registrationId : previous.registrationId = registrationId
  live : previous.revoked = false
  unending : previous.expiresAt = none
  fresh : db.credentials operation.newCredentialId = none

/-- A rotation that can start changes the row of the replaced credential alone. -/
theorem applyRotation_of_startable {operation : CredentialRotation} {previous : CredentialEntry}
    (hoperation : desired.rotation = some operation)
    (h : Startable db registrationId desired operation previous) (now : Nat) :
    ∃ rotation db₁, applyRotation db registrationId desired now = .ok (rotation, db₁) ∧
      db₁.credentials = Function.update db.credentials operation.previousCredentialId
        (some { previous with expiresAt := some (overlapDeadline now) }) := by
  have hprevious : desired.credentials.any (·.id = operation.previousCredentialId) = true := by
    rw [List.any_eq_true]
    exact h.listedPrevious.imp fun d hd => ⟨hd.1, decide_eq_true hd.2⟩
  have hnew : desired.credentials.any (·.id = operation.newCredentialId) = true := by
    rw [List.any_eq_true]
    exact h.listedNew.imp fun d hd => ⟨hd.1, decide_eq_true hd.2⟩
  have hstart : ∃ entry db₁, startRotation db registrationId operation now = .ok (entry, db₁) ∧
      db₁.credentials = Function.update db.credentials operation.previousCredentialId
        (some { previous with expiresAt := some (overlapDeadline now) }) := by
    unfold startRotation
    rw [h.stored]
    dsimp only
    rw [if_neg (by simp [h.registrationId, h.live, h.unending, h.fresh])]
    exact ⟨_, _, rfl, rfl⟩
  obtain ⟨entry, db₁, hstarted, hcredentials⟩ := hstart
  have hrotate : rotate db registrationId desired operation now = .ok (entry, db₁) := by
    unfold rotate
    rw [if_neg (by simp [h.operationId, h.state, h.ne, hprevious, hnew]), h.unknown]
    exact hstarted
  refine ⟨some entry, db₁, ?_, hcredentials⟩
  unfold applyRotation
  rw [hoperation]
  simp only [hrotate, Except.map]

/-- Where the rotation can start and each listed credential may be added, the change is made. -/
theorem change_accepted {request : PutRequest}
    (hnodup : (desired.credentials.map (·.id)).Nodup)
    (hadd : ∀ d ∈ desired.credentials, Addable request.registrationId desired.state db d)
    (hstart : ∀ operation, desired.rotation = some operation →
      ∃ previous, Startable db request.registrationId desired operation previous) :
    ∃ acknowledgement db', change db request desired = .ok (acknowledgement, db') := by
  have hrotated : ∃ rotation db₁,
      applyRotation db request.registrationId desired request.now = .ok (rotation, db₁) ∧
      ∀ d ∈ desired.credentials, Addable request.registrationId desired.state db₁ d := by
    cases hrotation : desired.rotation with
    | none =>
      refine ⟨none, db, ?_, hadd⟩
      unfold applyRotation
      rw [hrotation]
    | some operation =>
      obtain ⟨previous, hprevious⟩ := hstart operation hrotation
      obtain ⟨rotation, db₁, happly, hcredentials⟩ :=
        applyRotation_of_startable hrotation hprevious request.now
      refine ⟨rotation, db₁, happly, ?_⟩
      intro d hd stored hstored
      rw [hcredentials] at hstored
      by_cases hid : d.id = operation.previousCredentialId
      · rw [hid, Function.update_self, Option.some.injEq] at hstored
        have hbefore := hadd d hd previous (by rw [hid]; exact hprevious.stored)
        rw [← hstored]
        exact hbefore
      · rw [Function.update_of_ne hid] at hstored
        exact hadd d hd stored hstored
  obtain ⟨rotation, db₁, happly, hadd₁⟩ := hrotated
  obtain ⟨db₂, hloop⟩ := addCredentials_of_addable hnodup hadd₁
  unfold change
  rw [happly]
  simp only [Except.bind, hloop, Except.map]
  exact ⟨_, _, rfl⟩

/-- A valid body of a larger revision is accepted when its change is. -/
theorem put_accepted {request : PutRequest} (hbody : request.body = some desired)
    (hid : request.registrationId ≠ Guid.empty)
    (hvalid : RegistrationValidation.isValid desired = true)
    (hnewer : ∀ e, db.registrations request.registrationId = some e →
      e.revision < desired.revision ∧ e.desired.state ≠ .deleted)
    (hchange : ∃ acknowledgement db', change db request desired = .ok (acknowledgement, db')) :
    ∃ acknowledgement db', put db request = .ok (acknowledgement, db') := by
  unfold put
  rw [hbody]
  dsimp only
  rw [if_neg (by simp [hid, hvalid])]
  cases hexisting : db.registrations request.registrationId with
  | none => exact hchange
  | some existing =>
    obtain ⟨hlt, hstate⟩ := hnewer existing hexisting
    dsimp only
    rw [if_neg (by simp [Int.ne_of_lt hlt]), if_neg (by simp [Int.not_le.mpr hlt, hstate])]
    exact hchange

end Wallow.Telemetry
