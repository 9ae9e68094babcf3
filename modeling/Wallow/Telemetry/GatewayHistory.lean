import Wallow.Lib.Growth
import Wallow.Lib.Transition
import Wallow.Telemetry.Gateway

/-!
# What a history of control requests keeps

An accepted request either replays the last body, and then nothing is written, or it writes a
larger revision; credentials and rotations only grow.  What a credential once lost (revoked, or
replaced for a day) it does not get back.
-/

namespace Wallow.Telemetry

open Transition Growth

/-! ## What one request does -/

/-- A credential row may be revoked or given its end, and changes in no other way. -/
structure CredentialEntry.Extends (c c' : CredentialEntry) : Prop where
  registrationId : c'.registrationId = c.registrationId
  verifier : c'.verifier = c.verifier
  revoked : c.revoked = true → c'.revoked = true
  expiresAt : ∀ deadline, c.expiresAt = some deadline → c'.expiresAt = some deadline

theorem CredentialEntry.Extends.refl (c : CredentialEntry) : c.Extends c :=
  ⟨rfl, rfl, id, fun _ h => h⟩

theorem CredentialEntry.Extends.trans (a b c : CredentialEntry) (h : a.Extends b)
    (h' : b.Extends c) : a.Extends c where
  registrationId := h'.registrationId.trans h.registrationId
  verifier := h'.verifier.trans h.verifier
  revoked := h'.revoked ∘ h.revoked
  expiresAt := fun deadline hd => h'.expiresAt deadline (h.expiresAt deadline hd)

/-- Credentials and rotations grow; the registrations are left to the end of the handler. -/
structure RegistryDb.Grown (db db' : RegistryDb) : Prop where
  registrations : db'.registrations = db.registrations
  credentials : ∀ id, Grows CredentialEntry.Extends (db.credentials id) (db'.credentials id)
  rotations : ∀ id, Grows Eq (db.rotations id) (db'.rotations id)

namespace RegistryDb.Grown

theorem refl (db : RegistryDb) : db.Grown db where
  registrations := rfl
  credentials := fun _ => .refl CredentialEntry.Extends.refl _
  rotations := fun _ => .refl (fun _ => rfl) _

theorem trans {db db' db'' : RegistryDb} (h : db.Grown db') (h' : db'.Grown db'') :
    db.Grown db'' where
  registrations := h'.registrations.trans h.registrations
  credentials := fun id => (h.credentials id).trans CredentialEntry.Extends.trans
    (h'.credentials id)
  rotations := fun id => (h.rotations id).trans (fun _ _ _ => Eq.trans) (h'.rotations id)

end RegistryDb.Grown

section

variable {db db' : RegistryDb} {registrationId : Guid} {desired : DesiredRegistration}
  {operation : CredentialRotation} {rotation : RotationEntry} {now : Nat}

/-- The day a replaced credential has left, counted from the request that replaced it. -/
def overlapDeadline (now : Nat) : Nat := toUnixTimeMilliseconds (now + 24 * TICKS_PER_HOUR)

/-- A started rotation finds its previous credential live and writes its end. -/
theorem startRotation_ok (h : startRotation db registrationId operation now = .ok (rotation, db')) :
    (∃ previous, db.credentials operation.previousCredentialId = some previous ∧
      previous.registrationId = registrationId ∧ previous.revoked = false ∧
      previous.expiresAt = none ∧ db.credentials operation.newCredentialId = none ∧
      db'.credentials = Function.update db.credentials operation.previousCredentialId
        (some { previous with expiresAt := some (overlapDeadline now) })) ∧
    db'.registrations = db.registrations ∧
    rotation = ⟨registrationId, operation.previousCredentialId, operation.newCredentialId,
      overlapDeadline now⟩ ∧
    db'.rotations = Function.update db.rotations operation.operationId (some rotation) := by
  unfold startRotation at h
  cases hprevious : db.credentials operation.previousCredentialId with
  | none => simp [hprevious] at h
  | some previous =>
    simp only [hprevious] at h
    split at h
    · cases h
    · rename_i hlive
      simp only [Bool.or_eq_true, decide_eq_true_eq, not_or, not_not, Bool.not_eq_true,
        Option.isSome_eq_false_iff, Option.isNone_iff_eq_none] at hlive
      obtain ⟨⟨⟨hregistration, hrevoked⟩, hexpires⟩, hnew⟩ := hlive
      cases h
      exact ⟨⟨previous, rfl, hregistration, hrevoked, hexpires, hnew, rfl⟩, rfl, rfl, rfl⟩

theorem startRotation_grown (hnew : db.rotations operation.operationId = none)
    (h : startRotation db registrationId operation now = .ok (rotation, db')) : db.Grown db' := by
  obtain ⟨⟨previous, hprevious, -, -, hexpires, -, hcredentials⟩, hregistrations, -, hrotations⟩ :=
    startRotation_ok h
  constructor
  · exact hregistrations
  · intro id
    rw [hcredentials]
    refine grows_update CredentialEntry.Extends.refl (fun c hc => ?_) id
    -- the only row written had no end before
    have hsame : c = previous := Option.some.inj (hc.symm.trans hprevious)
    subst hsame
    exact ⟨rfl, rfl, fun h => h, fun deadline hd => by simp [hexpires] at hd⟩
  · intro id
    rw [hrotations]
    exact grows_update (fun _ => rfl) (fun e he => by simp [hnew] at he) id

/-- A rotation that went through is on record; it was so before, or starts here. -/
theorem rotate_ok (h : rotate db registrationId desired operation now = .ok (rotation, db')) :
    db.Grown db' ∧ db'.rotations operation.operationId = some rotation ∧
      (db.rotations operation.operationId = none →
        startRotation db registrationId operation now = .ok (rotation, db')) := by
  unfold rotate at h
  split at h
  · cases h
  · cases hrotation : db.rotations operation.operationId with
    | none =>
      simp only [hrotation] at h
      obtain ⟨-, -, -, hrotations⟩ := startRotation_ok h
      have hknown : db'.rotations operation.operationId = some rotation := by
        rw [hrotations]
        exact Function.update_self ..
      exact ⟨startRotation_grown hrotation h, hknown, fun _ => h⟩
    | some known =>
      simp only [hrotation] at h
      split at h
      · cases h
      · cases h
        exact ⟨.refl _, hrotation, fun hnone => by cases hnone⟩

theorem addCredential_grown {state : RegistrationState} {credential : DesiredCredential}
    (h : addCredential registrationId state db credential = .ok db') : db.Grown db' := by
  unfold addCredential at h
  cases hstored : db.credentials credential.id with
  | none =>
    simp only [hstored, Except.ok.injEq] at h
    subst h
    refine ⟨rfl, fun id => ?_, fun _ => .refl (fun _ => rfl) _⟩
    exact grows_update CredentialEntry.Extends.refl (fun c hc => by simp [hstored] at hc) id
  | some stored =>
    simp only [hstored] at h
    split at h
    · cases h
    · cases h
      exact .refl _

theorem addCredentials_grown {state : RegistrationState} {credentials : List DesiredCredential}
    (h : credentials.foldlM (addCredential registrationId state) db = .ok db') :
    db.Grown db' := by
  -- on the credentials left to add, from the rows the earlier ones left
  induction credentials generalizing db with
  | nil =>
    cases h
    exact .refl _
  | cons credential rest ih =>
    rw [List.foldlM_cons] at h
    cases hstep : addCredential registrationId state db credential with
    | error e =>
      rw [hstep] at h
      cases h
    | ok db₁ =>
      rw [hstep] at h
      exact (addCredential_grown hstep).trans (ih h)

theorem revokeUnlisted_grown (db : RegistryDb) (registrationId : Guid)
    (desired : DesiredRegistration) : db.Grown (revokeUnlisted db registrationId desired) := by
  refine ⟨rfl, fun id => .map (fun c => ?_) _, fun _ => .refl (fun _ => rfl) _⟩
  -- the pass revokes rows of its own registration only
  by_cases hregistration : c.registrationId = registrationId
  · simp only [hregistration, if_true]
    exact ⟨hregistration.symm, rfl, fun h => by simp [h], fun _ h => h⟩
  · simp only [hregistration, if_false]
    exact .refl c

end

/-- An accepted request that is no replay. -/
structure Changed (db : RegistryDb) (request : PutRequest) (desired : DesiredRegistration)
    (acknowledgement : RegistrationAcknowledgement) (db' : RegistryDb) : Prop where
  body : request.body = some desired
  valid : RegistrationValidation.isValid desired = true
  newer : ∀ e, db.registrations request.registrationId = some e →
    e.revision < desired.revision ∧ e.desired.state ≠ .deleted
  registrations : db'.registrations = Function.update db.registrations request.registrationId
    (some ⟨desired.revision, desired, acknowledgement⟩)
  credentials : ∀ id, Grows CredentialEntry.Extends (db.credentials id) (db'.credentials id)
  rotations : ∀ id, Grows Eq (db.rotations id) (db'.rotations id)
  recorded : ∀ operation, desired.rotation = some operation →
    ∃ entry, db'.rotations operation.operationId = some entry
  replaced : ∀ operation, desired.rotation = some operation →
    db.rotations operation.operationId = none →
    ∃ c, db'.credentials operation.previousCredentialId = some c ∧
      c.expiresAt = some (overlapDeadline request.now)

section

variable {db db' : RegistryDb} {request : PutRequest} {desired : DesiredRegistration}
  {acknowledgement : RegistrationAcknowledgement}

/-- The three passes of an accepted change, one after the other. -/
theorem change_ok (h : change db request desired = .ok (acknowledgement, db')) :
    ∃ rotation db₁ db₂,
      applyRotation db request.registrationId desired request.now = .ok (rotation, db₁) ∧
      desired.credentials.foldlM (addCredential request.registrationId desired.state) db₁ =
        .ok db₂ ∧
      acknowledgement = ⟨request.registrationId, desired.revision, request.ackNow,
        rotation.map fun entry => fromUnixTimeMilliseconds entry.deadline⟩ ∧
      db' = { revokeUnlisted db₂ request.registrationId desired with
        registrations := Function.update db₂.registrations request.registrationId
          (some ⟨desired.revision, desired, acknowledgement⟩) } := by
  unfold change at h
  cases hrotation : applyRotation db request.registrationId desired request.now with
  | error e => simp [hrotation, Except.bind] at h
  | ok rotated =>
    obtain ⟨rotation, db₁⟩ := rotated
    simp only [hrotation, Except.bind] at h
    cases hadd : desired.credentials.foldlM
        (addCredential request.registrationId desired.state) db₁ with
    | error e => simp [hadd, Except.map] at h
    | ok db₂ =>
      simp only [hadd, Except.map, Except.ok.injEq, Prod.mk.injEq] at h
      obtain ⟨hack, hdb⟩ := h
      exact ⟨rotation, db₁, db₂, rfl, hadd, hack.symm, hack ▸ hdb.symm⟩

theorem applyRotation_ok {registrationId : Guid} {now : Nat} {rotation : Option RotationEntry}
    (h : applyRotation db registrationId desired now = .ok (rotation, db')) :
    db.Grown db' ∧ ∀ operation, desired.rotation = some operation →
      ∃ entry, rotation = some entry ∧ db'.rotations operation.operationId = some entry ∧
        (db.rotations operation.operationId = none →
          startRotation db registrationId operation now = .ok (entry, db')) := by
  unfold applyRotation at h
  cases hdesired : desired.rotation with
  | none =>
    simp only [hdesired, Except.ok.injEq, Prod.mk.injEq] at h
    exact ⟨h.2 ▸ .refl db, fun _ h => by cases h⟩
  | some operation =>
    simp only [hdesired] at h
    cases hrotate : rotate db registrationId desired operation now with
    | error e => simp [hrotate, Except.map] at h
    | ok rotated =>
      obtain ⟨entry, db₁⟩ := rotated
      simp only [hrotate, Except.map, Except.ok.injEq, Prod.mk.injEq] at h
      obtain ⟨rfl, rfl⟩ := h
      obtain ⟨hgrown, hknown, hstart⟩ := rotate_ok hrotate
      refine ⟨hgrown, fun operation' hop => ?_⟩
      cases hop
      exact ⟨entry, rfl, hknown, hstart⟩

theorem changed_of_change (hbody : request.body = some desired)
    (hvalid : RegistrationValidation.isValid desired = true)
    (hnewer : ∀ e, db.registrations request.registrationId = some e →
      e.revision < desired.revision ∧ e.desired.state ≠ .deleted)
    (h : change db request desired = .ok (acknowledgement, db')) :
    Changed db request desired acknowledgement db' := by
  -- the three passes grow the rows one after the other, and the last write is the registration's
  obtain ⟨rotation, db₁, db₂, hrotation, hadd, -, rfl⟩ := change_ok h
  obtain ⟨hgrown₁, hstart⟩ := applyRotation_ok hrotation
  have hgrown₂ := addCredentials_grown hadd
  have hgrown₃ := revokeUnlisted_grown db₂ request.registrationId desired
  have hgrown := hgrown₁.trans (hgrown₂.trans hgrown₃)
  constructor
  case body =>
    exact hbody
  case valid =>
    exact hvalid
  case newer =>
    exact hnewer
  case registrations =>
    show Function.update db₂.registrations _ _ = _
    rw [hgrown₂.registrations, hgrown₁.registrations]
  case credentials =>
    exact hgrown.credentials
  case rotations =>
    exact hgrown.rotations
  case recorded =>
    intro operation hoperation
    obtain ⟨entry, -, hknown, -⟩ := hstart operation hoperation
    obtain ⟨entry', hentry', -⟩ :=
      (hgrown₂.trans hgrown₃).rotations operation.operationId entry hknown
    exact ⟨entry', hentry'⟩
  case replaced =>
    intro operation hoperation hnone
    obtain ⟨entry, -, -, hstarted⟩ := hstart operation hoperation
    obtain ⟨⟨previous, -, -, -, -, -, hcredentials⟩, -⟩ := startRotation_ok (hstarted hnone)
    have hset : db₁.credentials operation.previousCredentialId =
        some { previous with expiresAt := some (overlapDeadline request.now) } := by
      rw [hcredentials]
      exact Function.update_self ..
    obtain ⟨c, hc, hextends⟩ :=
      (hgrown₂.trans hgrown₃).credentials operation.previousCredentialId _ hset
    exact ⟨c, hc, hextends.expiresAt _ rfl⟩

/-- An accepted request finds its body stored, or passes the checks of the stored revision. -/
theorem put_cases (h : put db request = .ok (acknowledgement, db')) :
    (∃ e, db.registrations request.registrationId = some e ∧ request.body = some e.desired ∧
      acknowledgement = e.acknowledgement ∧ db' = db) ∨
    ∃ desired, request.body = some desired ∧ RegistrationValidation.isValid desired = true ∧
      (∀ e, db.registrations request.registrationId = some e →
        e.revision < desired.revision ∧ e.desired.state ≠ .deleted) ∧
      change db request desired = .ok (acknowledgement, db') := by
  unfold put at h
  cases hbody : request.body with
  | none => simp [hbody] at h
  | some desired =>
    simp only [hbody] at h
    split at h
    · cases h
    rename_i hvalid
    simp only [Bool.or_eq_true, decide_eq_true_eq, not_or, Bool.not_eq_true', Bool.not_eq_false]
      at hvalid
    cases hexisting : db.registrations request.registrationId with
    | none =>
      simp only [hexisting] at h
      exact .inr ⟨desired, rfl, hvalid.2, fun e he => (by cases he), h⟩
    | some existing =>
      simp only [hexisting] at h
      split at h
      · rename_i hreplay
        simp only [Bool.and_eq_true, decide_eq_true_eq] at hreplay
        cases h
        exact .inl ⟨existing, rfl, by rw [hreplay.2], rfl, rfl⟩
      split at h
      · cases h
      · rename_i hnewer
        simp only [Bool.or_eq_true, decide_eq_true_eq, not_or, Int.not_le] at hnewer
        refine .inr ⟨desired, rfl, hvalid.2, fun e he => ?_, h⟩
        cases he
        exact hnewer

/-- An accepted request is the replay of what is stored, or a change. -/
theorem put_ok (h : put db request = .ok (acknowledgement, db')) :
    (∃ e, db.registrations request.registrationId = some e ∧ request.body = some e.desired ∧
      acknowledgement = e.acknowledgement ∧ db' = db) ∨
    ∃ desired, Changed db request desired acknowledgement db' := by
  cases put_cases h with
  | inl hreplay => exact .inl hreplay
  | inr hnew =>
    obtain ⟨desired, hbody, hvalid, hnewer, hchange⟩ := hnew
    exact .inr ⟨desired, changed_of_change hbody hvalid hnewer hchange⟩

theorem put_checked (h : put db request = .ok (acknowledgement, db')) :
    request.registrationId ≠ Guid.empty ∧ ∃ desired, request.body = some desired ∧
      RegistrationValidation.isValid desired = true := by
  unfold put at h
  cases hbody : request.body with
  | none => simp [hbody] at h
  | some desired =>
    simp only [hbody] at h
    split at h
    · cases h
    · rename_i hvalid
      simp only [Bool.or_eq_true, decide_eq_true_eq, not_or, Bool.not_eq_true', Bool.not_eq_false]
        at hvalid
      exact ⟨hvalid.1, desired, rfl, hvalid.2⟩

end

/-! ## Sequences of requests -/

/-- The database and the clock of the last request. -/
structure Gateway where
  db : RegistryDb
  clock : Nat

/-- The clock does not go back. -/
def gatewayStep (g : Gateway) (request : PutRequest) : Option Gateway :=
  if g.clock ≤ request.now ∧ request.now ≤ request.ackNow then
    some ⟨putSaved g.db request, request.ackNow⟩
  else none

def Gateway.fresh : Gateway := ⟨.empty, 0⟩

/-- What is stored of a registration is an accepted body. -/
structure RegistryDb.Sound (db : RegistryDb) : Prop where
  revision : ∀ id e, db.registrations id = some e → e.revision = e.desired.revision
  recorded : ∀ id e operation, db.registrations id = some e →
    e.desired.rotation = some operation → ∃ entry, db.rotations operation.operationId = some entry

section

variable {db : RegistryDb} {request : PutRequest} {g g' : Gateway}

/-- Case analysis of the saved database: nothing was written, or a change was. -/
theorem putSaved_cases (db : RegistryDb) (request : PutRequest) :
    putSaved db request = db ∨ ∃ desired acknowledgement,
      put db request = .ok (acknowledgement, putSaved db request) ∧
      Changed db request desired acknowledgement (putSaved db request) := by
  unfold putSaved
  cases hput : put db request with
  | error e => exact .inl rfl
  | ok answer =>
    obtain ⟨acknowledgement, db'⟩ := answer
    rcases put_ok hput with ⟨e, -, -, -, rfl⟩ | ⟨desired, hchanged⟩
    · exact .inl rfl
    · exact .inr ⟨desired, acknowledgement, rfl, hchanged⟩

theorem putSaved_sound (h : db.Sound) (request : PutRequest) : (putSaved db request).Sound := by
  rcases putSaved_cases db request with hsame | ⟨desired, acknowledgement, -, hchanged⟩
  · rw [hsame]
    exact h
  · constructor
    · intro id e he
      rw [hchanged.registrations] at he
      by_cases hid : id = request.registrationId
      · rw [hid, Function.update_self] at he
        cases he
        rfl
      · rw [Function.update_of_ne hid] at he
        exact h.revision id e he
    · intro id e operation he hoperation
      rw [hchanged.registrations] at he
      by_cases hid : id = request.registrationId
      · rw [hid, Function.update_self] at he
        cases he
        exact hchanged.recorded operation hoperation
      · rw [Function.update_of_ne hid] at he
        obtain ⟨entry, hentry⟩ := h.recorded id e operation he hoperation
        obtain ⟨entry', hentry', -⟩ := hchanged.rotations operation.operationId entry hentry
        exact ⟨entry', hentry'⟩

theorem gatewayStep_eq_some (h : gatewayStep g request = some g') :
    g' = ⟨putSaved g.db request, request.ackNow⟩ := by
  unfold gatewayStep at h
  split at h
  · exact (Option.some.inj h).symm
  · cases h

theorem sound_of_reachable (h : Reachable gatewayStep .fresh g) : g.db.Sound := by
  have hempty : Gateway.fresh.db.Sound := by
    constructor
    · intro id e he
      cases he
    · intro id e operation he
      cases he
  refine h.invariant (fun g => g.db.Sound) hempty ?_
  intro a request b hsound _ hstep
  rw [gatewayStep_eq_some hstep]
  exact putSaved_sound hsound request

/-- Credential rows grow along every run. -/
theorem credentials_grow (h : Reachable gatewayStep g g') (id : String) :
    Grows CredentialEntry.Extends (g.db.credentials id) (g'.db.credentials id) := by
  refine h.relates (fun a b => Grows CredentialEntry.Extends (a.db.credentials id)
    (b.db.credentials id)) (fun _ => .refl CredentialEntry.Extends.refl _)
    (fun _ _ _ hab hbc => hab.trans CredentialEntry.Extends.trans hbc) ?_
  intro a request b hstep
  rw [gatewayStep_eq_some hstep]
  rcases putSaved_cases a.db request with hsame | ⟨desired, acknowledgement, -, hchanged⟩
  · rw [hsame]
    exact .refl CredentialEntry.Extends.refl _
  · exact hchanged.credentials id

/-- A registration row stays, or gives way to one of a larger revision unless it is deleted. -/
def RegistrationEntry.Succeeds (e e' : RegistrationEntry) : Prop :=
  e' = e ∨ (e.revision < e'.revision ∧ e.desired.state ≠ .deleted)

theorem RegistrationEntry.Succeeds.trans (a b c : RegistrationEntry) (h : a.Succeeds b)
    (h' : b.Succeeds c) : a.Succeeds c := by
  rcases h with rfl | ⟨hlt, hstate⟩
  · exact h'
  · rcases h' with rfl | ⟨hlt', -⟩
    · exact .inr ⟨hlt, hstate⟩
    · exact .inr ⟨Int.lt_trans hlt hlt', hstate⟩

theorem registrations_grow (h : Reachable gatewayStep g g') (id : Guid) :
    Grows RegistrationEntry.Succeeds (g.db.registrations id) (g'.db.registrations id) := by
  refine h.relates (fun a b => Grows RegistrationEntry.Succeeds (a.db.registrations id)
    (b.db.registrations id)) (fun _ => .refl (fun _ => .inl rfl) _)
    (fun _ _ _ hab hbc => hab.trans RegistrationEntry.Succeeds.trans hbc) ?_
  intro a request b hstep
  rw [gatewayStep_eq_some hstep]
  rcases putSaved_cases a.db request with hsame | ⟨desired, acknowledgement, -, hchanged⟩
  · rw [hsame]
    exact .refl (fun _ => .inl rfl) _
  · show Grows _ _ ((putSaved a.db request).registrations id)
    rw [hchanged.registrations]
    exact grows_update (fun _ => .inl rfl) (fun e he => .inr (hchanged.newer e he)) id

/-! ## The ingestion check over a history -/

variable {sha256 : String → List Nat} {id authorization environment : String} {now : Nat}
  {desired : DesiredRegistration}

/-- Who is let in has a live credential row. -/
theorem authenticate_live
    (h : authenticate sha256 db authorization environment now = some (id, desired)) :
    ∃ c, db.credentials id = some c ∧ c.revoked = false ∧
      ∀ deadline, c.expiresAt = some deadline → toUnixTimeMilliseconds now < deadline := by
  unfold authenticate at h
  split at h
  · cases h
  split at h
  · cases h
  rename_i c hc
  split at h
  · cases h
  rename_i hlive
  split at h
  · cases h
  split at h
  · cases h
  cases h
  simp only [Bool.or_eq_true, not_or, decide_eq_true_eq, Bool.not_eq_true] at hlive
  refine ⟨c, hc, hlive.1.1, fun deadline hdeadline => ?_⟩
  have hexpires := hlive.1.2
  simp only [hdeadline, Option.any_some, decide_eq_false_iff_not] at hexpires
  omega

theorem not_authenticated_of_revoked {c : CredentialEntry} (hc : g.db.credentials id = some c)
    (hrevoked : c.revoked = true) (h : Reachable gatewayStep g g') :
    authenticate sha256 g'.db authorization environment now ≠ some (id, desired) := by
  intro hauth
  obtain ⟨c', hc', hlive, -⟩ := authenticate_live hauth
  obtain ⟨c'', hc'', hextends⟩ := credentials_grow h id c hc
  have hsame : c' = c'' := Option.some.inj (hc'.symm.trans hc'')
  rw [hsame, hextends.revoked hrevoked] at hlive
  cases hlive

theorem not_authenticated_of_expired {c : CredentialEntry} {deadline : Nat}
    (hc : g.db.credentials id = some c) (hdeadline : c.expiresAt = some deadline)
    (hnow : deadline ≤ toUnixTimeMilliseconds now) (h : Reachable gatewayStep g g') :
    authenticate sha256 g'.db authorization environment now ≠ some (id, desired) := by
  intro hauth
  obtain ⟨c', hc', -, hexpires⟩ := authenticate_live hauth
  obtain ⟨c'', hc'', hextends⟩ := credentials_grow h id c hc
  have hsame : c' = c'' := Option.some.inj (hc'.symm.trans hc'')
  have hlt := hexpires deadline (hsame ▸ hextends.expiresAt deadline hdeadline)
  omega

/-! ## Replays -/

/-- Nothing but `body` is accepted for the registration. -/
def OnlyAccepts (registrationId : Guid) (body : DesiredRegistration) (g : Gateway)
    (request : PutRequest) : Prop :=
  request.registrationId = registrationId → request.body ≠ some body →
    ∃ refusal, put g.db request = .error refusal

/-- The last accepted body, stored with its acknowledgement. -/
def Stored (registrationId : Guid) (body : DesiredRegistration)
    (acknowledgement : RegistrationAcknowledgement) (db : RegistryDb) : Prop :=
  db.registrations registrationId = some ⟨body.revision, body, acknowledgement⟩

theorem put_stored {acknowledgement : RegistrationAcknowledgement}
    (hstored : Stored request.registrationId desired acknowledgement db)
    (hbody : request.body = some desired) (hid : request.registrationId ≠ Guid.empty)
    (hvalid : RegistrationValidation.isValid desired = true) :
    put db request = .ok (acknowledgement, db) := by
  unfold put
  rw [hbody]
  dsimp only
  rw [if_neg (by simp [hid, hvalid]), hstored]
  dsimp only
  rw [if_pos (by simp)]

theorem stored_of_put {acknowledgement : RegistrationAcknowledgement} {db' : RegistryDb}
    (hsound : db.Sound) (hbody : request.body = some desired)
    (h : put db request = .ok (acknowledgement, db')) :
    Stored request.registrationId desired acknowledgement db' := by
  rcases put_ok h with ⟨e, he, hbody', rfl, rfl⟩ | ⟨desired', hchanged⟩
  · have hsame : desired = e.desired := Option.some.inj (hbody.symm.trans hbody')
    unfold Stored
    rw [he, hsame, ← hsound.revision _ e he]
  · have hsame : desired = desired' := Option.some.inj (hbody.symm.trans hchanged.body)
    unfold Stored
    rw [hchanged.registrations, hsame]
    exact Function.update_self ..

theorem stored_step {registrationId : Guid} {acknowledgement : RegistrationAcknowledgement}
    (hid : registrationId ≠ Guid.empty) (hvalid : RegistrationValidation.isValid desired = true)
    (hstored : Stored registrationId desired acknowledgement g.db)
    (honly : OnlyAccepts registrationId desired g request)
    (h : gatewayStep g request = some g') :
    Stored registrationId desired acknowledgement g'.db := by
  rw [gatewayStep_eq_some h]
  by_cases hregistration : request.registrationId = registrationId
  · subst hregistration
    -- the stored body is replayed; any other is refused, by the condition on the run
    by_cases hbody : request.body = some desired
    · simp only [putSaved, put_stored hstored hbody hid hvalid]
      exact hstored
    · obtain ⟨refusal, hput⟩ := honly rfl hbody
      simp only [putSaved, hput]
      exact hstored
  · show Stored registrationId desired acknowledgement (putSaved g.db request)
    rcases putSaved_cases g.db request with hsame | ⟨desired', acknowledgement', -, hchanged⟩
    · rw [hsame]
      exact hstored
    · unfold Stored
      rw [hchanged.registrations, Function.update_of_ne fun h => hregistration h.symm]
      exact hstored

end

/-! ## The history -/

/-- Over any two states of a history: revisions do not go down and a deleted registration stays as
it is; a request changes a registration only as an accepted one of a larger revision, and a refused
request changes nothing; the last accepted body is answered as it was; credential rows keep
registration and verifier, stay revoked and keep their end; and neither a revoked credential nor
one replaced a day ago is let in. -/
theorem registry_history (sha256 : String → List Nat) {g g' : Gateway}
    (hg : Reachable gatewayStep .fresh g) (h : Reachable gatewayStep g g') :
    (∀ id e, g.db.registrations id = some e → ∃ e', g'.db.registrations id = some e' ∧
      e.revision ≤ e'.revision ∧ (e.desired.state = .deleted → e' = e)) ∧
    (∀ request id, (putSaved g.db request).registrations id ≠ g.db.registrations id →
      request.registrationId = id ∧ ∃ desired acknowledgement, request.body = some desired ∧
        put g.db request = .ok (acknowledgement, putSaved g.db request) ∧
        (∀ e, g.db.registrations id = some e → e.revision < desired.revision) ∧
        Stored id desired acknowledgement (putSaved g.db request)) ∧
    (∀ request refusal, put g.db request = .error refusal → putSaved g.db request = g.db) ∧
    (∀ request body acknowledgement db', request.body = some body →
      put g.db request = .ok (acknowledgement, db') →
      ∀ g₁ g₂, gatewayStep g request = some g₁ →
        Reaches gatewayStep (OnlyAccepts request.registrationId body) g₁ g₂ →
        ∀ now ackNow, put g₂.db ⟨request.registrationId, some body, now, ackNow⟩ =
          .ok (acknowledgement, g₂.db)) ∧
    (∀ id c, g.db.credentials id = some c → ∃ c', g'.db.credentials id = some c' ∧
      c'.registrationId = c.registrationId ∧ c'.verifier = c.verifier ∧
      (c.revoked = true → c'.revoked = true) ∧
      ∀ deadline, c.expiresAt = some deadline → c'.expiresAt = some deadline) ∧
    (∀ id c, g.db.credentials id = some c → c.revoked = true →
      ∀ authorization environment now desired,
        authenticate sha256 g'.db authorization environment now ≠ some (id, desired)) ∧
    (∀ request body operation acknowledgement db', request.body = some body →
      body.rotation = some operation → g.db.rotations operation.operationId = none →
      put g.db request = .ok (acknowledgement, db') →
      ∀ g₁ g₂, gatewayStep g request = some g₁ → Reachable gatewayStep g₁ g₂ →
        ∀ authorization environment now desired, request.now + 24 * TICKS_PER_HOUR ≤ now →
          authenticate sha256 g₂.db authorization environment now ≠
            some (operation.previousCredentialId, desired)) := by
  have hsound : g.db.Sound := sound_of_reachable hg
  refine ⟨?_, ?_, ?_, ?_, ?_, ?_, ?_⟩
  · intro id e he
    obtain ⟨e', he', rfl | ⟨hlt, hstate⟩⟩ := registrations_grow h id e he
    · exact ⟨e', he', Int.le_refl _, fun _ => rfl⟩
    · exact ⟨e', he', Int.le_of_lt hlt, fun hdeleted => absurd hdeleted hstate⟩
  · intro request id hne
    rcases putSaved_cases g.db request with hsame | ⟨desired, acknowledgement, hput, hchanged⟩
    · exact absurd (by rw [hsame]) hne
    · have hid : id = request.registrationId := by
        -- an accepted change writes one registration
        by_contra hother
        exact hne (by rw [hchanged.registrations, Function.update_of_ne hother])
      subst hid
      exact ⟨rfl, desired, acknowledgement, hchanged.body, hput,
        fun e he => (hchanged.newer e he).1, stored_of_put hsound hchanged.body hput⟩
  · intro request refusal hput
    simp only [putSaved, hput]
  -- the body stays stored while nothing else is accepted, and a stored body is answered as it was
  · intro request body acknowledgement db' hbody hput g₁ g₂ hstep hrun now ackNow
    obtain ⟨hid, body', hbody', hvalid⟩ := put_checked hput
    have hsame : body' = body := Option.some.inj (hbody'.symm.trans hbody)
    have hstored : Stored request.registrationId body acknowledgement g₁.db := by
      rw [gatewayStep_eq_some hstep]
      simp only [putSaved, hput]
      exact stored_of_put hsound hbody hput
    have hkept : Stored request.registrationId body acknowledgement g₂.db :=
      hrun.invariant (fun g => Stored request.registrationId body acknowledgement g.db) hstored
        fun _ _ _ hstored honly hs => stored_step hid (hsame ▸ hvalid) hstored honly hs
    exact put_stored hkept rfl hid (hsame ▸ hvalid)
  · intro id c hc
    obtain ⟨c', hc', hextends⟩ := credentials_grow h id c hc
    exact ⟨c', hc', hextends.registrationId, hextends.verifier, hextends.revoked,
      hextends.expiresAt⟩
  · intro id c hc hrevoked authorization environment now desired
    exact not_authenticated_of_revoked hc hrevoked h
  · intro request body operation acknowledgement db' hbody hoperation hnew hput g₁ g₂ hstep hrun
      authorization environment now desired hnow
    have hreplaced : ∃ c, g₁.db.credentials operation.previousCredentialId = some c ∧
        c.expiresAt = some (overlapDeadline request.now) := by
      rw [gatewayStep_eq_some hstep]
      simp only [putSaved, hput]
      rcases put_ok hput with ⟨e, he, hbody', -, -⟩ | ⟨desired', hchanged⟩
      · -- a stored body's rotation is on record already
        have hsame : body = e.desired := Option.some.inj (hbody.symm.trans hbody')
        obtain ⟨entry, hentry⟩ := hsound.recorded _ e operation he (hsame ▸ hoperation)
        rw [hnew] at hentry
        cases hentry
      · have hsame : body = desired' := Option.some.inj (hbody.symm.trans hchanged.body)
        exact hchanged.replaced operation (hsame ▸ hoperation) hnew
    obtain ⟨c, hc, hdeadline⟩ := hreplaced
    have hpassed : overlapDeadline request.now ≤ toUnixTimeMilliseconds now :=
      Nat.div_le_div_right hnow
    exact not_authenticated_of_expired hc hdeadline hpassed hrun

/-! ## A rotation and a revocation -/

/-- The body a client's registration is sent with. -/
def desiredOf (revision : Int) (state : RegistrationState) (credentials : List DesiredCredential)
    (rotation : Option CredentialRotation) : DesiredRegistration where
  revision := revision
  clientId := "client"
  applicationId := "client"
  browserService := "client-browser"
  serverService := "client-server"
  environments := ["production"]
  state := state
  credentials := credentials
  rotation := rotation

/-- Sixty-four times the digit. -/
def verifierOf (digit : Char) : String := String.ofList (List.replicate 64 digit)

def rotationHistory : List PutRequest :=
  let first : DesiredCredential := ⟨"first", verifierOf 'a'⟩
  let second : DesiredCredential := ⟨"second", verifierOf 'b'⟩
  [⟨7, some (desiredOf 1 .enabled [first] none), 10, 10⟩,
    ⟨7, some (desiredOf 2 .enabled [first, second] (some ⟨9, "first", "second"⟩)), 20, 20⟩,
    ⟨7, some (desiredOf 3 .disabled [] none), 30, 30⟩]

/-- After the disabling request both credentials are revoked, and the history keeps them out. -/
theorem registry_history_disabled :
    ∃ g, Reachable gatewayStep .fresh g ∧
      ∃ c, g.db.credentials "second" = some c ∧ c.revoked = true ∧
        ∀ g', Reachable gatewayStep g g' → ∀ authorization environment now desired,
          authenticate (fun _ => []) g'.db authorization environment now ≠
            some ("second", desired) := by
  have hrun : ((run gatewayStep (fun _ _ => true) .fresh rotationHistory).bind
      (·.db.credentials "second")).map (·.revoked) = some true := by
    decide +kernel
  obtain ⟨c, hc, hrevoked⟩ := Option.map_eq_some_iff.mp hrun
  obtain ⟨g, hg, hrow⟩ := Option.bind_eq_some_iff.mp hc
  have hreach : Reachable gatewayStep .fresh g := reaches_of_run (fun _ _ _ => trivial) hg
  refine ⟨g, hreach, c, hrow, hrevoked, fun g' hg' => ?_⟩
  obtain ⟨-, -, -, -, -, hout, -⟩ := registry_history (fun _ => []) hreach hg'
  exact hout "second" c hrow hrevoked

end Wallow.Telemetry
