import Wallow.ApiKeys.Keys
import Wallow.Lib.Transition

/-!
# Revoking a key while it is used

One key, with its creation, its revocation by its owner or by `OrganizationDeletedHandler`, and any
number of validations, cut at their repository and Redis calls.  The revocation writes the row and
then deletes the entry; what is read from the row before and written to the cache after stays there
for as long as the key lives.
-/

namespace Wallow.ApiKeys

open Transition

/-- What a creation is asked for, with the key and the id it draws. -/
structure NewKey where
  apiKey : String
  id : Uuid
  userId : Uuid
  tenantId : Uuid
  name : String
  scopes : List String
  expiresAt : Option Instant
  deriving DecidableEq

inductive CreateStage
  | start
  /-- The row is persisted; the entry by hash is next. -/
  | caching
  | listing
  | cachingById
  | done (success : Bool)
  deriving DecidableEq

inductive RevokeStage
  /-- No call has been made, or the last one has returned `false` or thrown. -/
  | idle
  | revoking
  | deletingByHash
  | deletingById
  | removing
  /-- `RevokeApiKeyAsync` has returned `true`, or the handler has gone through its list. -/
  | completed
  deriving DecidableEq

inductive ValidateStage
  | start
  | missed
  /-- The row was read and is valid; the fill is next. -/
  | filling (data : ApiKeyData)
  | answered (result : ApiKeyValidationResult)
  deriving DecidableEq

/-- A call of `ValidateApiKeyAsync`; `late` when the revocation was complete at its start. -/
structure Validation where
  late : Bool
  stage : ValidateStage
  deriving DecidableEq

/-- The key's row and its cached entries, and the calls about it.  `updates` are the detached
`UpdateLastUsedAsync` tasks; `deleted` that this revocation has deleted the entry by hash, and
`listed` that a handler has listed the tenant's rows. -/
structure KeyRace where
  row : Option ApiKey
  byHash : Option ApiKeyData
  byId : Option ApiKeyData
  inUserSet : Bool
  now : Instant
  creation : CreateStage
  revocation : RevokeStage
  validations : List Validation
  updates : List ApiKeyData
  deleted : Bool
  listed : Bool

inductive RaceMove
  /-- The next call of the creation. -/
  | create
  | failCreate
  /-- `GetByIdAsync` of `RevokeApiKeyAsync`, under the context's tenant. -/
  | revokeApiKey (tenant userId : Uuid)
  /-- `ListByTenantAsync` of the handler. -/
  | organizationDeleted
  /-- The next call of the revocation. -/
  | revoke
  | failRevoke
  | validate
  /-- The next call of a validation, under its context's tenant. -/
  | act (i : Nat) (tenant : Uuid)
  | failValidate (i : Nat)
  | updateLastUsed (j : Nat)
  | lapse
  | tick (ticks : Nat)

namespace KeyRace

/-- The key does not exist yet. -/
def initial (now : Instant) : KeyRace :=
  ⟨none, none, none, false, now, .start, .idle, [], [], false, false⟩

variable (sha256Hex : String → String) (key : NewKey)

/-- The row and the metadata the creation writes, at the instant it persists the row. -/
def newRow (now : Instant) : ApiKey :=
  ApiKey.create key.id key.tenantId key.userId (sha256Hex key.apiKey) key.name key.scopes
    key.expiresAt now

def create (s : KeyRace) : Option KeyRace :=
  match s.creation with
  | .start =>
    if creatable key.name then
      some { s with row := some (newRow sha256Hex key s.now), creation := .caching }
    else some { s with creation := .done false }
  | .caching =>
    if settable key.expiresAt s.now then
      some { s with
        -- `When.Always`, whatever has become of the row since
        byHash := some ((newRow sha256Hex key s.now).metadata key.userId key.apiKey s.now)
        creation := .listing }
    else some { s with creation := .done false }
  | .listing => some { s with inUserSet := true, creation := .cachingById }
  | .cachingById =>
    if settable key.expiresAt s.now then
      some { s with
        byId := some ((newRow sha256Hex key s.now).metadata key.userId key.apiKey s.now)
        creation := .done true }
    else some { s with creation := .done false }
  | .done _ => none

/-- To the row's `RevokeAsync`, which a revoked row skips. -/
def startRevoking (s : KeyRace) (row : ApiKey) : KeyRace :=
  { s with revocation := if row.isRevoked then .deletingByHash else .revoking }

def revokeApiKey (s : KeyRace) (tenant userId : Uuid) : KeyRace :=
  match s.row.filter (·.tenantId = tenant) with
  | none => s
  | some row => if row.serviceAccountId ≠ userId.toString then s else s.startRevoking row

def organizationDeleted (s : KeyRace) : KeyRace :=
  match s.row with
  -- the handler has an empty list and is through; a row that comes later is passed over
  | none => { s with listed := true, revocation := .completed }
  | some row => { s with listed := true }.startRevoking row

def revoke (s : KeyRace) : Option KeyRace :=
  match s.revocation with
  | .revoking =>
    some { s with
      row := s.row.map ({ · with isRevoked := true })
      revocation := .deletingByHash }
  | .deletingByHash => some { s with byHash := none, deleted := true, revocation := .deletingById }
  | .deletingById => some { s with byId := none, revocation := .removing }
  | .removing => some { s with inUserSet := false, revocation := .completed }
  | .idle | .completed => none

def setStage (s : KeyRace) (i : Nat) (late : Bool) (stage : ValidateStage) : KeyRace :=
  { s with validations := s.validations.set i ⟨late, stage⟩ }

def act (s : KeyRace) (i : Nat) (tenant : Uuid) (v : Validation) : Option KeyRace :=
  match v.stage with
  | .start =>
    match s.byHash with
    | some data =>
      some { s.setStage i v.late (.answered (validateFromCachedData data s.now)) with
        -- the task for the time of use is started and not awaited
        updates := if isExpired data.expiresAt s.now then s.updates else s.updates ++ [data] }
    -- not found, or another owner's: `false`, and nothing has changed
    | none => some (s.setStage i v.late .missed)
  | .missed =>
    match validateFromRow (s.row.filter (·.tenantId = tenant)) (sha256Hex key.apiKey) s.now with
    | .inl result => some (s.setStage i v.late (.answered result))
    | .inr data => some (s.setStage i v.late (.filling data))
  | .filling data =>
    if settable data.expiresAt s.now then
      -- `When.Always` again: the row was read some calls ago
      some { s.setStage i v.late (.answered (.valid data)) with byHash := some data }
    else some (s.setStage i v.late (.answered .validationError))
  | .answered _ => none

/-- Both `SET`s leave alone what is no longer there. -/
def updateLastUsed (s : KeyRace) (j : Nat) (data : ApiKeyData) : KeyRace :=
  let used := { data with lastUsedAt := some s.now }
  { s with
    updates := s.updates.eraseIdx j
    byHash := if settable data.expiresAt s.now then s.byHash.map fun _ => used else s.byHash
    byId := if settable data.expiresAt s.now then s.byId.map fun _ => used else s.byId }

def step (s : KeyRace) : RaceMove → Option KeyRace
  | .create => s.create sha256Hex key
  | .failCreate =>
    match s.creation with
    | .done _ => none
    | _ => some { s with creation := .done false }
  | .revokeApiKey tenant userId =>
    if s.revocation = .idle then some (s.revokeApiKey tenant userId) else none
  | .organizationDeleted => if s.revocation = .idle then some s.organizationDeleted else none
  | .revoke => s.revoke
  | .failRevoke =>
    if s.revocation = .completed then none
    else some { s with revocation := .idle, deleted := false }
  | .validate =>
    some { s with
      validations := s.validations ++ [⟨decide (s.revocation = .completed), .start⟩] }
  | .act i tenant => s.validations[i]?.bind (s.act sha256Hex key i tenant)
  | .failValidate i => s.validations[i]?.bind fun v =>
      match v.stage with
      | .answered _ => none
      | _ => some (s.setStage i v.late (.answered .validationError))
  | .updateLastUsed j => s.updates[j]?.map (s.updateLastUsed j)
  | .lapse => some { s with byHash := none }
  | .tick ticks => some { s with now := s.now + ticks }

/-- Every call that starts once the revocation is complete is answered invalid. -/
def Refuses (s : KeyRace) : Prop :=
  ∀ v ∈ s.validations, v.late = true → ∀ result, v.stage = .answered result →
    result.isValid = false

/-- The entry by hash is not written once the revocation has deleted it, and the row not added once
the handler has listed the rows. -/
def inTime (s : KeyRace) : RaceMove → Bool
  | .create =>
    match s.creation with
    | .start => !s.listed
    | .caching => !s.deleted
    | _ => true
  | .act i _ =>
    match s.validations[i]? with
    | some ⟨_, .filling _⟩ => !s.deleted
    | _ => true
  | _ => true

/-! ## The invariant -/

/-- A call that starts late fills nothing, and is answered invalid. -/
def FindsNothing (v : Validation) : Prop :=
  match v.stage with
  | .start | .missed => True
  | .filling _ => v.late = false
  | .answered result => v.late = true → result.isValid = false

/-- The row is absent or revoked. -/
def Dead (s : KeyRace) : Prop :=
  ∀ row, s.row = some row → row.isRevoked = true

/-- Where the revocation stands, the row is revoked and the entry gone. -/
def Progress (s : KeyRace) : Prop :=
  match s.revocation with
  | .idle => s.deleted = false
  | .revoking => s.deleted = false ∧ s.row ≠ none
  | .deletingByHash => s.deleted = false ∧ s.row ≠ none ∧ s.Dead
  | .deletingById | .removing => s.deleted = true ∧ s.row ≠ none ∧ s.Dead
  | .completed => s.Dead ∧ (s.row = none → s.listed = true) ∧ (s.row ≠ none → s.deleted = true)

structure Sound (s : KeyRace) : Prop where
  progress : s.Progress
  gone : s.deleted = true → s.byHash = none
  absent : s.row = none → s.byHash = none ∧ s.creation ≠ .caching
  fills : ∀ v ∈ s.validations, ∀ data, v.stage = .filling data → s.row ≠ none
  late : ∀ v ∈ s.validations, v.late = true → s.revocation = .completed
  finds : ∀ v ∈ s.validations, FindsNothing v
  fresh : s.creation = .start → s.row = none

variable {sha256Hex key} {s s' : KeyRace} {v : Validation} {i : Nat} {tenant : Uuid}

theorem initial_sound (now : Instant) : (initial now).Sound where
  progress := rfl
  gone h := by cases h
  absent _ := ⟨rfl, by simp [initial]⟩
  fills v h := by cases h
  late v h := by cases h
  finds v h := by cases h
  fresh _ := rfl

/-- A complete revocation leaves no entry. -/
theorem Sound.byHash_none (h : s.Sound) (hdone : s.revocation = .completed) : s.byHash = none := by
  have hprogress := h.progress
  rw [Progress, hdone] at hprogress
  by_cases hrow : s.row = none
  · exact (h.absent hrow).1
  · exact h.gone (hprogress.2.2 hrow)

theorem Sound.dead (h : s.Sound) (hdone : s.revocation = .completed) : s.Dead := by
  have hprogress := h.progress
  rw [Progress, hdone] at hprogress
  exact hprogress.1

/-- A step that leaves the row, the revocation and the calls alone, and writes no entry. -/
theorem Sound.same (h : s.Sound) (hrow : s'.row = s.row)
    (hrevocation : s'.revocation = s.revocation)
    (hvalidations : s'.validations = s.validations) (hdeleted : s'.deleted = s.deleted)
    (hlisted : s'.listed = s.listed) (hbyHash : s.byHash = none → s'.byHash = none)
    (hcreation : s'.creation = s.creation ∨ s'.creation ≠ .caching ∧ s'.creation ≠ .start) :
    s'.Sound where
  progress := by
    have hold := h.progress
    unfold Progress Dead at hold ⊢
    rw [hrevocation, hrow, hdeleted, hlisted]
    exact hold
  gone hd := hbyHash (h.gone (hdeleted ▸ hd))
  absent hnone := by
    obtain ⟨hentry, hcaching⟩ := h.absent (hrow ▸ hnone)
    refine ⟨hbyHash hentry, ?_⟩
    cases hcreation with
    | inl hsame => exact hsame ▸ hcaching
    | inr hother => exact hother.1
  fills := by
    rw [hvalidations, hrow]
    exact h.fills
  late := by
    rw [hvalidations, hrevocation]
    exact h.late
  finds := by
    rw [hvalidations]
    exact h.finds
  fresh hstart := by
    rw [hrow]
    cases hcreation with
    | inl hsame => exact h.fresh (hsame ▸ hstart)
    | inr hother => exact absurd hstart hother.2

/-- A validation goes on. -/
theorem Sound.setStage (h : s.Sound) (stage : ValidateStage) (hi : s.validations[i]? = some v)
    (hfill : ∀ data, stage = .filling data → s.row ≠ none) (hfinds : FindsNothing ⟨v.late, stage⟩) :
    (s.setStage i v.late stage).Sound where
  progress := h.progress
  gone := h.gone
  absent := h.absent
  fills w hw data hdata := by
    cases List.mem_or_eq_of_mem_set hw with
    | inl hold => exact h.fills w hold data hdata
    | inr heq =>
      subst heq
      exact hfill data hdata
  late w hw hl := by
    cases List.mem_or_eq_of_mem_set hw with
    | inl hold => exact h.late w hold hl
    | inr heq =>
      subst heq
      exact h.late v (List.mem_of_getElem? hi) hl
  finds w hw := by
    cases List.mem_or_eq_of_mem_set hw with
    | inl hold => exact h.finds w hold
    | inr heq => exact heq ▸ hfinds
  fresh := h.fresh

/-! ## The creation -/

theorem Sound.create (h : s.Sound) (hguard : s.inTime .create = true)
    (hs : s.create sha256Hex key = some s') : s'.Sound := by
  unfold KeyRace.create at hs
  cases hstage : s.creation with
  | start =>
    have hrow : s.row = none := h.fresh hstage
    simp only [hstage] at hs
    split at hs
    · cases hs
      have hlisted : s.listed = false := by
        simp only [inTime, hstage, Bool.not_eq_true'] at hguard
        exact hguard
      refine ⟨?_, h.gone, fun hnone => ?_, fun v hv data hdata => Option.some_ne_none _, h.late,
        h.finds, fun hstart => ?_⟩
      rotate_left
      · cases hnone
      · cases hstart
      -- the row was absent, and no handler has passed over it
      have hprogress := h.progress
      unfold Progress at hprogress ⊢
      cases hrevocation : s.revocation with
      | idle =>
        rw [hrevocation] at hprogress
        exact hprogress
      | completed =>
        rw [hrevocation] at hprogress
        rw [hprogress.2.1 hrow] at hlisted
        cases hlisted
      | revoking =>
        rw [hrevocation] at hprogress
        exact absurd hrow hprogress.2
      | deletingByHash | deletingById | removing =>
        rw [hrevocation] at hprogress
        exact absurd hrow hprogress.2.1
    · cases hs
      exact h.same rfl rfl rfl rfl rfl (fun hnone => hnone) (Or.inr (by simp))
  | caching =>
    -- the guard: the entry has not been deleted, so a write cannot bring one back
    have hdeleted : ¬ s.deleted = true := by
      simp only [inTime, hstage, Bool.not_eq_true'] at hguard
      rw [hguard]
      exact Bool.false_ne_true
    simp only [hstage] at hs
    split at hs
    · cases hs
      refine ⟨h.progress, fun hd => absurd hd hdeleted, fun hnone => ?_, h.fills, h.late, h.finds,
        fun hstart => ?_⟩
      · exact absurd hstage (h.absent hnone).2
      · cases hstart
    · cases hs
      exact h.same rfl rfl rfl rfl rfl (fun hnone => hnone) (Or.inr (by simp))
  | listing =>
    simp only [hstage] at hs
    cases hs
    exact h.same rfl rfl rfl rfl rfl (fun hnone => hnone) (Or.inr (by simp))
  | cachingById =>
    simp only [hstage] at hs
    split at hs
    · cases hs
      exact h.same rfl rfl rfl rfl rfl (fun hnone => hnone) (Or.inr (by simp))
    · cases hs
      exact h.same rfl rfl rfl rfl rfl (fun hnone => hnone) (Or.inr (by simp))
  | done success =>
    simp only [hstage] at hs
    cases hs

/-! ## The revocation -/

/-- The revocation moves while it is under way: no call has started late. -/
theorem Sound.revocation (h : s.Sound) (hrunning : s.revocation ≠ .completed)
    (hprogress : s'.Progress) (hvalidations : s'.validations = s.validations)
    (hrow : s'.row = none ↔ s.row = none)
    (hbyHash : s.byHash = none → s'.byHash = none) (hgone : s'.deleted = true → s'.byHash = none)
    (hcreation : s'.creation = s.creation) : s'.Sound where
  progress := hprogress
  gone := hgone
  absent hnone := by
    obtain ⟨hentry, hcaching⟩ := h.absent (hrow.mp hnone)
    exact ⟨hbyHash hentry, hcreation ▸ hcaching⟩
  fills v hv data hdata hnone := by
    rw [hvalidations] at hv
    exact h.fills v hv data hdata (hrow.mp hnone)
  late v hv hl := by
    rw [hvalidations] at hv
    exact absurd (h.late v hv hl) hrunning
  finds := by
    rw [hvalidations]
    exact h.finds
  fresh hstart := hrow.mpr (h.fresh (hcreation ▸ hstart))

theorem Sound.startRevoking (h : s.Sound) (hidle : s.revocation = .idle) {row : ApiKey}
    (hrow : s.row = some row) : (s.startRevoking row).Sound := by
  have hdeleted : s.deleted = false := by
    have hprogress := h.progress
    rw [Progress, hidle] at hprogress
    exact hprogress
  refine h.revocation (by rw [hidle]; simp) ?_ rfl Iff.rfl (fun hnone => hnone) h.gone rfl
  unfold Progress KeyRace.startRevoking
  by_cases hrevoked : row.isRevoked = true
  · simp only [hrevoked, if_true]
    refine ⟨hdeleted, by rw [hrow]; simp, fun row' hrow' => ?_⟩
    rw [hrow, Option.some.injEq] at hrow'
    exact hrow' ▸ hrevoked
  · simp only [hrevoked]
    exact ⟨hdeleted, by rw [hrow]; simp⟩

theorem Sound.revokeApiKey (h : s.Sound) (hidle : s.revocation = .idle) (userId : Uuid) :
    (s.revokeApiKey tenant userId).Sound := by
  unfold KeyRace.revokeApiKey
  cases hfind : s.row.filter (·.tenantId = tenant) with
  | none => exact h
  | some row =>
    have hrow : s.row = some row := (Option.filter_eq_some_iff.mp hfind).1
    dsimp only
    split
    · exact h
    · exact h.startRevoking hidle hrow

theorem Sound.organizationDeleted (h : s.Sound) (hidle : s.revocation = .idle) :
    s.organizationDeleted.Sound := by
  have hrunning : s.revocation ≠ .completed := by
    rw [hidle]
    simp
  have hlisted : ({ s with listed := true } : KeyRace).Sound := by
    refine h.revocation hrunning ?_ rfl Iff.rfl (fun hnone => hnone) h.gone rfl
    have hprogress := h.progress
    unfold Progress at hprogress ⊢
    rw [hidle] at hprogress ⊢
    exact hprogress
  cases hrow : s.row with
  | none =>
    have heq : s.organizationDeleted = { s with listed := true, revocation := .completed } := by
      simp only [KeyRace.organizationDeleted, hrow]
    rw [heq]
    refine h.revocation hrunning ?_ rfl Iff.rfl (fun hnone => hnone) h.gone rfl
    refine ⟨fun row hsome => ?_, fun _ => rfl, fun hne => absurd hrow hne⟩
    change s.row = some row at hsome
    rw [hrow] at hsome
    cases hsome
  | some row =>
    have heq : s.organizationDeleted = ({ s with listed := true } : KeyRace).startRevoking row := by
      simp only [KeyRace.organizationDeleted, hrow]
    rw [heq]
    exact hlisted.startRevoking hidle hrow

theorem Sound.revoke (h : s.Sound) (hs : s.revoke = some s') : s'.Sound := by
  have hprogress := h.progress
  unfold KeyRace.revoke at hs
  unfold Progress at hprogress
  cases hstage : s.revocation with
  | revoking =>
    simp only [hstage] at hs hprogress
    cases hs
    refine h.revocation (by rw [hstage]; simp) ?_ rfl ?_ (fun hnone => hnone) h.gone rfl
    · refine ⟨hprogress.1, ?_, fun row hrow => ?_⟩
      · simp [hprogress.2]
      -- every row there is has just been revoked
      · obtain ⟨row₀, -, rfl⟩ := Option.map_eq_some_iff.mp hrow
        rfl
    · simp
  | deletingByHash =>
    simp only [hstage] at hs hprogress
    cases hs
    exact h.revocation (by rw [hstage]; simp) ⟨rfl, hprogress.2.1, hprogress.2.2⟩ rfl Iff.rfl
      (fun _ => rfl) (fun _ => rfl) rfl
  | deletingById =>
    simp only [hstage] at hs hprogress
    cases hs
    exact h.revocation (by rw [hstage]; simp) hprogress rfl Iff.rfl (fun hnone => hnone) h.gone rfl
  | removing =>
    simp only [hstage] at hs hprogress
    cases hs
    exact h.revocation (by rw [hstage]; simp)
      ⟨hprogress.2.2, fun hnone => absurd hnone hprogress.2.1, fun _ => hprogress.1⟩ rfl Iff.rfl
      (fun hnone => hnone) h.gone rfl
  | idle | completed =>
    simp only [hstage] at hs
    cases hs

/-! ## The validations -/

theorem validateFromRow_invalid {row : Option ApiKey} {hash : String} {now : Instant}
    {result : ApiKeyValidationResult} (h : validateFromRow row hash now = .inl result) :
    result.isValid = false := by
  unfold validateFromRow at h
  split at h
  · cases h
    rfl
  · split at h
    · cases h
      rfl
    · split at h
      · cases h
        rfl
      · cases h

theorem validateFromRow_fills {row : Option ApiKey} {hash : String} {now : Instant}
    {data : ApiKeyData} (h : validateFromRow row hash now = .inr data) :
    ∃ r, row = some r ∧ r.isRevoked = false := by
  unfold validateFromRow at h
  split at h
  · cases h
  · rename_i r
    split at h
    · cases h
    · rename_i hrevoked
      exact ⟨r, rfl, Bool.not_eq_true _ ▸ hrevoked⟩

theorem Sound.act (h : s.Sound) (hi : s.validations[i]? = some v)
    (hguard : s.inTime (.act i tenant) = true) (hs : s.act sha256Hex key i tenant v = some s') :
    s'.Sound := by
  have hmem : v ∈ s.validations := List.mem_of_getElem? hi
  unfold KeyRace.act at hs
  cases hstage : v.stage with
  | start =>
    simp only [hstage] at hs
    cases hentry : s.byHash with
    | some data =>
      simp only [hentry] at hs
      cases hs
      have hset : (s.setStage i v.late (.answered (validateFromCachedData data s.now))).Sound := by
        refine h.setStage _ hi (fun data hdata => by cases hdata) fun hl => ?_
        -- a call that starts late finds no entry
        rw [h.byHash_none (h.late v hmem hl)] at hentry
        cases hentry
      exact hset.same rfl rfl rfl rfl rfl (fun hnone => hnone) (Or.inl rfl)
    | none =>
      simp only [hentry] at hs
      cases hs
      exact h.setStage _ hi (fun data hdata => by cases hdata) trivial
  | missed =>
    simp only [hstage] at hs
    cases hrow : validateFromRow (s.row.filter (·.tenantId = tenant)) (sha256Hex key.apiKey)
        s.now with
    | inl result =>
      simp only [hrow] at hs
      cases hs
      exact h.setStage _ hi (fun data hdata => by cases hdata) fun _ => validateFromRow_invalid hrow
    | inr data =>
      simp only [hrow] at hs
      cases hs
      obtain ⟨row, hfind, hlive⟩ := validateFromRow_fills hrow
      have hsome : s.row = some row := (Option.filter_eq_some_iff.mp hfind).1
      refine h.setStage _ hi (fun data hdata => by rw [hsome]; simp) ?_
      show v.late = false
      rw [Bool.eq_false_iff]
      intro hl
      rw [h.dead (h.late v hmem hl) row hsome] at hlive
      cases hlive
  | filling data =>
    have hdeleted : ¬ s.deleted = true := by
      obtain ⟨late, stage⟩ := v
      subst hstage
      simp only [inTime, hi, Bool.not_eq_true'] at hguard
      rw [hguard]
      exact Bool.false_ne_true
    have hlate : v.late = false := by
      have hfinds := h.finds v hmem
      rw [FindsNothing, hstage] at hfinds
      exact hfinds
    have hanswered : ∀ result, (s.setStage i v.late (.answered result)).Sound := by
      intro result
      refine h.setStage _ hi (fun data hdata => by cases hdata) fun hl => ?_
      rw [hlate] at hl
      cases hl
    simp only [hstage] at hs
    split at hs
    · cases hs
      -- the write meets no deleted entry, and a filling call did not start late
      have hset := hanswered (.valid data)
      exact ⟨hset.progress, fun hd => absurd hd hdeleted, fun hnone =>
        absurd hnone (h.fills v hmem data hstage), hset.fills, hset.late, hset.finds, hset.fresh⟩
    · cases hs
      exact hanswered .validationError
  | answered result =>
    simp only [hstage] at hs
    cases hs

/-! ## Runs -/

theorem step_sound {m : RaceMove} (h : s.Sound) (hguard : s.inTime m = true)
    (hs : step sha256Hex key s m = some s') : s'.Sound := by
  cases m with
  | create => exact h.create hguard hs
  | failCreate =>
    have hfailed : ({ s with creation := .done false } : KeyRace).Sound :=
      h.same rfl rfl rfl rfl rfl (fun hnone => hnone) (Or.inr (by simp))
    simp only [step] at hs
    split at hs
    · cases hs
    · exact Option.some.inj hs ▸ hfailed
  | revokeApiKey tenant userId =>
    simp only [step, Option.ite_none_right_eq_some, Option.some.injEq] at hs
    exact hs.2 ▸ h.revokeApiKey hs.1 userId
  | organizationDeleted =>
    simp only [step, Option.ite_none_right_eq_some, Option.some.injEq] at hs
    exact hs.2 ▸ h.organizationDeleted hs.1
  | revoke => exact h.revoke hs
  | failRevoke =>
    simp only [step, Option.ite_none_left_eq_some, Option.some.injEq] at hs
    rw [← hs.2]
    exact h.revocation hs.1 rfl rfl Iff.rfl (fun hnone => hnone) (fun hd => by cases hd) rfl
  | validate =>
    cases hs
    refine ⟨h.progress, h.gone, h.absent, fun v hv data hdata => ?_, fun v hv hl => ?_,
      fun v hv => ?_, h.fresh⟩
    · cases List.mem_append.mp hv with
      | inl hold => exact h.fills v hold data hdata
      | inr hnew =>
        rw [List.mem_singleton.mp hnew] at hdata
        cases hdata
    · cases List.mem_append.mp hv with
      | inl hold => exact h.late v hold hl
      | inr hnew =>
        rw [List.mem_singleton.mp hnew] at hl
        exact of_decide_eq_true hl
    · cases List.mem_append.mp hv with
      | inl hold => exact h.finds v hold
      | inr hnew =>
        rw [List.mem_singleton.mp hnew]
        trivial
  | act i tenant =>
    obtain ⟨v, hi, hact⟩ := Option.bind_eq_some_iff.mp hs
    exact h.act hi hguard hact
  | failValidate i =>
    obtain ⟨v, hi, hfail⟩ := Option.bind_eq_some_iff.mp hs
    have hfailed : (s.setStage i v.late (.answered .validationError)).Sound :=
      h.setStage _ hi (fun data hdata => by cases hdata) fun _ => rfl
    split at hfail
    · cases hfail
    · exact Option.some.inj hfail ▸ hfailed
  | updateLastUsed j =>
    obtain ⟨data, -, rfl⟩ := Option.map_eq_some_iff.mp hs
    refine h.same rfl rfl rfl rfl rfl (fun hnone => ?_) (Or.inl rfl)
    simp only [KeyRace.updateLastUsed, hnone, Option.map_none, ite_self]
  | lapse =>
    cases hs
    exact h.same rfl rfl rfl rfl rfl (fun _ => rfl) (Or.inl rfl)
  | tick ticks =>
    cases hs
    exact h.same rfl rfl rfl rfl rfl (fun hnone => hnone) (Or.inl rfl)

theorem Sound.refuses (h : s.Sound) : s.Refuses := by
  intro v hv hl result hstage
  have hfinds := h.finds v hv
  rw [FindsNothing, hstage] at hfinds
  exact hfinds hl

/-- In every run in which the entry by hash is not written after the revocation has deleted it, and
the row is not added after the handler has listed the rows, every validation that starts once the
revocation is complete is answered invalid. -/
theorem revoked_key_refused (sha256Hex : String → String) (key : NewKey) (now : Instant)
    (s : KeyRace)
    (h : Reaches (step sha256Hex key) (fun s m => s.inTime m = true) (initial now) s) :
    s.Refuses := by
  have hsound : s.Sound := h.invariant Sound (initial_sound now)
    fun _ _ _ ha hg hs => step_sound ha hg hs
  exact hsound.refuses

/-- A key of user 5 in tenant 7, without an expiry. -/
def ciKey : NewKey := ⟨"sk_live_abcdefghij", 1, 5, 7, "ci", ["inquiries.read"], none⟩

/-- The last call started once the revocation was complete, and passed as `accepted`. -/
def lastLate (accepted : Bool) (s : KeyRace) : Bool :=
  match s.validations.getLast? with
  | some ⟨true, .answered result⟩ => result.isValid == accepted
  | _ => false

/-- The key is created, used, revoked by its owner, and presented again. -/
def usedThenRevoked : List RaceMove :=
  [.create, .create, .create, .create, .validate, .act 0 0, .updateLastUsed 0, .revokeApiKey 7 5,
    .revoke, .revoke, .revoke, .revoke, .validate, .act 1 7, .act 1 7]

theorem revoked_key_refused_again : ∃ s : KeyRace, s.lastLate false = true ∧ s.Refuses := by
  have hrun : (run (step id ciKey) inTime (initial 0) usedThenRevoked).any (lastLate false) =
      true := by decide +kernel
  obtain ⟨s, hreach, hlast⟩ := exists_reaches_of_run (fun _ _ hm => hm) hrun
  exact ⟨s, hlast, revoked_key_refused id ciKey 0 s hreach⟩

/-- A validation has read the row; the key is revoked; the validation fills the cache. -/
def filledAfter : List RaceMove :=
  [.create, .create, .create, .create, .lapse, .validate, .act 0 7, .act 0 7, .revokeApiKey 7 5,
    .revoke, .revoke, .revoke, .revoke, .act 0 7, .validate, .act 1 7]

/-- The organization is deleted between the creation's insert and its first `SET`. -/
def cachedAfter : List RaceMove :=
  [.create, .organizationDeleted, .revoke, .revoke, .revoke, .revoke, .create, .validate, .act 0 0]

theorem lastLate_not_refuses {s : KeyRace} (h : s.lastLate true = true) : ¬ s.Refuses := by
  intro hall
  unfold lastLate at h
  split at h
  · rename_i result hlast
    have hinvalid := hall _ (List.mem_of_getLast? hlast) rfl result rfl
    rw [hinvalid] at h
    cases h
  · cases h

theorem revoked_key_accepted :
    (∃ s, follow (step id ciKey) (initial 0) filledAfter = some s ∧ ¬ s.Refuses) ∧
      ∃ s, follow (step id ciKey) (initial 0) cachedAfter = some s ∧ ¬ s.Refuses := by
  have hfilled : (follow (step id ciKey) (initial 0) filledAfter).any (lastLate true) = true := by
    decide +kernel
  have hcached : (follow (step id ciKey) (initial 0) cachedAfter).any (lastLate true) = true := by
    decide +kernel
  obtain ⟨s, hs, hlast⟩ := (Option.any_eq_true _ _).mp hfilled
  obtain ⟨u, hu, hlast'⟩ := (Option.any_eq_true _ _).mp hcached
  exact ⟨⟨s, hs, lastLate_not_refuses hlast⟩, u, hu, lastLate_not_refuses hlast'⟩

end KeyRace

end Wallow.ApiKeys
