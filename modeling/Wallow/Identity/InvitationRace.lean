import Wallow.Identity.LastOwner

/-!
# Concurrent calls on one invitation

`AcceptInvitationAsync`, `RevokeInvitationAsync`, `CleanupExpiredAsync` and the renewal of
`CreateInvitationAsync`, cut at their database reads and their commit.  A save writes the columns
the call changed on the copy it read; the invitation row has no concurrency token, so nothing asks
whether that copy is still current.  A membership saved with it has one (`xmin`).
-/

namespace Wallow.Identity

open Transition RowStore

/-! ## The entity -/

namespace Invitation

private def requirePending (invitation : Invitation) (verb : String) (changed : Invitation) :
    Except DomainException Invitation :=
  if invitation.status ≠ .pending then
    .error ⟨IdentityErrors.invitationNotPending,
      "Cannot " ++ verb ++ " invitation with status '" ++ invitation.status.name ++ "'"⟩
  else .ok changed

def renew (invitation : Invitation) (expiresAt : Instant) : Except DomainException Invitation :=
  invitation.requirePending "renew" { invitation with expiresAt := expiresAt }

def revoke (invitation : Invitation) : Except DomainException Invitation :=
  invitation.requirePending "revoke" { invitation with status := .revoked }

def markExpired (invitation : Invitation) : Except DomainException Invitation :=
  invitation.requirePending "expire" { invitation with status := .expired }

/-- The columns of an `UPDATE`: what the change tracker finds different from the copy read. -/
structure Changes where
  status : Option InvitationStatus
  expiresAt : Option Instant
  acceptedByUserId : Option (Option Guid)
  deriving DecidableEq

def changes (read saved : Invitation) : Changes where
  status := if saved.status = read.status then none else some saved.status
  expiresAt := if saved.expiresAt = read.expiresAt then none else some saved.expiresAt
  acceptedByUserId :=
    if saved.acceptedByUserId = read.acceptedByUserId then none else some saved.acceptedByUserId

def update (row : Invitation) (changes : Changes) : Invitation :=
  { row with
    status := changes.status.getD row.status
    expiresAt := changes.expiresAt.getD row.expiresAt
    acceptedByUserId := changes.acceptedByUserId.getD row.acceptedByUserId }

end Invitation

/-! ## The calls and the database -/

inductive InvitationCall
  | accept (userId : Guid)
  | revoke
  | cleanupExpired
  | renew (expiresAt : Instant)
  deriving DecidableEq

/-- The membership an acceptance saves, with the row it read, if there was one. -/
structure Joining where
  existing : Option MembershipRow
  saved : Membership
  deriving DecidableEq

inductive InvitationStage
  | start
  /-- An acceptance has read the invitation; the user is next. -/
  | loaded (read : Invitation)
  /-- The invitation is accepted in memory; the membership is next. -/
  | accepted (read saved : Invitation)
  | saving (read saved : Invitation) (joining : Option Joining)
      (outcome : Except DomainException Unit)
  | finished (outcome : Except Thrown Unit)

/-- A committed save: the status and the membership it wrote. -/
structure InvitationCommit where
  caller : Nat
  status : Option InvitationStatus
  membership : Option Membership
  deriving DecidableEq

/-- The invitation, the memberships of its organization, the calls running on them, and the
commits so far. -/
structure InvitationDb where
  invitation : Invitation
  table : Table Membership.id
  nextXid : Nat
  stage : Nat → InvitationStage
  commits : List InvitationCommit

inductive InvitationMove
  /-- The next read or commit of a call; `env` is what its other reads find. -/
  | act (p : Nat) (env : Surroundings) (now : Instant)
  | cancel (p : Nat)
  /-- Another service commits a change of the organization's memberships. -/
  | write (write : Write)

namespace InvitationDb

def initial (invitation : Invitation) (table : Table Membership.id) : InvitationDb :=
  ⟨invitation, table, 0, fun _ => .start, []⟩

def enter (s : InvitationDb) (p : Nat) (stage : InvitationStage) : InvitationDb :=
  { s with stage := Function.update s.stage p stage }

def finish (s : InvitationDb) (p : Nat) (outcome : Except Thrown Unit) : InvitationDb :=
  s.enter p (.finished outcome)

/-- To the save of what the entity's method returned, or to what it threw. -/
def saveOrThrow (s : InvitationDb) (p : Nat) (read : Invitation) :
    Except DomainException Invitation → InvitationDb
  | .error e => s.finish p (.error (.domain e))
  | .ok saved => s.enter p (.saving read saved none (.ok ()))

/-- The first read of each call. -/
def load (s : InvitationDb) (p : Nat) (now : Instant) : InvitationCall → InvitationDb
  | .accept _ => s.enter p (.loaded s.invitation)
  | .revoke => s.saveOrThrow p s.invitation s.invitation.revoke
  | .cleanupExpired =>
    if s.invitation.status = .pending ∧ s.invitation.expiresAt ≤ now then
      s.saveOrThrow p s.invitation s.invitation.markExpired
    else s.finish p (.ok ())
  | .renew expiresAt =>
    -- no outstanding invitation is found: the call makes another one
    if s.invitation.status = .pending then
      s.saveOrThrow p s.invitation (s.invitation.renew expiresAt)
    else s.finish p (.ok ())

variable (toUpperInvariant : String → String)

/-- The user is read, and the invitation accepted in memory; a refusal saves what the entity
changed before it threw. -/
def acceptLoaded (s : InvitationDb) (p : Nat) (userId : Guid) (env : Surroundings) (now : Instant)
    (read : Invitation) : InvitationDb :=
  match guardInvitedIdentity toUpperInvariant env.user read with
  | .error e => s.finish p (.error (.domain e))
  | .ok () =>
    match read.accept userId now with
    | (saved, .error e) => s.enter p (.saving read saved none (.error e))
    | (saved, .ok ()) => s.enter p (.accepted read saved)

/-- The membership is read and the change to it decided. -/
def join (s : InvitationDb) (p : Nat) (userId : Guid) (env : Surroundings) (now : Instant)
    (read saved : Invitation) : InvitationDb :=
  let existing := s.table.rows.find? (·.value.userId = userId)
  match applyMembership env (existing.map (·.value)) userId read.tenantId now with
  | .error e => s.finish p (.error (.domain e))
  | .ok none => s.enter p (.saving read saved none (.ok ()))
  | .ok (some membership) => s.enter p (.saving read saved (some ⟨existing, membership⟩) (.ok ()))

/-- The membership part of the save goes through: the row read is still current, or the keys of
the new row are free. -/
def Joinable (s : InvitationDb) : Option Joining → Prop
  | none => True
  | some ⟨some row, _⟩ => s.table.Current row.value.id row.version
  | some ⟨none, saved⟩ =>
    ∀ r ∈ s.table.rows, r.value.id ≠ saved.id ∧ r.value.userId ≠ saved.userId

instance (s : InvitationDb) : (joining : Option Joining) → Decidable (s.Joinable joining)
  | none => inferInstanceAs (Decidable True)
  | some ⟨some row, _⟩ => inferInstanceAs (Decidable (s.table.Current row.value.id row.version))
  | some ⟨none, _⟩ => inferInstanceAs (Decidable (∀ r ∈ s.table.rows, _))

def joinTable (s : InvitationDb) : Option Joining → Table Membership.id
  | none => s.table
  | some ⟨some _, saved⟩ => s.table.update saved s.nextXid
  | some ⟨none, saved⟩ => s.table.insert saved s.nextXid

/-- `SaveChangesAsync`: both rows in one transaction, or neither. -/
def save (s : InvitationDb) (p : Nat) (read saved : Invitation) (joining : Option Joining)
    (outcome : Except DomainException Unit) : InvitationDb :=
  if s.Joinable joining then
    { s with
      invitation := s.invitation.update (read.changes saved)
      table := s.joinTable joining
      nextXid := s.nextXid + 1
      stage := Function.update s.stage p (.finished (outcome.mapError .domain))
      commits := s.commits ++ [⟨p, (read.changes saved).status, joining.map (·.saved)⟩] }
  else s.finish p (.error .conflict)

def advance (s : InvitationDb) (p : Nat) (call : InvitationCall) (env : Surroundings)
    (now : Instant) : InvitationStage → Option InvitationDb
  | .start => some (s.load p now call)
  | .loaded read =>
    match call with
    | .accept userId => some (s.acceptLoaded toUpperInvariant p userId env now read)
    | _ => none
  | .accepted read saved =>
    match call with
    | .accept userId => some (s.join p userId env now read saved)
    | _ => none
  | .saving read saved joining outcome => some (s.save p read saved joining outcome)
  | .finished _ => none

def step (calls : Nat → InvitationCall) (s : InvitationDb) : InvitationMove → Option InvitationDb
  | .act p env now => s.advance toUpperInvariant p (calls p) env now (s.stage p)
  | .cancel p =>
    match s.stage p with
    | .finished _ => none
    | _ => some (s.finish p (.error .cancelled))
  | .write write =>
    some { s with
      table := MembershipDb.apply s.table s.nextXid write
      nextXid := s.nextXid + 1 }

/-! ## What must hold of the commits -/

/-- Every status ever committed is still the invitation's, and no membership is saved after a
revocation has committed. -/
def SettlesOnce (calls : Nat → InvitationCall) (s : InvitationDb) : Prop :=
  (∀ c ∈ s.commits, ∀ status, c.status = some status → s.invitation.status = status) ∧
  ∀ before revocation after, s.commits = before ++ revocation :: after →
    calls revocation.caller = .revoke → ∀ c ∈ after, c.membership = none

/-- A save that commits a status finds the invitation still pending, or already in that status. -/
def savesFresh (s : InvitationDb) : InvitationMove → Bool
  | .act p _ _ =>
    match s.stage p with
    | .saving read saved joining _ =>
      !decide (s.Joinable joining) || (read.changes saved).status.all fun status =>
        s.invitation.status = .pending || s.invitation.status = status
    | _ => true
  | _ => true

/-! ## What the entity's methods return -/

section

variable {invitation saved : Invitation}

theorem changes_status (read saved : Invitation) : (read.changes saved).status =
    if saved.status = read.status then none else some saved.status := rfl

theorem changes_status_ne {status : InvitationStatus} (hread : invitation.status = .pending)
    (hsaved : saved.status = status) (hne : status ≠ .pending) :
    (invitation.changes saved).status = some status := by
  have h : saved.status ≠ invitation.status := by
    rw [hread, hsaved]
    exact hne
  rw [changes_status, if_neg h, hsaved]

theorem accept_ok {userId : Guid} {now : Instant}
    (h : invitation.accept userId now = (saved, .ok ())) :
    invitation.status = .pending ∧ saved.status = .accepted := by
  unfold Invitation.accept at h
  split at h
  · cases h
  · rename_i hpending
    split at h
    · cases h
    · cases h
      exact ⟨not_not.mp hpending, rfl⟩

/-- A refused acceptance leaves the status, or marks the invitation expired. -/
theorem accept_error {userId : Guid} {now : Instant} {e : DomainException}
    (h : invitation.accept userId now = (saved, .error e)) :
    (invitation.changes saved).status ≠ some .pending := by
  unfold Invitation.accept at h
  split at h
  · cases h
    simp [changes_status]
  · split at h
    · cases h
      rw [changes_status]
      split
      · exact nofun
      · exact nofun
    · cases h

theorem revoke_ok (h : invitation.revoke = .ok saved) :
    (invitation.changes saved).status = some .revoked := by
  unfold Invitation.revoke Invitation.requirePending at h
  split at h
  · cases h
  · rename_i hpending
    cases h
    exact changes_status_ne (not_not.mp hpending) rfl nofun

theorem markExpired_ok (h : invitation.markExpired = .ok saved) :
    (invitation.changes saved).status = some .expired := by
  unfold Invitation.markExpired Invitation.requirePending at h
  split at h
  · cases h
  · rename_i hpending
    cases h
    exact changes_status_ne (not_not.mp hpending) rfl nofun

theorem renew_ok {expiresAt : Instant} (h : invitation.renew expiresAt = .ok saved) :
    (invitation.changes saved).status = none := by
  unfold Invitation.renew Invitation.requirePending at h
  split at h
  · cases h
  · cases h
    exact if_pos rfl

end

/-! ## Invariants -/

/-- What a call is about to save: never the pending status; a revocation saves the revoked one,
and a membership goes with an acceptance. -/
def StageOk (call : InvitationCall) : InvitationStage → Prop
  | .accepted read saved => read.status = .pending ∧ saved.status = .accepted ∧ call ≠ .revoke
  | .saving read saved joining _ =>
    (read.changes saved).status ≠ some .pending ∧
    (call = .revoke → (read.changes saved).status = some .revoked) ∧
    (joining ≠ none → (read.changes saved).status = some .accepted)
  | _ => True

structure Settling (calls : Nat → InvitationCall) (s : InvitationDb) : Prop where
  stages : ∀ p, StageOk (calls p) (s.stage p)
  status : (s.invitation.status = .pending ∧ ∀ c ∈ s.commits, c.status = none) ∨
    ∃ c ∈ s.commits, c.status = some s.invitation.status
  written : ∀ c ∈ s.commits, c.status ≠ some .pending ∧
    (calls c.caller = .revoke → c.status = some .revoked) ∧
    (c.membership ≠ none → c.status = some .accepted)

theorem settling_initial (calls : Nat → InvitationCall) {invitation : Invitation}
    (hpending : invitation.status = .pending) (table : Table Membership.id) :
    Settling calls (initial invitation table) where
  stages _ := trivial
  status := Or.inl ⟨hpending, by simp [initial]⟩
  written := by simp [initial]

/-- The next stage of a call, where nothing is committed. -/
def Quiet (s : InvitationDb) (p : Nat) (call : InvitationCall) (s' : InvitationDb) : Prop :=
  ∃ stage, s' = s.enter p stage ∧ StageOk call stage

variable {toUpperInvariant : String → String} {calls : Nat → InvitationCall}
  {s s' : InvitationDb} {call : InvitationCall} {p : Nat} {env : Surroundings} {now : Instant}

theorem quiet_finish (s : InvitationDb) (p : Nat) (call : InvitationCall)
    (outcome : Except Thrown Unit) : Quiet s p call (s.finish p outcome) :=
  ⟨.finished outcome, rfl, trivial⟩

theorem quiet_saveOrThrow {read : Invitation} {result : Except DomainException Invitation}
    (h : ∀ saved, result = .ok saved → (read.changes saved).status ≠ some .pending ∧
      (call = .revoke → (read.changes saved).status = some .revoked)) :
    Quiet s p call (s.saveOrThrow p read result) := by
  cases result with
  | error e => exact quiet_finish s p call _
  | ok saved =>
    obtain ⟨hne, hrevoke⟩ := h saved rfl
    exact ⟨_, rfl, hne, hrevoke, fun hjoin => absurd rfl hjoin⟩

theorem quiet_load : Quiet s p call (s.load p now call) := by
  cases call with
  | accept userId => exact ⟨_, rfl, trivial⟩
  | revoke =>
    refine quiet_saveOrThrow fun saved hsaved => ?_
    rw [revoke_ok hsaved]
    exact ⟨nofun, fun _ => rfl⟩
  | cleanupExpired =>
    simp only [load]
    split
    · refine quiet_saveOrThrow fun saved hsaved => ?_
      rw [markExpired_ok hsaved]
      exact ⟨nofun, nofun⟩
    · exact quiet_finish s p _ _
  | renew expiresAt =>
    simp only [load]
    split
    · refine quiet_saveOrThrow fun saved hsaved => ?_
      rw [renew_ok hsaved]
      exact ⟨nofun, nofun⟩
    · exact quiet_finish s p _ _

theorem quiet_acceptLoaded {userId : Guid} {read : Invitation} :
    Quiet s p (.accept userId) (s.acceptLoaded toUpperInvariant p userId env now read) := by
  unfold acceptLoaded
  cases guardInvitedIdentity toUpperInvariant env.user read with
  | error e => exact quiet_finish s p _ _
  | ok _ =>
    cases haccept : read.accept userId now with
    | mk saved result =>
      cases result with
      | error e => exact ⟨_, rfl, accept_error haccept, nofun, fun hjoin => absurd rfl hjoin⟩
      | ok _ =>
        obtain ⟨hread, hsaved⟩ := accept_ok haccept
        exact ⟨_, rfl, hread, hsaved, nofun⟩

theorem quiet_join {userId : Guid} {read saved : Invitation}
    (h : StageOk (.accept userId) (.accepted read saved)) :
    Quiet s p (.accept userId) (s.join p userId env now read saved) := by
  have hstatus : (read.changes saved).status = some .accepted :=
    changes_status_ne h.1 h.2.1 nofun
  have hok : ∀ joining outcome, StageOk (.accept userId) (.saving read saved joining outcome) := by
    intro joining outcome
    refine ⟨?_, nofun, fun _ => hstatus⟩
    rw [hstatus]
    exact nofun
  unfold join
  dsimp only
  split
  · exact quiet_finish s p _ _
  · exact ⟨_, rfl, hok _ _⟩
  · exact ⟨_, rfl, hok _ _⟩

/-- A step moves one call on, lets another service write a membership, or commits a save. -/
theorem step_cases (hstages : ∀ p, StageOk (calls p) (s.stage p)) {m : InvitationMove}
    (h : step toUpperInvariant calls s m = some s') :
    (∃ p, Quiet s p (calls p) s' ∧ s.savesFresh m = true) ∨
    (s'.invitation = s.invitation ∧ s'.commits = s.commits ∧ s'.stage = s.stage ∧
      s.savesFresh m = true) ∨
    ∃ p env now read saved joining outcome, m = .act p env now ∧
      s.stage p = .saving read saved joining outcome ∧ s.Joinable joining ∧
      s' = s.save p read saved joining outcome := by
  cases m with
  | write write =>
    cases h
    exact Or.inr (Or.inl ⟨rfl, rfl, rfl, rfl⟩)
  | cancel p =>
    simp only [step] at h
    split at h
    · cases h
    · cases h
      exact Or.inl ⟨p, quiet_finish s p _ _, rfl⟩
  | act p env now =>
    simp only [step] at h
    have hok := hstages p
    cases hstage : s.stage p with
    | start =>
      rw [hstage] at h
      cases h
      exact Or.inl ⟨p, quiet_load, by simp [savesFresh, hstage]⟩
    | loaded read =>
      rw [hstage] at h
      simp only [advance] at h
      split at h
      · rename_i userId hcall
        cases h
        refine Or.inl ⟨p, ?_, by simp [savesFresh, hstage]⟩
        rw [hcall]
        exact quiet_acceptLoaded
      · cases h
    | accepted read saved =>
      rw [hstage] at h hok
      simp only [advance] at h
      split at h
      · rename_i userId hcall
        cases h
        rw [hcall] at hok
        refine Or.inl ⟨p, ?_, by simp [savesFresh, hstage]⟩
        rw [hcall]
        exact quiet_join hok
      · cases h
    | saving read saved joining outcome =>
      rw [hstage] at h
      simp only [advance, Option.some.injEq] at h
      by_cases hjoin : s.Joinable joining
      · exact Or.inr (Or.inr ⟨p, env, now, read, saved, joining, outcome, rfl, hstage, hjoin,
          h.symm⟩)
      · refine Or.inl ⟨p, ?_, by simp [savesFresh, hstage, hjoin]⟩
        rw [← h, save, if_neg hjoin]
        exact quiet_finish s p _ _
    | finished outcome =>
      rw [hstage] at h
      cases h

theorem Quiet.settling (hq : Quiet s p (calls p) s') (h : Settling calls s) :
    Settling calls s' := by
  obtain ⟨stage, rfl, hok⟩ := hq
  refine ⟨fun q => ?_, h.status, h.written⟩
  by_cases hqp : q = p
  · subst hqp
    simpa [enter] using hok
  · simpa [enter, Function.update_of_ne hqp] using h.stages q

theorem Settling.save (h : Settling calls s) {read saved : Invitation} {joining : Option Joining}
    {outcome : Except DomainException Unit}
    (hstage : s.stage p = .saving read saved joining outcome) (hjoin : s.Joinable joining) :
    Settling calls (s.save p read saved joining outcome) := by
  have hok := h.stages p
  rw [hstage] at hok
  obtain ⟨hpending, hrevoke, haccept⟩ := hok
  rw [InvitationDb.save, if_pos hjoin]
  refine ⟨fun q => ?_, ?_, fun c hc => ?_⟩
  · by_cases hqp : q = p
    · subst hqp
      simp only [Function.update_self]
      trivial
    · simpa [Function.update_of_ne hqp] using h.stages q
  · simp only [Invitation.update]
    cases hstatus : (read.changes saved).status with
    | none =>
      -- the status column is not written
      simp only [Option.getD_none]
      refine h.status.imp (fun hold => ⟨hold.1, fun c hc => ?_⟩) fun hold => ?_
      · cases List.mem_append.mp hc with
        | inl hc => exact hold.2 c hc
        | inr hc => rw [List.mem_singleton.mp hc]
      · obtain ⟨c, hc, hcs⟩ := hold
        exact ⟨c, List.mem_append_left _ hc, hcs⟩
    | some status =>
      exact Or.inr ⟨_, List.mem_append_right _ (List.mem_singleton_self _), rfl⟩
  · cases List.mem_append.mp hc with
    | inl hc => exact h.written c hc
    | inr hc =>
      rw [List.mem_singleton.mp hc]
      refine ⟨hpending, hrevoke, fun hmembership => haccept ?_⟩
      rintro rfl
      exact hmembership rfl

theorem Settling.step {m : InvitationMove} (h : Settling calls s)
    (hs : step toUpperInvariant calls s m = some s') : Settling calls s' := by
  obtain ⟨p, hq, -⟩ | ⟨hrow, hcommits, hstage, -⟩ |
    ⟨p, env, now, read, saved, joining, outcome, -, hstage, hjoin, rfl⟩ := step_cases h.stages hs
  · exact hq.settling h
  · exact ⟨hstage ▸ h.stages, hrow ▸ hcommits ▸ h.status, hcommits ▸ h.written⟩
  · exact h.save hstage hjoin

/-- Every status ever committed is still the invitation's. -/
def StatusKept (s : InvitationDb) : Prop :=
  ∀ c ∈ s.commits, ∀ status, c.status = some status → s.invitation.status = status

/-- Where statuses are kept, a membership after a revocation would need a second one. -/
theorem Settling.settlesOnce_iff (h : Settling calls s) : SettlesOnce calls s ↔ StatusKept s := by
  constructor
  · exact fun hsettles => hsettles.1
  · intro hkept
    refine ⟨hkept, fun before revocation after hsplit hcall c hc => ?_⟩
    cases hmembership : c.membership with
    | none => rfl
    | some membership =>
      have hrevocation : revocation ∈ s.commits := by
        rw [hsplit]
        exact List.mem_append_right _ List.mem_cons_self
      have hcommit : c ∈ s.commits := by
        rw [hsplit]
        exact List.mem_append_right _ (List.mem_cons_of_mem _ hc)
      have hrevoked := hkept _ hrevocation _ ((h.written _ hrevocation).2.1 hcall)
      have haccepted := hkept _ hcommit _
        ((h.written _ hcommit).2.2 (by rw [hmembership]; exact nofun))
      rw [hrevoked] at haccepted
      cases haccepted

/-- A save keeps the statuses exactly when it is fresh. -/
theorem Settling.save_statusKept (h : Settling calls s) {read saved : Invitation}
    {joining : Option Joining} {outcome : Except DomainException Unit}
    (hstage : s.stage p = .saving read saved joining outcome) (hjoin : s.Joinable joining) :
    StatusKept (s.save p read saved joining outcome) ↔
      StatusKept s ∧ s.savesFresh (.act p env now) = true := by
  have hok := h.stages p
  rw [hstage] at hok
  have hcommits : (s.save p read saved joining outcome).commits =
      s.commits ++ [⟨p, (read.changes saved).status, joining.map (·.saved)⟩] := by
    rw [InvitationDb.save, if_pos hjoin]
  have hrow : (s.save p read saved joining outcome).invitation.status =
      (read.changes saved).status.getD s.invitation.status := by
    rw [InvitationDb.save, if_pos hjoin]
    rfl
  unfold StatusKept
  rw [hcommits, hrow]
  simp only [savesFresh, hstage, hjoin, decide_true, Bool.not_true, Bool.false_or]
  cases hstatus : (read.changes saved).status with
  | none =>
    simp only [Option.getD_none, Option.all_none, and_true]
    constructor
    · exact fun hkept c hc => hkept c (List.mem_append_left _ hc)
    · intro hkept c hc status hcs
      cases List.mem_append.mp hc with
      | inl hold => exact hkept c hold status hcs
      | inr hnew =>
        rw [List.mem_singleton.mp hnew] at hcs
        cases hcs
  | some status =>
    simp only [Option.getD_some, Option.all_some, Bool.or_eq_true, decide_eq_true_eq]
    have hne : status ≠ .pending := by
      rintro rfl
      exact hok.1 hstatus
    constructor
    · intro hkept
      have hold : ∀ c ∈ s.commits, ∀ status', c.status = some status' → status = status' :=
        fun c hc => hkept c (List.mem_append_left _ hc)
      cases h.status with
      | inl hpending =>
        refine ⟨fun c hc status' hcs => ?_, Or.inl hpending.1⟩
        rw [hpending.2 c hc] at hcs
        cases hcs
      | inr hsettled =>
        -- the row's status was committed before, so the new one repeats it
        obtain ⟨c, hc, hcs⟩ := hsettled
        have hsame := hold c hc _ hcs
        exact ⟨fun c' hc' status' hcs' => hsame ▸ hold c' hc' status' hcs', Or.inr hsame.symm⟩
    · rintro ⟨hkept, hfresh⟩ c hc status' hcs
      cases List.mem_append.mp hc with
      | inr hnew =>
        rw [List.mem_singleton.mp hnew] at hcs
        cases hcs
        rfl
      | inl hold =>
        have hrowStatus := hkept c hold status' hcs
        cases hfresh with
        | inl hpending =>
          rw [hrowStatus] at hpending
          exact absurd (hpending ▸ hcs) (h.written c hold).1
        | inr hsame => exact hsame.symm.trans hrowStatus

theorem Settling.settlesOnce_step {m : InvitationMove} (h : Settling calls s)
    (hs : InvitationDb.step toUpperInvariant calls s m = some s') :
    SettlesOnce calls s' ↔ SettlesOnce calls s ∧ s.savesFresh m = true := by
  rw [h.settlesOnce_iff, (h.step hs).settlesOnce_iff]
  obtain ⟨p, ⟨stage, rfl, -⟩, hfresh⟩ | ⟨hrow, hcommits, -, hfresh⟩ |
    ⟨p, env, now, read, saved, joining, outcome, rfl, hstage, hjoin, rfl⟩ :=
      step_cases h.stages hs
  · rw [hfresh]
    exact (and_iff_left rfl).symm
  · rw [hfresh, StatusKept, StatusKept, hrow, hcommits]
    exact (and_iff_left rfl).symm
  · exact h.save_statusKept hstage hjoin

/-- In every run on a pending invitation, it is brought to one terminal status only and no
membership is saved after a revocation, exactly when every save that commits a status finds the
invitation still pending or already there. -/
theorem settlesOnce_run_iff (toUpperInvariant : String → String) (calls : Nat → InvitationCall)
    (invitation : Invitation) (hpending : invitation.status = .pending)
    (table : Table Membership.id) (moves : List InvitationMove) (s : InvitationDb)
    (h : follow (step toUpperInvariant calls) (initial invitation table) moves = some s) :
    SettlesOnce calls s ↔
      run (step toUpperInvariant calls) savesFresh (initial invitation table) moves = some s :=
  (run_of_follow (settling_initial calls hpending table)
    ⟨by simp [initial], by simp [initial]⟩ (fun _ _ _ hinv hs => hinv.step hs)
    (fun _ _ _ hinv hs => hinv.settlesOnce_step hs) h).2

/-! ## An acceptance and a revocation of one invitation -/

def upper (text : String) : String := String.ofList (text.toList.map Char.toUpper)

def outstanding : InvitationDb :=
  initial ⟨7, "ann@example.com", .pending, 5000, none⟩ ⟨[], by decide⟩

/-- Call 0 is the invited user accepting, every other call a revocation. -/
def acceptOrRevoke (p : Nat) : InvitationCall :=
  if p = 0 then .accept 1 else .revoke

def acts (callers : List Nat) : List InvitationMove :=
  callers.map fun p => .act p openOrganization 100

/-- A revocation that comes after the acceptance is refused. -/
theorem settlesOnce_run_iff_inTurn :
    let s := (follow (step upper acceptOrRevoke) outstanding (acts [0, 0, 0, 0, 1])).get
      (by decide +kernel)
    SettlesOnce acceptOrRevoke s ∧ s.invitation.status = .accepted := by
  intro s
  refine ⟨?_, by decide +kernel⟩
  refine (settlesOnce_run_iff upper acceptOrRevoke ⟨7, "ann@example.com", .pending, 5000, none⟩ rfl
    ⟨[], by decide⟩ (acts [0, 0, 0, 0, 1]) s (Option.some_get _).symm).mpr ?_
  have hrun : (run (step upper acceptOrRevoke) savesFresh outstanding
      (acts [0, 0, 0, 0, 1])).isSome := by decide +kernel
  exact follow_run_eq (Option.some_get hrun).symm (Option.some_get _).symm

/-- Two calls read the pending invitation; the one that saves last has the last word: a revoked
invitation is accepted and its user made a member, an accepted one is revoked. -/
theorem pending_copies_overwrite_each_other :
    (∃ s, Reachable (step upper acceptOrRevoke) outstanding s ∧ s.invitation.status = .accepted ∧
      s.commits.map (·.status) = [some .revoked, some .accepted] ∧
      ∃ r ∈ s.table.rows, r.value.userId = 1 ∧ r.value.status = .active) ∧
    ∃ s, Reachable (step upper acceptOrRevoke) outstanding s ∧ s.invitation.status = .revoked ∧
      s.commits.map (·.status) = [some .accepted, some .revoked] := by
  have hrevoked : (follow (step upper acceptOrRevoke) outstanding (acts [0, 0, 1, 1, 0, 0])).any
      (fun s => decide (s.invitation.status = .accepted ∧
        s.commits.map (·.status) = [some .revoked, some .accepted] ∧
        ∃ r ∈ s.table.rows, r.value.userId = 1 ∧ r.value.status = .active)) = true := by
    decide +kernel
  have haccepted : (follow (step upper acceptOrRevoke) outstanding (acts [0, 0, 0, 1, 0, 1])).any
      (fun s => decide (s.invitation.status = .revoked ∧
        s.commits.map (·.status) = [some .accepted, some .revoked])) = true := by
    decide +kernel
  constructor
  · obtain ⟨s, hreach, hs⟩ := exists_reaches_of_run (fun _ _ _ => trivial) hrevoked
    exact ⟨s, hreach, of_decide_eq_true hs⟩
  · obtain ⟨s, hreach, hs⟩ := exists_reaches_of_run (fun _ _ _ => trivial) haccepted
    exact ⟨s, hreach, of_decide_eq_true hs⟩

end InvitationDb

end Wallow.Identity
