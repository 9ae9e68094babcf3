import Wallow.Identity.SelfService
import Wallow.Lib.RowStore
import Wallow.Lib.Transition

/-!
# The last owner of an organization

Any number of calls on one organization's membership rows, interleaved statement by statement at
READ COMMITTED.  A departure locks the active owners it sees, counts them again under the locks,
and writes; every save carries the version (`xmin`) its caller read.  An organization that has an
active owner keeps one.
-/

namespace Wallow.Identity

open Transition RowStore

/-! ## The calls -/

inductive MembershipCall
  | suspend (userId actorId : Guid)
  | leave (userId : Guid)
  | removeMember (userId : Guid)
  | approve (userId actorId : Guid)
  | deny (userId actorId : Guid)
  | addMember (userId roleId actorId : Guid)
  | assignRole (userId roleId actorId : Guid)
  | enroll (userId : Guid)
  | acceptInvitation (userId : Guid)
  deriving DecidableEq

def MembershipCall.userId : MembershipCall → Guid
  | .suspend userId _ => userId
  | .leave userId => userId
  | .removeMember userId => userId
  | .approve userId _ => userId
  | .deny userId _ => userId
  | .addMember userId _ _ => userId
  | .assignRole userId _ _ => userId
  | .enroll userId => userId
  | .acceptInvitation userId => userId

/-- The calls that run under `LastOwnerGuard`. -/
def MembershipCall.isDeparture : MembershipCall → Bool
  | .suspend _ _ => true
  | .leave _ => true
  | .removeMember _ => true
  | _ => false

/-- The calls that look the organization up first. -/
def MembershipCall.readsOrganization : MembershipCall → Bool
  | .removeMember _ => true
  | .addMember _ _ _ => true
  | _ => false

/-- How a call can fail: a rule of the domain, a missing organization, a row that another save
got to first, or a cancelled or broken request. -/
inductive Thrown
  | domain (e : DomainException)
  | organizationNotFound
  | conflict
  | cancelled
  deriving DecidableEq

/-- One statement of `SaveChangesAsync` on the membership table. -/
inductive Write
  | insert (membership : Membership)
  | update (membership : Membership)
  | delete (id : Guid)
  deriving DecidableEq

/-- The callback of `ExecuteDepartureAsync`. -/
def departure (call : MembershipCall) (membership : Membership) (now : Instant) :
    Except DomainException Write :=
  match call with
  | .suspend _ actorId => (membership.suspend actorId now).map .update
  | _ => .ok (.delete membership.id)

/-- `RequireMembershipAsync`. -/
def requireMembership (existing : Option Membership) : Except DomainException Membership :=
  match existing with
  | none => .error (.of IdentityErrors.memberNotFound)
  | some membership => .ok membership

/-- What the calls without the guard save, from the row they read; an invitation is taken up to
its membership. -/
def plan (organizationId : Guid) (call : MembershipCall) (env : Surroundings)
    (existing : Option Membership) (now : Instant) :
    Except DomainException (Option Membership) :=
  match call with
  | .approve _ actorId =>
    (requireMembership existing).bind fun membership =>
      env.defaultRole.bind fun roleId => (membership.approve roleId actorId now).map some
  | .deny _ actorId =>
    (requireMembership existing).bind fun membership =>
      (membership.deny actorId now).map some
  | .addMember userId roleId actorId =>
    match existing with
    | none =>
      (Membership.enroll env.newId userId organizationId roleId now).map fun added =>
        some (added.grant roleId actorId now)
    | some membership => .ok (some (membership.grant roleId actorId now))
  | .assignRole _ roleId actorId =>
    (requireMembership existing).map fun membership =>
      -- a role held already changes nothing, and nothing is saved
      if roleId ∈ membership.roleIds then none
      else some (membership.assignRole roleId actorId now)
  | .enroll userId => (enrollAsync env userId organizationId existing now).map (·.2)
  | .acceptInvitation userId => applyMembership env existing userId organizationId now
  | _ => .ok none

/-! ## The database and its callers -/

/-- A row lock, or the lock on an entry of the unique `(UserId, OrganizationId)` index. -/
inductive LockKey
  | membership (id : Guid)
  | user (userId : Guid)
  deriving DecidableEq

abbrev MembershipRow := Row Membership

/-- Where a call stands. -/
inductive Stage
  | start
  /-- The membership is read. -/
  | loaded (row : MembershipRow)
  /-- In `SELECT … FOR UPDATE`: the rows of its snapshot still to lock. -/
  | locking (row : MembershipRow) (todo : List Guid)
  /-- The recount let the departure through. -/
  | cleared (row : MembershipRow)
  /-- The departure is saved but not committed. -/
  | departed (row : MembershipRow) (write : Write)
  /-- A call without the guard, about to save. -/
  | planned (row : Option MembershipRow) (saved : Membership)
  | written (row : Option MembershipRow) (write : Write)
  | finished (outcome : Except Thrown Unit)

/-- The membership rows of one organization, and the calls running on them. -/
structure MembershipDb where
  table : Table Membership.id
  locks : Locks LockKey
  nextXid : Nat
  stage : Nat → Stage

def owners (table : Table Membership.id) : List Guid :=
  (table.rows.filter (·.value.isActiveOwner)).map (·.value.userId)

namespace MembershipDb

def enter (s : MembershipDb) (p : Nat) (stage : Stage) : MembershipDb :=
  { s with stage := Function.update s.stage p stage }

/-- The end of a call, with whatever it locked. -/
def finish (s : MembershipDb) (p : Nat) (outcome : Except Thrown Unit) : MembershipDb :=
  { s with
    locks := s.locks.release p
    stage := Function.update s.stage p (.finished outcome) }

/-- `GetAsync` on the caller's row, and what a call without the guard decides from it. -/
def load (organizationId : Guid) (call : MembershipCall) (env : Surroundings)
    (s : MembershipDb) (p : Nat) (now : Instant) : MembershipDb :=
  let existing := s.table.rows.find? (·.value.userId = call.userId)
  if call.readsOrganization && env.organization.isNone then
    s.finish p (.error .organizationNotFound)
  else if call.isDeparture then
    match existing with
    | none => s.finish p (.error (.domain (.of IdentityErrors.memberNotFound)))
    | some row => s.enter p (.loaded row)
  else
    match plan organizationId call env (existing.map (·.value)) now with
    | .error e => s.finish p (.error (.domain e))
    | .ok none => s.finish p (.ok ())
    | .ok (some saved) => s.enter p (.planned existing saved)

/-- The snapshot of `SELECT … WHERE is_owner AND status = 'Active' FOR UPDATE`. -/
def scan (s : MembershipDb) (p : Nat) (row : MembershipRow) : MembershipDb :=
  s.enter p (.locking row ((s.table.rows.filter (·.value.isActiveOwner)).map (·.value.id)))

/-- Lock the next row of the snapshot, or wait for it; a row deleted since is skipped. -/
def lock (s : MembershipDb) (p : Nat) (row : MembershipRow) (id : Guid) (todo : List Guid) :
    Option MembershipDb :=
  -- the row of the snapshot is locked in its newest version
  if s.table.rows.any (·.value.id = id) then
    (s.locks.acquire p (.membership id)).map fun locks =>
      { s with locks := locks, stage := Function.update s.stage p (.locking row todo) }
  else some (s.enter p (.locking row todo))

/-- The recount under the locks. -/
def count (s : MembershipDb) (p : Nat) (userId : Guid) (row : MembershipRow) : MembershipDb :=
  -- a statement of its own, with a snapshot taken under the locks
  if owners s.table = [userId] then
    s.finish p (.error (.domain (.of IdentityErrors.lastOwner)))
  else s.enter p (.cleared row)

/-- An `UPDATE` or `DELETE` of the row with the version read: it waits for the row's lock, and
fails when the version is gone. -/
def save (s : MembershipDb) (p : Nat) (row : MembershipRow) (next : Stage) :
    Option MembershipDb :=
  (s.locks.acquire p (.membership row.value.id)).map fun locks =>
    -- `WHERE xmin = …`: checked once the row's lock is ours
    if s.table.Current row.value.id row.version then
      { s with locks := locks, stage := Function.update s.stage p next }
    else s.finish p (.error .conflict)

/-- An `INSERT`: it waits for the entries of both unique indexes, and fails when one is taken. -/
def saveNew (s : MembershipDb) (p : Nat) (saved : Membership) : Option MembershipDb :=
  ((s.locks.acquire p (.membership saved.id)).bind (·.acquire p (.user saved.userId))).map
    fun locks =>
      if s.table.rows.any fun r => r.value.id = saved.id || r.value.userId = saved.userId then
        s.finish p (.error .conflict)
      else
        { s with
          locks := locks
          stage := Function.update s.stage p (.written none (.insert saved)) }

def apply (table : Table Membership.id) (xid : Nat) : Write → Table Membership.id
  | .insert membership => table.insert membership xid
  | .update membership => table.update membership xid
  | .delete id => table.delete id

/-- The transaction's writes become the committed rows. -/
def commit (s : MembershipDb) (p : Nat) (write : Write) : MembershipDb :=
  { s.finish p (.ok ()) with
    table := apply s.table s.nextXid write
    nextXid := s.nextXid + 1 }

end MembershipDb

/-- One statement, commit, rollback or retry of call `p`. -/
inductive DbMove
  | next (p : Nat) (now : Instant)
  | abort (p : Nat)
  | retry (p : Nat)

/-- The next statement of call `p`; `none` while it waits or when it is over. -/
def advanceCall (organizationId : Guid) (call : MembershipCall) (env : Surroundings)
    (s : MembershipDb) (p : Nat) (now : Instant) : Option MembershipDb :=
  match s.stage p with
  | .start => some (s.load organizationId call env p now)
  | .loaded row => some (s.scan p row)
  | .locking row (id :: todo) => s.lock p row id todo
  | .locking row [] => some (s.count p call.userId row)
  | .cleared row =>
    match departure call row.value now with
    | .error e => some (s.finish p (.error (.domain e)))
    | .ok write => s.save p row (.departed row write)
  | .planned (some row) saved => s.save p row (.written (some row) (.update saved))
  | .planned none saved => s.saveNew p saved
  | .departed _ write => some (s.commit p write)
  | .written _ write => some (s.commit p write)
  | .finished _ => none

/-- The execution strategy may run a departure again from the row that was read. -/
def retryCall (s : MembershipDb) (p : Nat) : Option MembershipDb :=
  let again (row : MembershipRow) : MembershipDb :=
    { s with
      locks := s.locks.release p
      stage := Function.update s.stage p (.loaded row) }
  match s.stage p with
  | .locking row _ => some (again row)
  | .cleared row => some (again row)
  | .departed row _ => some (again row)
  | _ => none

def membershipStep (organizationId : Guid) (calls : Nat → MembershipCall × Surroundings)
    (s : MembershipDb) : DbMove → Option MembershipDb
  | .next p now => advanceCall organizationId (calls p).1 (calls p).2 s p now
  | .abort p =>
    match s.stage p with
    | .finished _ => none
    | _ => some (s.finish p (.error .cancelled))
  | .retry p => retryCall s p

/-! ## What the calls without the guard save -/

/-- A save that keeps an active owner where there was one. -/
def KeepsOwner (before after : Membership) : Prop :=
  after.id = before.id ∧ (before.isActiveOwner = true → after.isActiveOwner = true)

section

variable {organizationId : Guid} {call : MembershipCall} {env : Surroundings}
  {membership saved : Membership} {now : Instant}

theorem keepsOwner_of_inactive (hsame : membership.SameRow saved)
    (h : membership.status ≠ .active) : KeepsOwner membership saved :=
  ⟨hsame.id, fun howner => by simp [Membership.isActiveOwner, h] at howner⟩

theorem keepsOwner_of_status (hsame : membership.SameRow saved)
    (h : membership.status = .active → saved.status = .active) : KeepsOwner membership saved := by
  refine ⟨hsame.id, fun howner => ?_⟩
  simp only [Membership.isActiveOwner, Bool.and_eq_true, decide_eq_true_eq] at howner ⊢
  exact ⟨hsame.isOwner.trans howner.1, h howner.2⟩

theorem enrollAsync_keepsOwner {outcome : EnrollmentOutcome} {userId : Guid}
    (h : enrollAsync env userId organizationId (some membership) now =
      .ok (outcome, some saved)) : KeepsOwner membership saved := by
  -- only a denied row is written over, and a denied row is not active
  have hdenied : ∀ denial, spentDenial (some membership) now = some denial →
      denial = membership ∧ membership.status ≠ .active := by
    intro denial hdenial
    simp only [spentDenial, Option.filter_eq_some_iff, Option.some.injEq, Bool.and_eq_true,
      decide_eq_true_eq] at hdenial
    obtain ⟨rfl, hstatus, -⟩ := hdenial
    exact ⟨rfl, by simp [hstatus]⟩
  unfold enrollAsync at h
  cases hdenial : spentDenial (some membership) now with
  | none => simp [hdenial] at h
  | some denial =>
    obtain ⟨rfl, hinactive⟩ := hdenied denial hdenial
    simp only [hdenial] at h
    split at h
    · simp at h
    split at h
    · simp at h
    split at h
    · simp at h
    cases hpolicy : resolvePolicy env.enrollmentPolicy with
    | inviteOnly => simp [hpolicy] at h
    | requestApproval =>
      simp only [hpolicy, recordRequest] at h
      cases hagain : denial.requestAgain now with
      | error e => simp [hagain, Except.map] at h
      | ok changed =>
        simp only [hagain, Except.map, Except.ok.injEq, Prod.mk.injEq, Option.some.injEq] at h
        exact keepsOwner_of_inactive (h.2 ▸ (Membership.requestAgain_ok hagain).2.1) hinactive
    | «open» =>
      simp only [hpolicy, enrollDirectly] at h
      cases hrole : env.defaultRole with
      | error e => simp [hrole, Except.bind, Except.map] at h
      | ok roleId =>
        cases hagain : denial.enrollAgain roleId now with
        | error e => simp [hrole, hagain, Except.bind, Except.map] at h
        | ok changed =>
          simp only [hrole, hagain, Except.bind, Except.map, Except.ok.injEq, Prod.mk.injEq,
            Option.some.injEq] at h
          exact keepsOwner_of_inactive (h.2 ▸ (Membership.enrollAgain_ok hagain).2.1) hinactive

theorem approve_keepsOwner {actorId : Guid}
    (h : (env.defaultRole.bind fun roleId =>
      (membership.approve roleId actorId now).map some) = .ok (some saved)) :
    KeepsOwner membership saved := by
  cases hrole : env.defaultRole with
  | error e => simp [hrole, Except.bind] at h
  | ok roleId =>
    cases happrove : membership.approve roleId actorId now with
    | error e => simp [hrole, happrove, Except.bind, Except.map] at h
    | ok changed =>
      simp only [hrole, happrove, Except.bind, Except.map, Except.ok.injEq,
        Option.some.injEq] at h
      obtain ⟨hpending, hsame, -⟩ := Membership.approve_ok happrove
      exact keepsOwner_of_inactive (h ▸ hsame) (by simp [hpending])

/-- What a call without the guard writes over a row is an active owner's row again if it was. -/
theorem plan_keepsOwner
    (h : plan organizationId call env (some membership) now = .ok (some saved)) :
    KeepsOwner membership saved := by
  cases call with
  | suspend userId actorId => simp [plan] at h
  | leave userId => simp [plan] at h
  | removeMember userId => simp [plan] at h
  | approve userId actorId => exact approve_keepsOwner h
  | deny userId actorId =>
    cases hdeny : membership.deny actorId now with
    | error e => simp [plan, requireMembership, hdeny, Except.bind, Except.map] at h
    | ok changed =>
      simp only [plan, requireMembership, hdeny, Except.bind, Except.map, Except.ok.injEq,
        Option.some.injEq] at h
      obtain ⟨hpending, hsame, -⟩ := Membership.deny_ok hdeny
      exact keepsOwner_of_inactive (h ▸ hsame) (by simp [hpending])
  | addMember userId roleId actorId =>
    simp only [plan, Except.ok.injEq, Option.some.injEq] at h
    have hsame := membership.grant_sameRow roleId actorId now
    exact h ▸ keepsOwner_of_status hsame fun _ => by simp
  | assignRole userId roleId actorId =>
    simp only [plan, requireMembership, Except.map, Except.ok.injEq] at h
    split at h
    · cases h
    · have hsame := membership.assignRole_sameRow roleId actorId now
      have hkeep : KeepsOwner membership (membership.assignRole roleId actorId now) :=
        keepsOwner_of_status hsame fun hactive => by simpa using hactive
      exact Option.some.inj h ▸ hkeep
  | enroll userId =>
    simp only [plan] at h
    cases henroll : enrollAsync env userId organizationId (some membership) now with
    | error e => simp [henroll, Except.map] at h
    | ok answer =>
      obtain ⟨outcome, row⟩ := answer
      simp only [henroll, Except.map, Except.ok.injEq] at h
      exact enrollAsync_keepsOwner (h ▸ henroll)
  | acceptInvitation userId =>
    simp only [plan, applyMembership] at h
    split at h
    · exact approve_keepsOwner h
    · cases h
    · cases h

end

/-! ## The invariant -/

namespace Stage

/-- The row version the call read and may still write over. -/
def carried : Stage → Option MembershipRow
  | .loaded row => some row
  | .locking row _ => some row
  | .cleared row => some row
  | .departed row _ => some row
  | .planned row _ => row
  | .written row _ => row
  | _ => none

/-- The row a departure is about. -/
def departing : Stage → Option MembershipRow
  | .loaded row => some row
  | .locking row _ => some row
  | .cleared row => some row
  | .departed row _ => some row
  | _ => none

/-- The row a departure past its snapshot is about. -/
def target : Stage → Option MembershipRow
  | .locking row _ => some row
  | .cleared row => some row
  | .departed row _ => some row
  | _ => none

/-- The rows of the snapshot still to lock. -/
def todo : Stage → List Guid
  | .locking _ todo => todo
  | _ => []

/-- The row of a departure that was let through. -/
def admitted : Stage → Option MembershipRow
  | .cleared row => some row
  | .departed row _ => some row
  | _ => none

/-- The row under an uncommitted save. -/
def saved : Stage → Option MembershipRow
  | .departed row _ => some row
  | .written row _ => row
  | _ => none

/-- What is about to be written is about the row that was read, and only a departure's write can
take an active owner away. -/
def Sound : Stage → Prop
  | .planned (some row) saved => KeepsOwner row.value saved
  | .written (some row) write => ∃ saved, write = .update saved ∧ KeepsOwner row.value saved
  | .written none write => ∃ saved, write = .insert saved
  | .departed row write =>
    write = .delete row.value.id ∨ ∃ saved, write = .update saved ∧ saved.id = row.value.id
  | _ => True

theorem target_of_admitted {stage : Stage} {row : MembershipRow} (h : stage.admitted = some row) :
    stage.target = some row ∧ stage.todo = [] := by
  cases stage with
  | cleared row' => exact ⟨h, rfl⟩
  | departed row' write => exact ⟨h, rfl⟩
  | _ => cases h

end Stage

namespace MembershipDb

def HasActiveOwner (table : Table Membership.id) : Prop :=
  ∃ r ∈ table.rows, r.value.isActiveOwner = true

instance (table : Table Membership.id) : Decidable (HasActiveOwner table) :=
  inferInstanceAs (Decidable (∃ r ∈ table.rows, _))

/-- An active owner other than the one under `id`. -/
def HasAnother (table : Table Membership.id) (id : Guid) : Prop :=
  ∃ r ∈ table.rows, r.value.isActiveOwner = true ∧ r.value.id ≠ id

/-- An active owner's row version that is still committed. -/
def Live (s : MembershipDb) (row : MembershipRow) : Prop :=
  row ∈ s.table.rows ∧ row.value.isActiveOwner = true

/-- Call `p` has locked the row, or is about to. -/
def Covers (s : MembershipDb) (p : Nat) (row : MembershipRow) : Prop :=
  row.value.id ∈ (s.stage p).todo ∨ s.locks.Holds p (.membership row.value.id)

/-- The invariant, where call `p` is about user `users p`. -/
structure Inv (users : Nat → Guid) (s : MembershipDb) : Prop where
  fresh : ∀ r ∈ s.table.rows, r.version < s.nextXid
  carried_fresh : ∀ p row, (s.stage p).carried = some row → row.version < s.nextXid
  carried_eq : ∀ p row, (s.stage p).carried = some row → ∀ r ∈ s.table.rows,
    r.value.id = row.value.id → r.version = row.version → r = row
  departing : ∀ p row, (s.stage p).departing = some row → row.value.userId = users p
  sound : ∀ p, (s.stage p).Sound
  saved_held : ∀ p row, (s.stage p).saved = some row →
    row ∈ s.table.rows ∧ s.locks.Holds p (.membership row.value.id)
  /-- Of two departures of active owners one locks the other's row; a departure locks its own. -/
  covers : ∀ p q row row', (s.stage p).target = some row → (s.stage q).target = some row' →
    s.Live row → s.Live row' → s.Covers p row' ∨ s.Covers q row
  another : ∀ p row, (s.stage p).admitted = some row → s.Live row →
    HasAnother s.table row.value.id
  owner : HasActiveOwner s.table

variable {users : Nat → Guid} {s : MembershipDb} {p q : Nat} {row row' : MembershipRow}

/-- No two departures of active owners are let through at a time. -/
theorem Inv.admitted_unique (hInv : Inv users s) (hp : (s.stage p).admitted = some row)
    (hq : (s.stage q).admitted = some row') (hlive : s.Live row) (hlive' : s.Live row') :
    p = q := by
  obtain ⟨htp, hdonep⟩ := Stage.target_of_admitted hp
  obtain ⟨htq, hdoneq⟩ := Stage.target_of_admitted hq
  -- with its snapshot done, what a departure covers it has locked
  have hold : ∀ r, s.Covers p r → s.locks.Holds p (.membership r.value.id) := by
    intro r h
    simpa [Covers, hdonep] using h
  have hold' : ∀ r, s.Covers q r → s.locks.Holds q (.membership r.value.id) := by
    intro r h
    simpa [Covers, hdoneq] using h
  have hown : s.locks.Holds p (.membership row.value.id) :=
    hold row ((hInv.covers p p row row htp htp hlive hlive).elim id id)
  have hown' : s.locks.Holds q (.membership row'.value.id) :=
    hold' row' ((hInv.covers q q row' row' htq htq hlive' hlive').elim id id)
  rcases hInv.covers p q row row' htp htq hlive hlive' with h | h
  · exact (hold row' h).unique hown'
  · exact hown.unique (hold' row h)

/-! ## Steps that commit nothing -/

/-- What is to be shown of a call that moves to another stage, with the table as it is. -/
structure StageStep (users : Nat → Guid) (s : MembershipDb) (p : Nat) (locks : Locks LockKey)
    (next : Stage) : Prop where
  others : ∀ q k, q ≠ p → (locks.Holds q k ↔ s.locks.Holds q k)
  carried : ∀ row, next.carried = some row →
    (s.stage p).carried = some row ∨ row ∈ s.table.rows
  departing : ∀ row, next.departing = some row →
    (s.stage p).departing = some row ∨ row.value.userId = users p
  sound : next.Sound
  saved_held : ∀ row, next.saved = some row →
    row ∈ s.table.rows ∧ locks.Holds p (.membership row.value.id)
  covers : ∀ row, next.target = some row →
    (∀ r, s.Live r → r.value.id ∈ next.todo) ∨
    ((s.stage p).target = some row ∧ ∀ r, s.Live r → s.Covers p r →
      r.value.id ∈ next.todo ∨ locks.Holds p (.membership r.value.id))
  another : ∀ row, next.admitted = some row → s.Live row → HasAnother s.table row.value.id

theorem Inv.stageStep {locks : Locks LockKey} {next : Stage} (hInv : Inv users s)
    (h : StageStep users s p locks next) :
    Inv users { s with locks := locks, stage := Function.update s.stage p next } := by
  have hself : Function.update s.stage p next p = next := Function.update_self ..
  have hother : ∀ q, q ≠ p → Function.update s.stage p next q = s.stage q :=
    fun q hq => Function.update_of_ne hq ..
  have hcovers : ∀ q r, s.Live r → q ≠ p → s.Covers q r →
      ({ s with locks := locks, stage := Function.update s.stage p next } : MembershipDb).Covers
        q r := by
    intro q r _ hq hc
    unfold Covers at hc ⊢
    simpa [hother q hq, h.others q _ hq] using hc
  -- the moved call covers what it covered, unless it has only now taken its snapshot
  have hcoversp : ∀ row r, next.target = some row → s.Live r →
      ((s.stage p).target = some row → s.Covers p r) →
      ({ s with locks := locks, stage := Function.update s.stage p next } : MembershipDb).Covers
        p r := by
    intro row r ht hlive hc
    unfold Covers
    simp only [hself]
    rcases h.covers row ht with hscan | ⟨htarget, hkeep⟩
    · exact .inl (hscan r hlive)
    · exact hkeep r hlive (hc htarget)
  constructor
  case fresh =>
    exact hInv.fresh
  case carried_fresh =>
    intro q row hrow
    by_cases hq : q = p
    · subst hq
      rcases h.carried row (hself ▸ hrow) with hold | hmem
      · exact hInv.carried_fresh q row hold
      · exact hInv.fresh row hmem
    · exact hInv.carried_fresh q row (hother q hq ▸ hrow)
  case carried_eq =>
    intro q row hrow
    by_cases hq : q = p
    · subst hq
      rcases h.carried row (hself ▸ hrow) with hold | hmem
      · exact hInv.carried_eq q row hold
      · exact fun r hr hid _ => s.table.eq_of_key_eq hr hmem hid
    · exact hInv.carried_eq q row (hother q hq ▸ hrow)
  case departing =>
    intro q row hrow
    by_cases hq : q = p
    · subst hq
      rcases h.departing row (hself ▸ hrow) with hold | huser
      · exact hInv.departing q row hold
      · exact huser
    · exact hInv.departing q row (hother q hq ▸ hrow)
  case sound =>
    intro q
    by_cases hq : q = p
    · subst hq
      show (Function.update s.stage q next q).Sound
      rw [hself]
      exact h.sound
    · show (Function.update s.stage p next q).Sound
      rw [hother q hq]
      exact hInv.sound q
  case saved_held =>
    intro q row hrow
    by_cases hq : q = p
    · subst hq
      exact h.saved_held row (hself ▸ hrow)
    · obtain ⟨hmem, hheld⟩ := hInv.saved_held q row (hother q hq ▸ hrow)
      exact ⟨hmem, (h.others q _ hq).mpr hheld⟩
  case covers =>
    intro q q' row row' hq hq' hlive hlive'
    by_cases hqp : q = p
    · subst hqp
      have ht : next.target = some row := hself ▸ hq
      by_cases hqp' : q' = q
      · subst hqp'
        have ht' : next.target = some row' := hself ▸ hq'
        -- one departure: it covers its own row
        have hsame : row = row' := Option.some.inj (ht.symm.trans ht')
        exact .inl (hcoversp row row' ht hlive' fun hold =>
          (hInv.covers q' q' row row' hold (hsame ▸ hold) hlive hlive').elim id (hsame ▸ ·))
      · have ht' : (s.stage q').target = some row' := hother q' hqp' ▸ hq'
        by_cases hold : (s.stage q).target = some row
        · rcases hInv.covers q q' row row' hold ht' hlive hlive' with hc | hc
          · exact .inl (hcoversp row row' ht hlive' fun _ => hc)
          · exact .inr (hcovers q' row hlive hqp' hc)
        · exact .inl (hcoversp row row' ht hlive' fun h => absurd h hold)
    · have ht : (s.stage q).target = some row := hother q hqp ▸ hq
      by_cases hqp' : q' = p
      · subst hqp'
        have ht' : next.target = some row' := hself ▸ hq'
        by_cases hold : (s.stage q').target = some row'
        · rcases hInv.covers q q' row row' ht hold hlive hlive' with hc | hc
          · exact .inl (hcovers q row' hlive' hqp hc)
          · exact .inr (hcoversp row' row ht' hlive fun _ => hc)
        · exact .inr (hcoversp row' row ht' hlive fun h => absurd h hold)
      · have ht' : (s.stage q').target = some row' := hother q' hqp' ▸ hq'
        exact (hInv.covers q q' row row' ht ht' hlive hlive').imp (hcovers q row' hlive' hqp)
          (hcovers q' row hlive hqp')
  case another =>
    intro q row hrow
    by_cases hq : q = p
    · subst hq
      exact h.another row (hself ▸ hrow)
    · exact hInv.another q row (hother q hq ▸ hrow)
  case owner =>
    exact hInv.owner

theorem StageStep.finish (users : Nat → Guid) (s : MembershipDb) (p : Nat)
    (outcome : Except Thrown Unit) :
    StageStep users s p (s.locks.release p) (.finished outcome) where
  others := fun q k hq => by simp [hq]
  carried := fun row h => by cases h
  departing := fun row h => by cases h
  sound := trivial
  saved_held := fun row h => by cases h
  covers := fun row h => by cases h
  another := fun row h => by cases h

theorem StageStep.again (hcarried : (s.stage p).carried = some row)
    (hdeparting : (s.stage p).departing = some row) :
    StageStep users s p (s.locks.release p) (.loaded row) where
  others := fun q k hq => by simp [hq]
  carried := fun row' h => .inl (hcarried.trans h)
  departing := fun row' h => .inl (hdeparting.trans h)
  sound := trivial
  saved_held := fun row h => by cases h
  covers := fun row h => by cases h
  another := fun row h => by cases h

theorem inv_load {organizationId : Guid} {call : MembershipCall} {env : Surroundings}
    {now : Instant} (huser : call.userId = users p) (hInv : Inv users s) :
    Inv users (s.load organizationId call env p now) := by
  have hread : ∀ row, s.table.rows.find? (·.value.userId = call.userId) = some row →
      row ∈ s.table.rows := fun row h => List.mem_of_find?_eq_some h
  have hfinish : ∀ outcome, Inv users (s.finish p outcome) := fun outcome =>
    hInv.stageStep (.finish users s p outcome)
  unfold load
  dsimp only
  split
  · exact hfinish _
  split
  · cases hfind : s.table.rows.find? (·.value.userId = call.userId) with
    | none => exact hfinish _
    | some row =>
      have hstep : StageStep users s p s.locks (.loaded row) :=
        { others := fun _ _ _ => .rfl
          carried := fun row' h => by
            cases h
            exact .inr (hread row hfind)
          departing := fun row' h => by
            cases h
            have hnamed : row.value.userId = call.userId := by
              simpa using List.find?_some hfind
            exact .inr (hnamed.trans huser)
          sound := trivial
          saved_held := fun row h => by cases h
          covers := fun row h => by cases h
          another := fun row h => by cases h }
      exact hInv.stageStep hstep
  · cases hplan : plan organizationId call env
      ((s.table.rows.find? (·.value.userId = call.userId)).map (·.value)) now with
    | error e => exact hfinish _
    | ok saved =>
      cases saved with
      | none => exact hfinish _
      | some saved =>
        dsimp only
        have hstep : StageStep users s p s.locks
            (.planned (s.table.rows.find? (·.value.userId = call.userId)) saved) :=
          { others := fun _ _ _ => .rfl
            carried := fun row h => .inr (hread row h)
            departing := fun row h => by cases h
            sound := by
              cases hfind : s.table.rows.find? (·.value.userId = call.userId) with
              | none => trivial
              | some row =>
                rw [hfind] at hplan
                exact plan_keepsOwner hplan
            saved_held := fun row h => by cases h
            covers := fun row h => by cases h
            another := fun row h => by cases h }
        exact hInv.stageStep hstep

/-- The snapshot has every active owner there is. -/
theorem inv_scan (hInv : Inv users s) (hstage : s.stage p = .loaded row) :
    Inv users (s.scan p row) := by
  have hstep : StageStep users s p s.locks
      (.locking row ((s.table.rows.filter (·.value.isActiveOwner)).map (·.value.id))) :=
    { others := fun _ _ _ => .rfl
      carried := fun row' h => .inl (by rw [hstage]; exact h)
      departing := fun row' h => .inl (by rw [hstage]; exact h)
      sound := trivial
      saved_held := fun row h => by cases h
      covers := fun _ _ => .inl fun r hlive =>
        List.mem_map_of_mem (List.mem_filter.mpr ⟨hlive.1, hlive.2⟩)
      another := fun row h => by cases h }
  exact hInv.stageStep hstep

theorem inv_lock {id : Guid} {todo : List Guid} {s' : MembershipDb} (hInv : Inv users s)
    (hstage : s.stage p = .locking row (id :: todo)) (h : s.lock p row id todo = some s') :
    Inv users s' := by
  unfold lock at h
  split at h
  · obtain ⟨locks, hlocks, rfl⟩ := Option.map_eq_some_iff.mp h
    have hstep : StageStep users s p locks (.locking row todo) :=
      { others := fun q k hq => by simp [Locks.holds_acquire hlocks, hq]
        carried := fun row' h => .inl (by rw [hstage]; exact h)
        departing := fun row' h => .inl (by rw [hstage]; exact h)
        sound := trivial
        saved_held := fun row h => by cases h
        covers := fun row' h => .inr ⟨by rw [hstage]; exact h, fun r _ hc => by
          simp only [Covers, hstage, Stage.todo, List.mem_cons] at hc
          rcases hc with (hid | htodo) | hheld
          · exact .inr ((Locks.holds_acquire hlocks).mpr (.inl ⟨rfl, by rw [hid]⟩))
          · exact .inl htodo
          · exact .inr ((Locks.holds_acquire hlocks).mpr (.inr hheld))⟩
        another := fun row h => by cases h }
    exact hInv.stageStep hstep
  · rename_i hgone
    cases h
    have hstep : StageStep users s p s.locks (.locking row todo) :=
      { others := fun _ _ _ => .rfl
        carried := fun row' h => .inl (by rw [hstage]; exact h)
        departing := fun row' h => .inl (by rw [hstage]; exact h)
        sound := trivial
        saved_held := fun row h => by cases h
        covers := fun row' h => .inr ⟨by rw [hstage]; exact h, fun r hlive hc => by
          simp only [Covers, hstage, Stage.todo, List.mem_cons] at hc
          rcases hc with (hid | htodo) | hheld
          · -- a row of the snapshot that is still there cannot be skipped
            have hany : s.table.rows.any (·.value.id = id) = true :=
              List.any_eq_true.mpr ⟨r, hlive.1, decide_eq_true hid⟩
            exact absurd hany hgone
          · exact .inl htodo
          · exact .inr hheld⟩
        another := fun row h => by cases h }
    exact hInv.stageStep hstep

/-- A recount that is not the departing owner alone has somebody else in it. -/
theorem hasAnother_of_owners {table : Table Membership.id} {row : MembershipRow}
    (hrow : row ∈ table.rows) (howner : row.value.isActiveOwner = true)
    (h : owners table ≠ [row.value.userId]) : HasAnother table row.value.id := by
  by_contra hnone
  have hall : ∀ r ∈ table.rows.filter (·.value.isActiveOwner), r = row := by
    intro r hr
    obtain ⟨hmem, hactive⟩ := List.mem_filter.mp hr
    by_contra hne
    exact hnone ⟨r, hmem, hactive, fun hid => hne (table.eq_of_key_eq hmem hrow hid)⟩
  have hnodup : (table.rows.filter (·.value.isActiveOwner)).Nodup :=
    (List.Nodup.of_map _ table.keys_nodup).filter _
  have hmem : row ∈ table.rows.filter (·.value.isActiveOwner) :=
    List.mem_filter.mpr ⟨hrow, howner⟩
  have hsingle : table.rows.filter (·.value.isActiveOwner) = [row] := by
    cases hlist : table.rows.filter (·.value.isActiveOwner) with
    | nil => simp [hlist] at hmem
    | cons r rest =>
      rw [hlist] at hall hnodup
      have hr : r = row := hall r List.mem_cons_self
      have hrest : rest = [] := by
        apply List.eq_nil_iff_forall_not_mem.mpr
        intro r' hr'
        have hr'row : r' = row := hall r' (List.mem_cons_of_mem _ hr')
        exact (List.nodup_cons.mp hnodup).1 (hr ▸ hr'row ▸ hr')
      rw [hr, hrest]
  exact h (by simp [owners, hsingle])

theorem inv_count (hInv : Inv users s) (hstage : s.stage p = .locking row []) :
    Inv users (s.count p (users p) row) := by
  have huser : row.value.userId = users p := hInv.departing p row (by rw [hstage]; rfl)
  unfold count
  split
  · exact hInv.stageStep (.finish users s p _)
  · rename_i hcount
    have hstep : StageStep users s p s.locks (.cleared row) :=
      { others := fun _ _ _ => .rfl
        carried := fun row' h => .inl (by rw [hstage]; exact h)
        departing := fun row' h => .inl (by rw [hstage]; exact h)
        sound := trivial
        saved_held := fun row h => by cases h
        covers := fun row' h => .inr ⟨by rw [hstage]; exact h, fun r _ hc => by
          simpa [Covers, hstage, Stage.todo] using hc⟩
        another := fun row' h hlive => by
          cases h
          exact hasAnother_of_owners hlive.1 hlive.2 (huser ▸ hcount) }
    exact hInv.stageStep hstep

/-! ## Saves -/

theorem inv_save {next : Stage} {s' : MembershipDb} (hInv : Inv users s)
    (hcarried : (s.stage p).carried = some row)
    (hnext : ∀ locks, row ∈ s.table.rows →
      s.locks.acquire p (.membership row.value.id) = some locks → StageStep users s p locks next)
    (h : s.save p row next = some s') : Inv users s' := by
  obtain ⟨locks, hlocks, rfl⟩ := Option.map_eq_some_iff.mp h
  split
  · rename_i hcurrent
    obtain ⟨r, hr, hid, hversion⟩ := hcurrent
    have hsame : r = row := hInv.carried_eq p row hcarried r hr hid hversion
    exact hInv.stageStep (hnext locks (hsame ▸ hr) hlocks)
  · exact hInv.stageStep (.finish users s p _)

theorem inv_saveDeparture {write : Write} {s' : MembershipDb} (hInv : Inv users s)
    (hstage : s.stage p = .cleared row)
    (hwrite : write = .delete row.value.id ∨
      ∃ saved, write = .update saved ∧ saved.id = row.value.id)
    (h : s.save p row (.departed row write) = some s') : Inv users s' := by
  refine inv_save hInv (by rw [hstage]; rfl) (fun locks hrow hlocks => ?_) h
  exact
    { others := fun q k hq => by simp [Locks.holds_acquire hlocks, hq]
      carried := fun row' h => .inl (by rw [hstage]; exact h)
      departing := fun row' h => .inl (by rw [hstage]; exact h)
      sound := hwrite
      saved_held := fun row' h => by
        cases h
        exact ⟨hrow, (Locks.holds_acquire hlocks).mpr (.inl ⟨rfl, rfl⟩)⟩
      covers := fun row' h => .inr ⟨by rw [hstage]; exact h, fun r _ hc => by
        have hheld : s.locks.Holds p (.membership r.value.id) := by
          simpa [Covers, hstage, Stage.todo] using hc
        exact .inr ((Locks.holds_acquire hlocks).mpr (.inr hheld))⟩
      another := fun row' h hlive => hInv.another p row' (by rw [hstage]; exact h) hlive }

theorem inv_savePlanned {saved : Membership} {s' : MembershipDb} (hInv : Inv users s)
    (hstage : s.stage p = .planned (some row) saved)
    (h : s.save p row (.written (some row) (.update saved)) = some s') : Inv users s' := by
  have hsound : KeepsOwner row.value saved := by
    have hs := hInv.sound p
    rw [hstage] at hs
    exact hs
  refine inv_save hInv (by rw [hstage]; rfl) (fun locks hrow hlocks => ?_) h
  exact
    { others := fun q k hq => by simp [Locks.holds_acquire hlocks, hq]
      carried := fun row' h => .inl (by rw [hstage]; exact h)
      departing := fun row' h => by cases h
      sound := ⟨saved, rfl, hsound⟩
      saved_held := fun row' h => by
        cases h
        exact ⟨hrow, (Locks.holds_acquire hlocks).mpr (.inl ⟨rfl, rfl⟩)⟩
      covers := fun row' h => by cases h
      another := fun row' h => by cases h }

theorem inv_saveNew {saved : Membership} {s' : MembershipDb} (hInv : Inv users s)
    (h : s.saveNew p saved = some s') : Inv users s' := by
  obtain ⟨locks, hlocks, rfl⟩ := Option.map_eq_some_iff.mp h
  obtain ⟨locks', hlocks', hlocks⟩ := Option.bind_eq_some_iff.mp hlocks
  split
  · exact hInv.stageStep (.finish users s p _)
  · have hstep : StageStep users s p locks (.written none (.insert saved)) :=
      { others := fun q k hq => by
          simp [Locks.holds_acquire hlocks, Locks.holds_acquire hlocks', hq]
        carried := fun row h => by cases h
        departing := fun row h => by cases h
        sound := ⟨saved, rfl⟩
        saved_held := fun row h => by cases h
        covers := fun row h => by cases h
        another := fun row h => by cases h }
    exact hInv.stageStep hstep

/-! ## Commits -/

/-- What is to be shown of the rows a commit of call `p` leaves. -/
structure CommitStep (s : MembershipDb) (p : Nat) (table : Table Membership.id) : Prop where
  rows : ∀ r ∈ table.rows, r ∈ s.table.rows ∨ r.version = s.nextXid
  kept : ∀ r ∈ s.table.rows, (∃ q, q ≠ p ∧ s.locks.Holds q (.membership r.value.id)) →
    r ∈ table.rows
  another : ∀ q row, q ≠ p → (s.stage q).admitted = some row → s.Live row → row ∈ table.rows →
    HasAnother table row.value.id
  owner : HasActiveOwner table

theorem Inv.commitStep {write : Write} (hInv : Inv users s)
    (h : CommitStep s p (apply s.table s.nextXid write)) : Inv users (s.commit p write) := by
  let s₀ := s.finish p (.ok ())
  have hInv₀ : Inv users s₀ := hInv.stageStep (.finish users s p (.ok ()))
  have hself : s₀.stage p = .finished (.ok ()) := Function.update_self ..
  -- a row version some call carries is older than what is committed now
  have hold : ∀ q row, (s₀.stage q).carried = some row →
      row ∈ (apply s.table s.nextXid write).rows → row ∈ s.table.rows := by
    intro q row hcarried hrow
    rcases h.rows row hrow with hmem | hnew
    · exact hmem
    · have hlt : row.version < s.nextXid := hInv₀.carried_fresh q row hcarried
      omega
  have hcarried : ∀ q row, (s₀.stage q).target = some row →
      (s₀.stage q).carried = some row := by
    intro q row
    cases s₀.stage q <;> simp [Stage.target, Stage.carried]
  have hothers : ∀ q row, (s₀.stage q).admitted = some row ∨ (s₀.stage q).saved = some row →
      q ≠ p ∧ s₀.stage q = s.stage q := by
    intro q row hq
    have hne : q ≠ p := by
      intro heq
      rw [heq, hself] at hq
      simp [Stage.admitted, Stage.saved] at hq
    exact ⟨hne, Function.update_of_ne hne ..⟩
  constructor
  case fresh =>
    intro r hr
    show r.version < s.nextXid + 1
    rcases h.rows r hr with hmem | hnew
    · have hlt := hInv.fresh r hmem
      omega
    · omega
  case carried_fresh =>
    intro q row hq
    show row.version < s.nextXid + 1
    have hlt : row.version < s.nextXid := hInv₀.carried_fresh q row hq
    omega
  case carried_eq =>
    intro q row hq r hr hid hversion
    have hlt : row.version < s.nextXid := hInv₀.carried_fresh q row hq
    rcases h.rows r hr with hmem | hnew
    · exact hInv₀.carried_eq q row hq r hmem hid hversion
    · omega
  case departing =>
    exact hInv₀.departing
  case sound =>
    exact hInv₀.sound
  case saved_held =>
    intro q row hq
    obtain ⟨hmem, hheld⟩ := hInv₀.saved_held q row hq
    have hne : q ≠ p := (hothers q row (.inr hq)).1
    have hheld' : s.locks.Holds q (.membership row.value.id) := (Locks.holds_release.mp hheld).1
    exact ⟨h.kept row hmem ⟨q, hne, hheld'⟩, hheld⟩
  case covers =>
    intro q q' row row' hq hq' hlive hlive'
    have hlive₀ : s₀.Live row := ⟨hold q row (hcarried q row hq) hlive.1, hlive.2⟩
    have hlive₀' : s₀.Live row' := ⟨hold q' row' (hcarried q' row' hq') hlive'.1, hlive'.2⟩
    exact hInv₀.covers q q' row row' hq hq' hlive₀ hlive₀'
  case another =>
    intro q row hq hlive
    obtain ⟨hne, hsame⟩ := hothers q row (.inl hq)
    have htarget := (Stage.target_of_admitted hq).1
    have hlive₀ : s.Live row := ⟨hold q row (hcarried q row htarget) hlive.1, hlive.2⟩
    exact h.another q row hne (hsame ▸ hq) hlive₀ hlive.1
  case owner =>
    exact h.owner

/-- A committed departure takes away its own row at most, and that row was not the last owner's. -/
theorem commitStep_departed {table : Table Membership.id} {write : Write} (hInv : Inv users s)
    (hstage : s.stage p = .departed row write)
    (hrows : ∀ r ∈ table.rows, r ∈ s.table.rows ∨ r.version = s.nextXid)
    (hkeep : ∀ r ∈ s.table.rows, r.value.id ≠ row.value.id → r ∈ table.rows) :
    CommitStep s p table := by
  obtain ⟨hmem, hheld⟩ := hInv.saved_held p row (by rw [hstage]; rfl)
  have hadmitted : (s.stage p).admitted = some row := by
    rw [hstage]
    rfl
  have hkey : ∀ r ∈ s.table.rows, r.value.id = row.value.id → r = row :=
    fun r hr => s.table.eq_of_key_eq hr hmem
  constructor
  case rows =>
    exact hrows
  case kept =>
    rintro r hr ⟨q, hq, hqheld⟩
    exact hkeep r hr fun hid => hq (hqheld.unique (hid ▸ hheld))
  case another =>
    intro q row' hq hqadmitted hlive' _
    obtain ⟨r, hr, hactive, hne⟩ := hInv.another q row' hqadmitted hlive'
    refine ⟨r, hkeep r hr fun hid => ?_, hactive, hne⟩
    -- the other admitted departure counts on this very row: there would be two at a time
    have hlive : s.Live row := ⟨hmem, hkey r hr hid ▸ hactive⟩
    exact hq (hInv.admitted_unique hadmitted hqadmitted hlive hlive').symm
  case owner =>
    by_cases howner : row.value.isActiveOwner = true
    -- the recount saw another owner, who stays
    · obtain ⟨r, hr, hactive, hne⟩ := hInv.another p row hadmitted ⟨hmem, howner⟩
      exact ⟨r, hkeep r hr hne, hactive⟩
    · obtain ⟨r, hr, hactive⟩ := hInv.owner
      exact ⟨r, hkeep r hr fun hid => howner (hkey r hr hid ▸ hactive), hactive⟩

/-- A commit that keeps every active owner's row, in its version or a newer one. -/
theorem commitStep_written {table : Table Membership.id} (hInv : Inv users s)
    (hrows : ∀ r ∈ table.rows, r ∈ s.table.rows ∨ r.version = s.nextXid)
    (hkept : ∀ r ∈ s.table.rows, (∃ q, q ≠ p ∧ s.locks.Holds q (.membership r.value.id)) →
      r ∈ table.rows)
    (hactive : ∀ r ∈ s.table.rows, r.value.isActiveOwner = true →
      ∃ r' ∈ table.rows, r'.value.isActiveOwner = true ∧ r'.value.id = r.value.id) :
    CommitStep s p table := by
  constructor
  case rows =>
    exact hrows
  case kept =>
    exact hkept
  case another =>
    intro q row' _ hadmitted hlive' _
    obtain ⟨r, hr, howner, hne⟩ := hInv.another q row' hadmitted hlive'
    obtain ⟨r', hr', howner', hid⟩ := hactive r hr howner
    exact ⟨r', hr', howner', hid ▸ hne⟩
  case owner =>
    obtain ⟨r, hr, howner⟩ := hInv.owner
    obtain ⟨r', hr', howner', -⟩ := hactive r hr howner
    exact ⟨r', hr', howner'⟩

theorem rows_update {saved : Membership} :
    ∀ r ∈ (s.table.update saved s.nextXid).rows, r ∈ s.table.rows ∨ r.version = s.nextXid := by
  intro r hr
  rcases Table.mem_update.mp hr with ⟨hmem, -⟩ | ⟨rfl, -⟩
  · exact .inl hmem
  · exact .inr rfl

theorem inv_commitDeparted {write : Write} (hInv : Inv users s)
    (hstage : s.stage p = .departed row write) : Inv users (s.commit p write) := by
  have hsound := hInv.sound p
  rw [hstage] at hsound
  apply hInv.commitStep
  rcases hsound with rfl | ⟨saved, rfl, hid⟩
  · apply commitStep_departed hInv hstage
    · exact fun r hr => .inl (Table.mem_delete.mp hr).1
    · exact fun r hr hne => Table.mem_delete.mpr ⟨hr, hne⟩
  · apply commitStep_departed hInv hstage
    · exact rows_update
    · exact fun r hr hne => Table.mem_update.mpr (.inl ⟨hr, hid ▸ hne⟩)

theorem inv_commitWritten {written : Option MembershipRow} {write : Write} (hInv : Inv users s)
    (hstage : s.stage p = .written written write) : Inv users (s.commit p write) := by
  have hsound := hInv.sound p
  rw [hstage] at hsound
  apply hInv.commitStep
  cases written with
  | none =>
    obtain ⟨saved, rfl⟩ := hsound
    apply commitStep_written hInv
    · intro r hr
      rcases Table.mem_of_mem_insert hr with hmem | rfl
      · exact .inl hmem
      · exact .inr rfl
    · exact fun r hr _ => Table.mem_insert_of_mem hr
    · exact fun r hr howner => ⟨r, Table.mem_insert_of_mem hr, howner, rfl⟩
  | some row =>
    obtain ⟨saved, rfl, hid, howner⟩ := hsound
    obtain ⟨hmem, hheld⟩ := hInv.saved_held p row (by rw [hstage]; rfl)
    apply commitStep_written hInv
    · exact rows_update
    · rintro r hr ⟨q, hq, hqheld⟩
      refine Table.mem_update.mpr (.inl ⟨hr, fun hsame => hq (hqheld.unique ?_)⟩)
      rw [hsame, hid]
      exact hheld
    · intro r hr hactive
      by_cases hsame : r.value.id = saved.id
      · have hrow : r = row := s.table.eq_of_key_eq hr hmem (hsame.trans hid)
        exact ⟨⟨saved, s.nextXid⟩, Table.mem_update.mpr (.inr ⟨rfl, r, hr, hsame⟩),
          howner (hrow ▸ hactive), hsame.symm⟩
      · exact ⟨r, Table.mem_update.mpr (.inl ⟨hr, hsame⟩), hactive, rfl⟩

/-! ## Runs -/

variable {organizationId : Guid} {calls : Nat → MembershipCall × Surroundings}

theorem departure_ok {call : MembershipCall} {membership : Membership} {now : Instant}
    {write : Write} (h : departure call membership now = .ok write) :
    write = .delete membership.id ∨ ∃ saved, write = .update saved ∧ saved.id = membership.id := by
  unfold departure at h
  split at h
  · rename_i actorId
    cases hsuspend : membership.suspend actorId now with
    | error e => simp [hsuspend, Except.map] at h
    | ok saved =>
      simp only [hsuspend, Except.map, Except.ok.injEq] at h
      exact .inr ⟨saved, h.symm, (Membership.suspend_ok hsuspend).2.1.id⟩
  · exact .inl (Except.ok.inj h).symm

theorem inv_advance {now : Instant} {s' : MembershipDb}
    (hInv : Inv (fun p => (calls p).1.userId) s)
    (h : advanceCall organizationId (calls p).1 (calls p).2 s p now = some s') :
    Inv (fun p => (calls p).1.userId) s' := by
  unfold advanceCall at h
  cases hstage : s.stage p with
  | start =>
    simp only [hstage, Option.some.injEq] at h
    exact h ▸ inv_load rfl hInv
  | loaded row =>
    simp only [hstage, Option.some.injEq] at h
    exact h ▸ inv_scan hInv hstage
  | locking row todo =>
    cases todo with
    | nil =>
      simp only [hstage, Option.some.injEq] at h
      exact h ▸ inv_count hInv hstage
    | cons id todo =>
      simp only [hstage] at h
      exact inv_lock hInv hstage h
  | cleared row =>
    simp only [hstage] at h
    cases hdeparture : departure (calls p).1 row.value now with
    | error e =>
      simp only [hdeparture, Option.some.injEq] at h
      exact h ▸ hInv.stageStep (.finish _ s p _)
    | ok write =>
      simp only [hdeparture] at h
      exact inv_saveDeparture hInv hstage (departure_ok hdeparture) h
  | planned row saved =>
    cases row with
    | none =>
      simp only [hstage] at h
      exact inv_saveNew hInv h
    | some row =>
      simp only [hstage] at h
      exact inv_savePlanned hInv hstage h
  | departed row write =>
    simp only [hstage, Option.some.injEq] at h
    exact h ▸ inv_commitDeparted hInv hstage
  | written row write =>
    simp only [hstage, Option.some.injEq] at h
    exact h ▸ inv_commitWritten hInv hstage
  | finished outcome => simp [hstage] at h

theorem inv_retry {s' : MembershipDb} (hInv : Inv users s) (h : retryCall s p = some s') :
    Inv users s' := by
  unfold retryCall at h
  cases hstage : s.stage p with
  | locking row todo =>
    simp only [hstage, Option.some.injEq] at h
    exact h ▸ hInv.stageStep (.again (by rw [hstage]; rfl) (by rw [hstage]; rfl))
  | cleared row =>
    simp only [hstage, Option.some.injEq] at h
    exact h ▸ hInv.stageStep (.again (by rw [hstage]; rfl) (by rw [hstage]; rfl))
  | departed row write =>
    simp only [hstage, Option.some.injEq] at h
    exact h ▸ hInv.stageStep (.again (by rw [hstage]; rfl) (by rw [hstage]; rfl))
  | _ => simp [hstage] at h

theorem inv_step {move : DbMove} {s' : MembershipDb}
    (hInv : Inv (fun p => (calls p).1.userId) s)
    (h : membershipStep organizationId calls s move = some s') :
    Inv (fun p => (calls p).1.userId) s' := by
  cases move with
  | next p now => exact inv_advance hInv h
  | abort p =>
    simp only [membershipStep] at h
    split at h
    · cases h
    · cases h
      exact hInv.stageStep (.finish _ s p _)
  | retry p => exact inv_retry hInv h

/-- No call has started, and the rows are older than the next transaction. -/
structure Idle (s : MembershipDb) : Prop where
  stage : ∀ p, s.stage p = .start
  older : ∀ r ∈ s.table.rows, r.version < s.nextXid

theorem Idle.inv (h : Idle s) (howner : HasActiveOwner s.table) : Inv users s where
  fresh := h.older
  carried_fresh := fun p row hp => by simp [h.stage p, Stage.carried] at hp
  carried_eq := fun p row hp => by simp [h.stage p, Stage.carried] at hp
  departing := fun p row hp => by simp [h.stage p, Stage.departing] at hp
  sound := fun p => by rw [h.stage p]; trivial
  saved_held := fun p row hp => by simp [h.stage p, Stage.saved] at hp
  covers := fun p q row row' hp => by simp [h.stage p, Stage.target] at hp
  another := fun p row hp => by simp [h.stage p, Stage.admitted] at hp
  owner := howner

/-- Whatever calls run on an organization that has an active owner, in whatever order their
statements and commits come, every committed state has one. -/
theorem organization_keeps_active_owner (hidle : Idle s) (howner : HasActiveOwner s.table)
    {s' : MembershipDb} (h : Reachable (membershipStep organizationId calls) s s') :
    HasActiveOwner s'.table := by
  have hInv : Inv (fun p => (calls p).1.userId) s' :=
    h.invariant (Inv fun p => (calls p).1.userId) (hidle.inv howner)
      fun _ _ _ hInv _ hstep => inv_step hInv hstep
  exact hInv.owner

end MembershipDb

/-! ## Two owners who leave at once -/

/-- The row of an owner; times are left at zero. -/
def ownerRow (id userId : Guid) : Membership where
  id := id
  userId := userId
  organizationId := 7
  status := .active
  isOwner := true
  requestedAt := none
  joinedAt := some 0
  reviewedAt := none
  reviewedBy := none
  roleIds := [5]
  createdAt := 0
  createdBy := userId
  updatedAt := none
  updatedBy := none

/-- Users 1 and 2 own the organization. -/
def coOwned : MembershipDb where
  table := ⟨[⟨ownerRow 11 1, 0⟩, ⟨ownerRow 12 2, 0⟩], by decide⟩
  locks := .empty
  nextXid := 1
  stage := fun _ => .start

/-- Call 0 is user 1 leaving, every other call user 2. -/
def bothLeave (p : Nat) : MembershipCall × Surroundings :=
  (if p = 0 then .leave 1 else .leave 2, openOrganization)

def Stage.lastOwner : Stage → Bool
  | .finished (.error (.domain e)) => e = .of IdentityErrors.lastOwner
  | _ => false

/-- Both take their snapshot with two owners in it; the second, once it has the locks, is
refused. -/
theorem organization_keeps_active_owner_coOwned :
    ∃ s', Reachable (membershipStep 7 bothLeave) coOwned s' ∧ (s'.stage 1).lastOwner = true ∧
      MembershipDb.HasActiveOwner s'.table := by
  let moves : List DbMove :=
    [0, 1, 0, 1, 0, 0, 0, 0, 0, 1, 1, 1].map fun p => .next p 100
  have hrun : (run (membershipStep 7 bothLeave) (fun _ _ => true) coOwned moves).map
      (fun s => (s.stage 1).lastOwner) = some true := by
    decide +kernel
  obtain ⟨s', hs', hrefused⟩ := Option.map_eq_some_iff.mp hrun
  have hreach : Reachable (membershipStep 7 bothLeave) coOwned s' :=
    reaches_of_run (fun _ _ _ => trivial) hs'
  have hidle : coOwned.Idle := ⟨fun _ => rfl, by decide⟩
  exact ⟨s', hreach, hrefused,
    MembershipDb.organization_keeps_active_owner hidle (by decide) hreach⟩

end Wallow.Identity
