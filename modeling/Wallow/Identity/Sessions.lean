import Wallow.Lib.Transition
import Wallow.Primitives
import Mathlib.Data.List.Nodup
import Mathlib.Data.List.Perm.Subperm
import Mathlib.Logic.Function.Basic

/-!
# Active sessions and their limit

`CreateSessionAsync` and `RevokeSessionAsync` of `SessionService.cs`, cut at their database
statements.  `pg_advisory_xact_lock` is held until its transaction ends, and none encloses the
calls of `AuthorizationController`: the statement takes the lock and gives it back, so the count,
the eviction and the insert of one creation run among those of the others.
-/

namespace Wallow.Identity

open Transition

/-! ## The rows -/

structure ActiveSession where
  id : Guid
  userId : Guid
  tenantId : Guid
  sessionToken : String
  createdAt : Nat
  lastActivityAt : Nat
  expiresAt : Nat
  isRevoked : Bool
  deriving DecidableEq

def MaxSessions : Nat := 5

/-- `_sessionDuration`: a day. -/
def sessionDuration : Nat := 24 * TICKS_PER_HOUR

def ActiveSession.create (id userId tenantId : Guid) (token : String) (duration now : Nat) :
    ActiveSession where
  id := id
  userId := userId
  tenantId := tenantId
  sessionToken := token
  createdAt := now
  lastActivityAt := now
  expiresAt := now + duration
  isRevoked := false

/-- The row counts against its user's limit. -/
def ActiveSession.isLive (session : ActiveSession) (now : Nat) : Bool :=
  !session.isRevoked && now < session.expiresAt

/-- `active_sessions`, with its primary key. -/
structure SessionTable where
  rows : List ActiveSession
  ids_nodup : (rows.map (·.id)).Nodup

namespace SessionTable

def live (t : SessionTable) (now : Nat) (userId : Guid) : List ActiveSession :=
  t.rows.filter fun session => session.userId = userId && session.isLive now

def setRevoked (id : Guid) (session : ActiveSession) : ActiveSession :=
  if session.id = id then { session with isRevoked := true } else session

@[simp] theorem setRevoked_id (id : Guid) (session : ActiveSession) :
    (setRevoked id session).id = session.id := by
  unfold setRevoked
  split <;> rfl

/-- The `UPDATE` of a revoked row; `none` where it finds no row, which fails the save. -/
def revoke (t : SessionTable) (id : Guid) : Option SessionTable :=
  if t.rows.any (·.id = id) then
    some ⟨t.rows.map (setRevoked id), by
      have hids : (t.rows.map (setRevoked id)).map (·.id) = t.rows.map (·.id) := by
        rw [List.map_map]
        exact List.map_congr_left fun session _ => setRevoked_id id session
      rw [hids]
      exact t.ids_nodup⟩
  else none

def remove (t : SessionTable) (id : Guid) : SessionTable where
  rows := t.rows.filter (·.id ≠ id)
  ids_nodup := t.ids_nodup.sublist (List.filter_sublist.map _)

/-- The `INSERT` of a row; `none` where its id is taken. -/
def insert (t : SessionTable) (session : ActiveSession) : Option SessionTable :=
  if h : session.id ∈ t.rows.map (·.id) then none
  else some ⟨session :: t.rows, List.nodup_cons.mpr ⟨h, t.ids_nodup⟩⟩

end SessionTable

/-! ## The calls -/

inductive SessionCall
  | create (userId tenantId : Guid)
  | revoke (sessionId userId : Guid)
  deriving DecidableEq

/-- Where a call stands. -/
inductive SessionStage
  | start
  /-- The lock was taken and given back. -/
  | locked
  /-- The oldest session is revoked in memory; its credentials are next. -/
  | evicting (read : List ActiveSession) (oldest : ActiveSession)
  /-- The insert is next, with the eviction unless that was saved already. -/
  | saving (read : List ActiveSession) (evicted : Option ActiveSession) (flushed : Bool)
  | loaded (session : ActiveSession)
  | savingRevocation (session : ActiveSession) (flushed : Bool)
  | finished (succeeded : Bool)
  deriving DecidableEq

/-- What a statement answers. -/
inductive SessionChoice
  | go
  /-- The rows of the `SELECT`, in the order of the database. -/
  | rows (read : List ActiveSession)
  /-- Whether a token that `AccessRevoker` saved took the pending change of the shared context
  with it. -/
  | credentials (flushed : Bool)
  | newRow (id : Guid) (token : String)

structure SessionDb where
  table : SessionTable
  now : Nat
  stage : Nat → SessionStage

inductive SessionMove
  | act (p : Nat) (choice : SessionChoice)
  | cancel (p : Nat)
  /-- A row deleted by the pruning job or with its organization. -/
  | remove (id : Guid)
  | tick (ticks : Nat)

namespace SessionDb

def live (s : SessionDb) (userId : Guid) : List ActiveSession :=
  s.table.live s.now userId

def enter (s : SessionDb) (p : Nat) (stage : SessionStage) : SessionDb :=
  { s with stage := Function.update s.stage p stage }

/-- The `SELECT … ORDER BY created_at`: the live rows, oldest first. -/
def select (s : SessionDb) (p : Nat) (userId : Guid) (read : List ActiveSession) :
    Option SessionDb :=
  if read.Perm (s.live userId) ∧ read.Pairwise (·.createdAt ≤ ·.createdAt) then
    match read with
    | oldest :: _ =>
      if read.length ≥ MaxSessions then some (s.enter p (.evicting read oldest))
      else some (s.enter p (.saving read none false))
    | [] => some (s.enter p (.saving read none false))
  else none

/-- `AccessRevoker.RevokeSessionAsync` for a row revoked in memory. -/
def revokeCredentials (s : SessionDb) (p : Nat) (id : Guid) (flushed : Bool)
    (next : SessionStage) : SessionDb :=
  if flushed then
    match s.table.revoke id with
    | none => s.enter p (.finished false)
    | some table => { s.enter p next with table := table }
  else s.enter p next

/-- What `SaveChangesAsync` makes of the table; `none` where it throws. -/
def saved (s : SessionDb) (evicted : Option ActiveSession) (flushed : Bool)
    (session : ActiveSession) : Option SessionTable :=
  match evicted with
  | none => s.table.insert session
  | some oldest =>
    if flushed then s.table.insert session
    else (s.table.revoke oldest.id).bind (·.insert session)

def save (s : SessionDb) (p : Nat) (table : Option SessionTable) : SessionDb :=
  match table with
  | none => s.enter p (.finished false)
  | some table => { s.enter p (.finished true) with table := table }

def advance (s : SessionDb) (p : Nat) (call : SessionCall) (stage : SessionStage)
    (choice : SessionChoice) : Option SessionDb :=
  match call, stage, choice with
  | .create _ _, .start, .go => some (s.enter p .locked)
  | .create userId _, .locked, .rows read => s.select p userId read
  | .create _ _, .evicting read oldest, .credentials flushed =>
    some (s.revokeCredentials p oldest.id flushed (.saving read (some oldest) flushed))
  | .create userId tenantId, .saving _ evicted flushed, .newRow id token =>
    some (s.save p (s.saved evicted flushed
      (.create id userId tenantId token sessionDuration s.now)))
  | .revoke sessionId userId, .start, .go =>
    match s.table.rows.find? fun session => session.id = sessionId && session.userId = userId with
    | none => some (s.enter p (.finished false))
    | some session => some (s.enter p (.loaded session))
  | .revoke _ _, .loaded session, .credentials flushed =>
    -- a session revoked before leaves nothing to save
    if session.isRevoked then some (s.enter p (.savingRevocation session true))
    else some (s.revokeCredentials p session.id flushed (.savingRevocation session flushed))
  | .revoke _ _, .savingRevocation session flushed, .go =>
    if flushed then some (s.enter p (.finished true))
    else some (s.save p (s.table.revoke session.id))
  | _, _, _ => none

def step (calls : Nat → SessionCall) (s : SessionDb) : SessionMove → Option SessionDb
  | .act p choice => s.advance p (calls p) (s.stage p) choice
  | .cancel p =>
    match s.stage p with
    | .finished _ => none
    | _ => some (s.enter p (.finished false))
  | .remove id => some { s with table := s.table.remove id }
  | .tick ticks => some { s with now := s.now + ticks }

/-! ## The condition -/

/-- The live sessions beside the one a creation is about to save, once its eviction is applied. -/
def remaining (s : SessionDb) (userId : Guid) (evicted : Option ActiveSession) (flushed : Bool) :
    List ActiveSession :=
  (s.live userId).filter fun session => flushed || evicted.all (·.id ≠ session.id)

/-- The sessions a creation read and lets stand. -/
def keptIds (read : List ActiveSession) (evicted : Option ActiveSession) : List Guid :=
  (read.filter fun session => evicted.all (·.id ≠ session.id)).map (·.id)

/-- Those of the remaining sessions that the creation has not read. -/
def newcomers (s : SessionDb) (userId : Guid) (read : List ActiveSession)
    (evicted : Option ActiveSession) (flushed : Bool) : List ActiveSession :=
  (s.remaining userId evicted flushed).filter fun session => session.id ∉ keptIds read evicted

/-- A creation that saves finds no session inserted since its `SELECT`, or still has room. -/
def roomLeft (calls : Nat → SessionCall) (s : SessionDb) : SessionMove → Bool
  | .act p (.newRow id token) =>
    match calls p, s.stage p with
    | .create userId tenantId, .saving read evicted flushed =>
      (s.saved evicted flushed (.create id userId tenantId token sessionDuration s.now)).isNone ||
        (s.newcomers userId read evicted flushed).isEmpty ||
        (s.remaining userId evicted flushed).length < MaxSessions
    | _, _ => true
  | _ => true

/-- Of the sessions read, as many are evicted as one more needs, and they are the oldest. -/
def EvictsAsNeeded (read : List ActiveSession) (evicted : Option ActiveSession) : Prop :=
  evicted.toList.length = read.length + 1 - MaxSessions ∧
    ∀ oldest ∈ evicted, oldest ∈ read ∧ ∀ session ∈ read, oldest.createdAt ≤ session.createdAt

end SessionDb

/-- The session a creation evicts, from its count on. -/
def SessionStage.evicted : SessionStage → Option ActiveSession
  | .evicting _ oldest => some oldest
  | .saving _ evicted _ => evicted
  | _ => none

/-- The sessions a creation counted. -/
def SessionStage.read : SessionStage → Option (List ActiveSession)
  | .evicting read _ => some read
  | .saving read _ _ => some read
  | _ => none

/-! ## The live sessions after each statement -/

namespace SessionTable

variable {t t' : SessionTable} {now : Nat} {userId id : Guid}

theorem live_revoke (h : t.revoke id = some t') :
    t'.live now userId = (t.live now userId).filter (·.id ≠ id) := by
  unfold revoke at h
  split at h
  · cases h
    unfold live
    have hsame : (fun x : ActiveSession => decide (x.userId = userId) && x.isLive now) ∘
        setRevoked id = fun session => decide (session.id ≠ id) &&
          (decide (session.userId = userId) && session.isLive now) := by
      funext session
      simp only [Function.comp, setRevoked]
      by_cases hid : session.id = id
      · simp [hid, ActiveSession.isLive]
      · simp [hid]
    rw [List.filter_filter, List.filter_map, hsame]
    refine (List.map_congr_left fun session hmem => ?_).trans (List.map_id _)
    have hid : session.id ≠ id := by
      simp only [List.mem_filter, Bool.and_eq_true, decide_eq_true_eq] at hmem
      exact hmem.2.1
    simp [setRevoked, hid]
  · cases h

theorem live_remove (t : SessionTable) (now : Nat) (userId id : Guid) :
    (t.remove id).live now userId = (t.live now userId).filter (·.id ≠ id) := by
  unfold live remove
  rw [List.filter_filter, List.filter_filter]
  exact List.filter_congr fun session _ => Bool.and_comm _ _

theorem live_insert {session : ActiveSession} (h : t.insert session = some t') :
    t'.live now userId = if session.userId = userId ∧ session.isLive now = true then
      session :: t.live now userId else t.live now userId := by
  unfold insert at h
  split at h
  · cases h
  · cases h
    unfold live
    rw [List.filter_cons]
    simp only [Bool.and_eq_true, decide_eq_true_eq]

/-- Time only takes sessions away. -/
theorem live_later (t : SessionTable) {now later : Nat} (hle : now ≤ later) (userId : Guid) :
    (t.live later userId).Sublist (t.live now userId) := by
  refine List.monotone_filter_right t.rows fun session hlive => ?_
  simp only [ActiveSession.isLive, Bool.and_eq_true, decide_eq_true_eq] at hlive ⊢
  exact ⟨hlive.1, hlive.2.1, by omega⟩

theorem live_ids_nodup (t : SessionTable) (now : Nat) (userId : Guid) :
    ((t.live now userId).map (·.id)).Nodup :=
  t.ids_nodup.sublist (List.filter_sublist.map _)

end SessionTable

namespace SessionDb

variable {calls : Nat → SessionCall} {s s' : SessionDb} {p : Nat}

/-- No live session but those of `gone` goes, and none comes. -/
def Shrinks (gone : Guid → Prop) (s s' : SessionDb) : Prop :=
  ∀ userId, (s'.live userId).length ≤ (s.live userId).length ∧
    ∀ session ∈ s.live userId, ¬ gone session.id → session ∈ s'.live userId

theorem shrinks_of_filter {id : Guid}
    (h : ∀ userId, s'.live userId = (s.live userId).filter (·.id ≠ id)) :
    Shrinks (· = id) s s' := by
  intro userId
  rw [h]
  refine ⟨List.length_filter_le _ _, fun session hmem hne => ?_⟩
  rw [List.mem_filter]
  exact ⟨hmem, by simpa using hne⟩

theorem shrinks_enter (gone : Guid → Prop) (s : SessionDb) (p : Nat) (stage : SessionStage) :
    Shrinks gone s (s.enter p stage) :=
  fun _ => ⟨Nat.le_refl _, fun _ hmem _ => hmem⟩

theorem shrinks_revokeCredentials (s : SessionDb) (p : Nat) (id : Guid) (flushed : Bool)
    (next : SessionStage) : Shrinks (· = id) s (s.revokeCredentials p id flushed next) := by
  unfold revokeCredentials
  split
  · cases hrevoke : s.table.revoke id with
    | none => exact shrinks_enter _ s p _
    | some table => exact shrinks_of_filter fun userId => SessionTable.live_revoke hrevoke
  · exact shrinks_enter _ s p _

theorem shrinks_save_revoke (s : SessionDb) (p : Nat) (id : Guid) :
    Shrinks (· = id) s (s.save p (s.table.revoke id)) := by
  unfold save
  cases hrevoke : s.table.revoke id with
  | none => exact shrinks_enter _ s p _
  | some table => exact shrinks_of_filter fun userId => SessionTable.live_revoke hrevoke

/-- What a creation's save leaves live: what remains, and the new session. -/
theorem live_saved {evicted : Option ActiveSession} {flushed : Bool} {session : ActiveSession}
    {table : SessionTable} (h : s.saved evicted flushed session = some table)
    (hlive : session.isLive s.now = true) (userId : Guid) :
    table.live s.now userId = if session.userId = userId then
      session :: s.remaining userId evicted flushed else s.remaining userId evicted flushed := by
  unfold saved at h
  cases evicted with
  | none =>
    have hrem : s.remaining userId none flushed = s.table.live s.now userId := by
      simp [remaining, live]
    rw [SessionTable.live_insert h, hrem, hlive]
    simp
  | some oldest =>
    cases flushed with
    | true =>
      have hrem : s.remaining userId (some oldest) true = s.table.live s.now userId := by
        simp [remaining, live]
      simp only [if_true] at h
      rw [SessionTable.live_insert h, hrem, hlive]
      simp
    | false =>
      simp only [Bool.false_eq_true, if_false, Option.bind_eq_some_iff] at h
      obtain ⟨t, hrevoke, hinsert⟩ := h
      have hrem : s.remaining userId (some oldest) false = t.live s.now userId := by
        rw [SessionTable.live_revoke hrevoke, remaining, live]
        refine List.filter_congr fun x _ => ?_
        simp only [Bool.false_or, Option.all_some]
        exact decide_eq_decide.mpr ne_comm
      rw [SessionTable.live_insert hinsert, hrem, hlive]
      simp

/-! ## Invariant -/

/-- The stage of a creation that has counted: at most five sessions read, and the eviction its
count needs. -/
def StageFits (stage : SessionStage) : Prop :=
  ∀ read, stage.read = some read →
    read.length ≤ MaxSessions ∧ EvictsAsNeeded read stage.evicted

structure Limited (s : SessionDb) : Prop where
  bounded : ∀ userId, (s.live userId).length ≤ MaxSessions
  stages : ∀ p, StageFits (s.stage p)

theorem stageFits_of_read {stage : SessionStage} (h : stage.read = none) : StageFits stage := by
  intro read hread
  rw [h] at hread
  cases hread

/-- At most four of the sessions read are kept. -/
theorem keptIds_length {read : List ActiveSession} {evicted : Option ActiveSession}
    (hread : read.length ≤ MaxSessions) (h : EvictsAsNeeded read evicted) :
    (keptIds read evicted).length < MaxSessions := by
  obtain ⟨hcount, hmem⟩ := h
  unfold MaxSessions at hread hcount ⊢
  rw [keptIds, List.length_map]
  cases evicted with
  | none =>
    have hle := List.length_filter_le
      (fun session : ActiveSession => (none : Option ActiveSession).all (·.id ≠ session.id)) read
    simp only [Option.toList_none, List.length_nil] at hcount
    omega
  | some oldest =>
    have hdrop : (read.filter fun session => (some oldest).all (·.id ≠ session.id)).length <
        read.length :=
      List.length_filter_lt_length_iff_exists.mpr
        ⟨oldest, (hmem oldest rfl).1, fun hne => by simp at hne⟩
    exact Nat.lt_of_lt_of_le hdrop hread

/-- With no newcomers, the sessions that remain are among those kept. -/
theorem remaining_length {userId : Guid} {read : List ActiveSession}
    {evicted : Option ActiveSession} {flushed : Bool} (hread : read.length ≤ MaxSessions)
    (h : EvictsAsNeeded read evicted) (hnone : s.newcomers userId read evicted flushed = []) :
    (s.remaining userId evicted flushed).length < MaxSessions := by
  have hnodup : ((s.remaining userId evicted flushed).map (·.id)).Nodup :=
    (s.table.live_ids_nodup s.now userId).sublist (List.filter_sublist.map _)
  have hsub : (s.remaining userId evicted flushed).map (·.id) ⊆ keptIds read evicted := by
    intro id hmem
    obtain ⟨session, hsession, rfl⟩ := List.mem_map.mp hmem
    have hnot := List.filter_eq_nil_iff.mp hnone session hsession
    simpa using hnot
  have hle := (List.subperm_of_subset hnodup hsub).length_le
  rw [List.length_map] at hle
  exact Nat.lt_of_le_of_lt hle (keptIds_length hread h)

theorem select_fits {userId : Guid} {read : List ActiveSession} (h : Limited s)
    (hs : s.select p userId read = some s') :
    s'.table = s.table ∧ s'.now = s.now ∧ ∃ stage, s'.stage = Function.update s.stage p stage ∧
      StageFits stage := by
  unfold select at hs
  split at hs
  · rename_i hrows
    obtain ⟨hperm, hsorted⟩ := hrows
    have hlength : read.length ≤ MaxSessions := hperm.length_eq ▸ h.bounded userId
    have hnone : read.length < MaxSessions → EvictsAsNeeded read none := by
      intro hlt
      refine ⟨?_, nofun⟩
      simp only [Option.toList_none, List.length_nil]
      omega
    split at hs
    · rename_i oldest rest _
      split at hs
      · rename_i hfull
        cases hs
        refine ⟨rfl, rfl, _, rfl, fun read' hread' => ?_⟩
        cases hread'
        refine ⟨hlength, ?_, fun e he => ?_⟩
        · simp only [SessionStage.evicted, Option.toList_some, List.length_singleton]
          omega
        · -- the rows come oldest first
          cases he
          refine ⟨List.mem_cons_self, fun session hmem => ?_⟩
          cases List.mem_cons.mp hmem with
          | inl heq => exact heq ▸ Nat.le_refl _
          | inr hrest => exact (List.pairwise_cons.mp hsorted).1 session hrest
      · rename_i hroom
        cases hs
        refine ⟨rfl, rfl, _, rfl, fun read' hread' => ?_⟩
        cases hread'
        exact ⟨hlength, hnone (by omega)⟩
    · cases hs
      refine ⟨rfl, rfl, _, rfl, fun read' hread' => ?_⟩
      cases hread'
      exact ⟨hlength, hnone (by decide)⟩
  · cases hs

theorem stageFits_update {stage : SessionStage} (h : ∀ q, StageFits (s.stage q))
    (hstage : StageFits stage) (p q : Nat) : StageFits (Function.update s.stage p stage q) := by
  by_cases hq : q = p
  · subst hq
    rwa [Function.update_self]
  · rw [Function.update_of_ne hq]
    exact h q

theorem stageFits_revokeCredentials {id : Guid} {flushed : Bool} {next : SessionStage}
    (h : ∀ q, StageFits (s.stage q)) (hnext : StageFits next) (q : Nat) :
    StageFits ((s.revokeCredentials p id flushed next).stage q) := by
  unfold revokeCredentials
  split
  · split
    · exact stageFits_update h (stageFits_of_read rfl) p q
    · exact stageFits_update h hnext p q
  · exact stageFits_update h hnext p q

theorem stageFits_save (h : ∀ q, StageFits (s.stage q)) (table : Option SessionTable) (q : Nat) :
    StageFits ((s.save p table).stage q) := by
  unfold save
  split
  · exact stageFits_update h (stageFits_of_read rfl) p q
  · exact stageFits_update h (stageFits_of_read rfl) p q

/-- A step that saves no creation: live sessions only go, and a creation takes none away but the
one it evicts. -/
structure Quiet (calls : Nat → SessionCall) (s s' : SessionDb) (m : SessionMove) : Prop where
  stages : ∀ q, StageFits (s'.stage q)
  room : roomLeft calls s m = true
  shrinks : ∃ gone, Shrinks gone s s' ∧ ∀ p choice userId tenantId, m = .act p choice →
    calls p = .create userId tenantId → ∀ id, gone id → (s.stage p).evicted.map (·.id) = some id

/-- A step that saves a creation. -/
structure Saves (calls : Nat → SessionCall) (s s' : SessionDb) (m : SessionMove) (p : Nat)
    (id : Guid) (token : String) (userId tenantId : Guid) (read : List ActiveSession)
    (evicted : Option ActiveSession) (flushed : Bool) (table : SessionTable) : Prop where
  move : m = .act p (.newRow id token)
  call : calls p = .create userId tenantId
  stage : s.stage p = .saving read evicted flushed
  saved : s.saved evicted flushed (.create id userId tenantId token sessionDuration s.now) =
    some table
  next : s' = { s.enter p (.finished true) with table := table }

/-- The steps of a call. -/
theorem act_cases (h : Limited s) {choice : SessionChoice}
    (hs : s.advance p (calls p) (s.stage p) choice = some s') :
    Quiet calls s s' (.act p choice) ∨
    ∃ id token userId tenantId read evicted flushed table,
      Saves calls s s' (.act p choice) p id token userId tenantId read evicted flushed table := by
  -- the calls that are no creation take what they will
  have hrevocation : ∀ {sessionId userId : Guid} {gone : Guid → Prop}, calls p =
      .revoke sessionId userId → Shrinks gone s s' →
      ∃ gone, Shrinks gone s s' ∧ ∀ q choice' userId tenantId,
        SessionMove.act p choice = .act q choice' → calls q = .create userId tenantId →
        ∀ id, gone id → (s.stage q).evicted.map (·.id) = some id := by
    intro sessionId userId gone hcall hshrinks
    refine ⟨gone, hshrinks, fun q choice' _ _ hact hcreate => ?_⟩
    cases hact
    rw [hcall] at hcreate
    cases hcreate
  have hnone : ∀ s', Shrinks (fun _ => False) s s' →
      ∃ gone, Shrinks gone s s' ∧ ∀ q choice' userId tenantId,
        SessionMove.act p choice = .act q choice' → calls q = .create userId tenantId →
        ∀ id, gone id → (s.stage q).evicted.map (·.id) = some id :=
    fun s' hshrinks => ⟨_, hshrinks, fun _ _ _ _ _ _ _ hfalse => hfalse.elim⟩
  unfold advance at hs
  split at hs
  · cases hs
    exact Or.inl ⟨stageFits_update h.stages (stageFits_of_read rfl) p, rfl,
      hnone _ (shrinks_enter _ s p _)⟩
  · obtain ⟨htable, hnow, stage, hstage, hfits⟩ := select_fits h hs
    refine Or.inl ⟨fun q => ?_, rfl, hnone _ fun userId => ?_⟩
    · rw [hstage]
      exact stageFits_update h.stages hfits p q
    · have hlive : s'.live userId = s.live userId := by
        rw [live, live, htable, hnow]
      rw [hlive]
      exact ⟨Nat.le_refl _, fun _ hmem _ => hmem⟩
  · rename_i read oldest flushed hcall hstage
    cases hs
    have hfits := h.stages p
    rw [hstage] at hfits
    refine Or.inl ⟨stageFits_revokeCredentials h.stages hfits, rfl, (· = oldest.id),
      shrinks_revokeCredentials s p oldest.id flushed _, fun q _ _ _ hact _ id hid => ?_⟩
    cases hact
    rw [hstage, hid]
    rfl
  · rename_i userId tenantId read evicted flushed id token hcall hstage
    cases hs
    cases hsaved : s.saved evicted flushed
        (.create id userId tenantId token sessionDuration s.now) with
    | none =>
      refine Or.inl ⟨stageFits_save h.stages none, ?_, hnone _ (shrinks_enter _ s p _)⟩
      simp only [roomLeft, hcall, hstage, hsaved, Option.isNone_none, Bool.true_or]
    | some table =>
      exact Or.inr ⟨id, token, userId, tenantId, read, evicted, flushed, table, rfl, hcall,
        hstage, hsaved, rfl⟩
  · rename_i sessionId userId hcall hstage
    split at hs
    all_goals
      cases hs
      exact Or.inl ⟨stageFits_update h.stages (stageFits_of_read rfl) p, rfl,
        hnone _ (shrinks_enter _ s p _)⟩
  · rename_i sessionId userId session flushed hcall hstage
    split at hs
    · cases hs
      exact Or.inl ⟨stageFits_update h.stages (stageFits_of_read rfl) p, rfl,
        hnone _ (shrinks_enter _ s p _)⟩
    · cases hs
      exact Or.inl ⟨stageFits_revokeCredentials h.stages (stageFits_of_read rfl), rfl,
        hrevocation hcall (shrinks_revokeCredentials s p session.id flushed _)⟩
  · rename_i sessionId userId session flushed hcall hstage
    split at hs
    · cases hs
      exact Or.inl ⟨stageFits_update h.stages (stageFits_of_read rfl) p, rfl,
        hnone _ (shrinks_enter _ s p _)⟩
    · cases hs
      exact Or.inl ⟨stageFits_save h.stages _, rfl,
        hrevocation hcall (shrinks_save_revoke s p session.id)⟩
  · cases hs

/-- A step only takes live sessions away, or it saves a creation. -/
theorem step_cases (h : Limited s) {m : SessionMove} (hs : step calls s m = some s') :
    Quiet calls s s' m ∨
    ∃ p id token userId tenantId read evicted flushed table,
      Saves calls s s' m p id token userId tenantId read evicted flushed table := by
  cases m with
  | tick ticks =>
    cases hs
    refine Or.inl ⟨h.stages, rfl, fun _ => True, fun userId => ?_, nofun⟩
    have hsub := s.table.live_later (Nat.le_add_right s.now ticks) userId
    exact ⟨hsub.length_le, fun _ _ hnot => absurd trivial hnot⟩
  | remove id =>
    cases hs
    exact Or.inl ⟨h.stages, rfl, (· = id),
      shrinks_of_filter fun userId => SessionTable.live_remove s.table s.now userId id, nofun⟩
  | cancel p =>
    simp only [step] at hs
    split at hs
    · cases hs
    · cases hs
      exact Or.inl ⟨stageFits_update h.stages (stageFits_of_read rfl) p, rfl, fun _ => False,
        shrinks_enter _ s p _, nofun⟩
  | act p choice =>
    cases act_cases h hs with
    | inl hquiet => exact Or.inl hquiet
    | inr hsaves => exact Or.inr ⟨p, hsaves⟩

/-! ## The limit -/

theorem Saves.live {id userId tenantId : Guid} {token : String} {read : List ActiveSession}
    {evicted : Option ActiveSession} {flushed : Bool} {table : SessionTable} {m : SessionMove}
    (h : Saves calls s s' m p id token userId tenantId read evicted flushed table) (user : Guid) :
    s'.live user = if userId = user then
      .create id userId tenantId token sessionDuration s.now ::
        s.remaining user evicted flushed else s.remaining user evicted flushed := by
  rw [h.next]
  have hday : 0 < sessionDuration := by decide
  refine live_saved h.saved ?_ user
  simpa [ActiveSession.isLive, ActiveSession.create] using hday

theorem Saves.room {id userId tenantId : Guid} {token : String} {read : List ActiveSession}
    {evicted : Option ActiveSession} {flushed : Bool} {table : SessionTable} {m : SessionMove}
    (h : Saves calls s s' m p id token userId tenantId read evicted flushed table) :
    roomLeft calls s m = ((s.newcomers userId read evicted flushed).isEmpty ||
      decide ((s.remaining userId evicted flushed).length < MaxSessions)) := by
  rw [h.move]
  simp only [roomLeft, h.call, h.stage, h.saved, Option.isNone_some, Bool.false_or]

/-- A save keeps its user within the limit exactly when it has room. -/
theorem Saves.bounded_iff {id userId tenantId : Guid} {token : String}
    {read : List ActiveSession} {evicted : Option ActiveSession} {flushed : Bool}
    {table : SessionTable} {m : SessionMove} (hl : Limited s)
    (h : Saves calls s s' m p id token userId tenantId read evicted flushed table) :
    (∀ user, (s'.live user).length ≤ MaxSessions) ↔ roomLeft calls s m = true := by
  have hfits : read.length ≤ MaxSessions ∧ EvictsAsNeeded read evicted := by
    have hstage := hl.stages p
    rw [h.stage] at hstage
    exact hstage read rfl
  have hroom : roomLeft calls s m = true ↔
      (s.remaining userId evicted flushed).length < MaxSessions := by
    rw [h.room, Bool.or_eq_true, decide_eq_true_eq, or_iff_right_iff_imp]
    exact fun hnone => remaining_length hfits.1 hfits.2 (List.isEmpty_iff.mp hnone)
  rw [hroom]
  constructor
  · intro hall
    have hown := hall userId
    rw [h.live, if_pos rfl, List.length_cons] at hown
    omega
  · intro hlt user
    rw [h.live]
    split
    · rename_i huser
      subst huser
      exact hlt
    · exact Nat.le_trans (List.length_filter_le _ _) (hl.bounded user)

theorem Quiet.bounded {m : SessionMove} (hl : Limited s) (h : Quiet calls s s' m) (user : Guid) :
    (s'.live user).length ≤ MaxSessions := by
  obtain ⟨_, hshrinks, _⟩ := h.shrinks
  exact Nat.le_trans (hshrinks user).1 (hl.bounded user)

theorem Limited.bounded_iff {m : SessionMove} (h : Limited s) (hs : step calls s m = some s') :
    (∀ user, (s'.live user).length ≤ MaxSessions) ↔ roomLeft calls s m = true := by
  cases step_cases h hs with
  | inl hquiet => exact iff_of_true (hquiet.bounded h) hquiet.room
  | inr hsaves =>
    obtain ⟨p, id, token, userId, tenantId, read, evicted, flushed, table, hsave⟩ := hsaves
    exact hsave.bounded_iff h

theorem Limited.step {m : SessionMove} (h : Limited s) (hroom : roomLeft calls s m = true)
    (hs : step calls s m = some s') : Limited s' := by
  refine ⟨(h.bounded_iff hs).mpr hroom, ?_⟩
  cases step_cases h hs with
  | inl hquiet => exact hquiet.stages
  | inr hsaves =>
    obtain ⟨p, id, token, userId, tenantId, read, evicted, flushed, table, hsave⟩ := hsaves
    rw [hsave.next]
    exact stageFits_update h.stages (stageFits_of_read rfl) p

/-- The live sessions that a step of a creation takes away. -/
theorem Limited.takes_evicted {userId tenantId : Guid} {choice : SessionChoice} (h : Limited s)
    (hs : SessionDb.step calls s (.act p choice) = some s')
    (hcall : calls p = .create userId tenantId)
    {user : Guid} {session : ActiveSession} (hlive : session ∈ s.live user)
    (hgone : session ∉ s'.live user) : (s.stage p).evicted.map (·.id) = some session.id := by
  cases step_cases h hs with
  | inl hquiet =>
    obtain ⟨gone, hshrinks, hevicts⟩ := hquiet.shrinks
    refine hevicts p choice userId tenantId rfl hcall session.id ?_
    by_contra hnot
    exact hgone ((hshrinks user).2 session hlive hnot)
  | inr hsaves =>
    obtain ⟨q, id, token, _, _, read, evicted, flushed, table, hsave⟩ := hsaves
    cases hsave.move
    have hremaining : session ∉ s.remaining user evicted flushed := by
      rw [hsave.live] at hgone
      split at hgone
      · exact fun hmem => hgone (List.mem_cons_of_mem _ hmem)
      · exact hgone
    rw [hsave.stage, SessionStage.evicted]
    unfold remaining at hremaining
    rw [List.mem_filter] at hremaining
    cases evicted with
    | none => exact absurd ⟨hlive, by simp⟩ hremaining
    | some oldest =>
      by_cases hid : oldest.id = session.id
      · exact congrArg some hid
      · exact absurd ⟨hlive, by simp [hid]⟩ hremaining

/-! ## Runs -/

def initial (table : SessionTable) (now : Nat) : SessionDb where
  table := table
  now := now
  stage := fun _ => .start

theorem limited_initial {table : SessionTable} {now : Nat}
    (h : ∀ userId, (table.live now userId).length ≤ MaxSessions) : Limited (initial table now) where
  bounded := h
  stages := fun _ => stageFits_of_read rfl

/-- In a run whose creations all have room when they save, no user has more than five live
sessions, a creation that has counted evicts the oldest of the sessions it counted, as many as one
more needs, and no other of its steps takes a live session away.  The first creation to save
without room is the one that exceeds the limit. -/
theorem sessions_limited_iff_roomLeft (calls : Nat → SessionCall) (table : SessionTable)
    (now : Nat) (h0 : ∀ userId, (table.live now userId).length ≤ MaxSessions) (s : SessionDb)
    (h : Reaches (step calls) (fun s m => roomLeft calls s m = true) (initial table now) s) :
    (∀ userId, (s.live userId).length ≤ MaxSessions) ∧
    (∀ p read, (s.stage p).read = some read → EvictsAsNeeded read (s.stage p).evicted) ∧
    ∀ m s', step calls s m = some s' →
      ((∀ userId, (s'.live userId).length ≤ MaxSessions) ↔ roomLeft calls s m = true) ∧
      ∀ p choice userId tenantId, m = .act p choice → calls p = .create userId tenantId →
        ∀ user, ∀ session ∈ s.live user, session ∉ s'.live user →
          (s.stage p).evicted.map (·.id) = some session.id := by
  have hlimited : Limited s :=
    h.invariant Limited (limited_initial h0) fun _ _ _ ha hroom hs => ha.step hroom hs
  refine ⟨hlimited.bounded, fun p read hread => (hlimited.stages p read hread).2,
    fun m s' hs => ⟨hlimited.bounded_iff hs, ?_⟩⟩
  intro p choice userId tenantId hm hcall user session hlive hgone
  subst hm
  exact hlimited.takes_evicted hs hcall hlive hgone

/-! ## Two sign-ins of a user with four sessions -/

/-- A session of user 1, live for all of the runs below. -/
def heldSession (id : Nat) : ActiveSession :=
  .create id 1 9 "token" sessionDuration id

def heldTable (ids : List Nat) (h : ids.Nodup) : SessionTable where
  rows := ids.map heldSession
  ids_nodup := by
    have hids : (ids.map heldSession).map (·.id) = ids := by
      rw [List.map_map]
      exact List.map_id _
    rwa [hids]

theorem live_heldTable_length {ids : List Nat} (h : ids.Nodup) (hle : ids.length ≤ MaxSessions)
    (now : Nat) (userId : Guid) : ((heldTable ids h).live now userId).length ≤ MaxSessions := by
  have hrows : (heldTable ids h).rows.length = ids.length := List.length_map _
  exact Nat.le_trans (List.length_filter_le _ _) (hrows ▸ hle)

/-- Every call is a sign-in of user 1. -/
def signIns (_ : Nat) : SessionCall := .create 1 9

/-- One sign-in after the other: the first finds room, the second evicts the oldest session. -/
theorem sessions_limited_iff_roomLeft_inTurn :
    let s := (run (step signIns) (roomLeft signIns) (initial (heldTable [1, 2, 3, 4] (by decide)) 5)
      [.act 0 .go, .act 0 (.rows ([1, 2, 3, 4].map heldSession)), .act 0 (.newRow 5 "token"),
        .act 1 .go, .act 1 (.rows ([1, 2, 3, 4, 5].map heldSession)),
        .act 1 (.credentials false), .act 1 (.newRow 6 "token")]).get (by decide +kernel)
    (∀ userId, (s.live userId).length ≤ MaxSessions) ∧ (s.live 1).map (·.id) = [6, 5, 2, 3, 4] := by
  intro s
  refine ⟨?_, by decide +kernel⟩
  exact (sessions_limited_iff_roomLeft signIns (heldTable [1, 2, 3, 4] (by decide)) 5
    (live_heldTable_length (by decide) (by decide) 5) s
    (reaches_of_run (fun _ _ hroom => hroom) (Option.some_get _).symm)).1

/-- Each counts four live sessions before the other saves: the user has six. -/
theorem six_live_sessions :
    ∃ s, Reachable (step signIns) (initial (heldTable [1, 2, 3, 4] (by decide)) 5) s ∧
      (s.live 1).length = 6 := by
  have hrun : (follow (step signIns) (initial (heldTable [1, 2, 3, 4] (by decide)) 5)
      [.act 0 .go, .act 1 .go, .act 0 (.rows ([1, 2, 3, 4].map heldSession)),
        .act 1 (.rows ([1, 2, 3, 4].map heldSession)), .act 0 (.newRow 5 "token"),
        .act 1 (.newRow 6 "token")]).any (fun s => decide ((s.live 1).length = 6)) = true := by
    decide +kernel
  obtain ⟨s, hreach, hs⟩ := exists_reaches_of_run (fun _ _ _ => trivial) hrun
  exact ⟨s, hreach, of_decide_eq_true hs⟩

end SessionDb

end Wallow.Identity
