import Wallow.Lib.Transition
import Wallow.Bff.ValkeyStore

/-!
# Calls of `ensureFreshSession`

`ensureFreshSession` with `refreshUnderLock` of `proxy.ts` over the two stores of the package, cut
where it waits: for Redis, for the issuer, for the seal.  Any number of calls run at once; what
else happens to Redis (other requests, logouts, sign-ins) is left open.
-/

namespace Wallow.Bff

open Transition

inductive SessionStore
  | valkey (st : ValkeySessionStore)
  | cookie

/-- One call: the session it was given, its reference, and the store instance it uses. -/
structure FreshCall where
  session : BffSession
  ref : String
  instanceId : Nat

/-- Where a call stands. -/
inductive FreshPhase
  | start
  | acquireLock
  | exchange
  /-- The rotated session is being written. -/
  | storeRotated (next : BffSession) (todo : List Cmd)
  /-- The callback settled, with its session unless it threw. -/
  | releaseLock (refreshed : Option BffSession)
  /-- The lock is a peer's: the store is read again. -/
  | adopt
  /-- The cookie store handed out the refresh of another call. -/
  | joined (owner : Nat)
  | returned (session : BffSession)
  | thrown
  deriving DecidableEq

inductive FreshChoice
  /-- Nothing to resolve but the id `randomUrlSafe` would return. -/
  | go (random : String)
  | granted (tokens : TokenResponse) (random : String)
  | failed

structure FreshSystem where
  redis : Redis
  /-- `refreshLocks` of each cookie store instance: the call whose run is in flight. -/
  refreshLocks : Nat × String → Option Nat
  now : Int
  phase : Nat → FreshPhase
  /-- When a call read the clock. -/
  began : Nat → Int

inductive FreshMove
  | act (call : Nat) (choice : FreshChoice)
  | other (redis : Redis)
  | tick (milliseconds : Nat)

/-- What a settled run gives its callers. -/
def FreshPhase.outcome : FreshPhase → Option (Option BffSession)
  | .releaseLock refreshed => some refreshed
  | .returned session => some (some session)
  | .thrown => some none
  | _ => none

/-- The session a call has rotated and not returned yet. -/
def FreshPhase.pending : FreshPhase → Option BffSession
  | .storeRotated next _ => some next
  | .releaseLock refreshed => refreshed
  | _ => none

/-- The end of a call whose run settled. -/
def FreshPhase.settled (refreshed : Option BffSession) : FreshPhase :=
  match refreshed with
  | some session => .returned session
  | none => .thrown

namespace FreshSystem

def initial (redis : Redis) (now : Int) : FreshSystem where
  redis := redis
  refreshLocks := fun _ => none
  now := now
  phase := fun _ => .start
  began := fun _ => now

def enter (s : FreshSystem) (p : Nat) (phase : FreshPhase) : FreshSystem :=
  { s with phase := Function.update s.phase p phase }

/-- The commands that write a rotated session. -/
def writeCommands (store : SessionStore) (session : BffSession) (random : String) : List Cmd :=
  match store with
  | .valkey st =>
    let id := ValkeySessionStore.recordId session random
    st.writeCommands id { session with sessionId := id }
  | .cookie => []

/-- `ensureFreshSession` up to the first call it waits for.  The cookie store takes or joins its
lock in the same turn. -/
def begin_ (store : SessionStore) (call : FreshCall) (s : FreshSystem) (p : Nat) : FreshSystem :=
  let s := { s with began := Function.update s.began p s.now }
  if isFresh call.session s.now then s.enter p (.returned call.session)
  else if !hasRefreshToken call.session then s.enter p .thrown
  else match store with
    | .valkey _ => s.enter p .acquireLock
    | .cookie =>
      let key := (call.instanceId, call.ref)
      match s.refreshLocks key with
      | some owner => s.enter p (.joined owner)
      | none =>
        { s with refreshLocks := Function.update s.refreshLocks key (some p) }.enter p .exchange

/-- The lock is given back, and the callers of the run go on. -/
def release (store : SessionStore) (call : FreshCall) (s : FreshSystem) (p : Nat)
    (refreshed : Option BffSession) : FreshSystem :=
  match store with
  | .valkey st =>
    let redis := match st.refToId call.ref with
      | none => s.redis
      | some id => s.redis.apply s.now (.del (.refreshlock id))
    { s with redis := redis }.enter p (.settled refreshed)
  | .cookie =>
    let key := (call.instanceId, call.ref)
    let refreshLocks :=
      if s.refreshLocks key = some p then Function.update s.refreshLocks key none
      else s.refreshLocks
    { s with refreshLocks := refreshLocks }.enter p (.settled refreshed)

def acquire (store : SessionStore) (call : FreshCall) (s : FreshSystem) (p : Nat) :
    Option FreshSystem :=
  match store with
  | .cookie => none
  | .valkey st =>
    match st.refToId call.ref with
    | none => some (s.enter p .adopt)
    | some id =>
      let reply := s.redis.set s.now (.refreshlock id) (.text "1") (some st.lockTtlSeconds) true
      if reply.1 then some ({ s with redis := reply.2 }.enter p .exchange)
      else some (s.enter p .adopt)

/-- The session at the reference, as the store reads it again. -/
def reread (store : SessionStore) (call : FreshCall) (s : FreshSystem) : Option BffSession :=
  match store with
  | .valkey st => st.read s.redis s.now call.ref
  | .cookie => none

def advance (store : SessionStore) (call : FreshCall) (s : FreshSystem) (p : Nat) :
    FreshPhase → FreshChoice → Option FreshSystem
  | .start, .go _ => some (s.begin_ store call p)
  | .acquireLock, .go _ => s.acquire store call p
  | .acquireLock, .failed => some (s.enter p .thrown)
  | .exchange, .granted tokens random =>
    let next := rotated call.session tokens s.now
    -- the issuer grants tokens that outlive the skew
    if EXPIRY_SKEW_MS < tokens.expires_in * MS_PER_SECOND then
      some (s.enter p (.storeRotated next (writeCommands store next random)))
    else none
  | .exchange, .failed => some (s.enter p (.releaseLock none))
  | .storeRotated next [], .go _ => some (s.enter p (.releaseLock (some next)))
  | .storeRotated next (c :: rest), .go _ =>
    some ({ s with redis := s.redis.apply s.now c }.enter p (.storeRotated next rest))
  | .storeRotated _ _, .failed => some (s.enter p (.releaseLock none))
  | .releaseLock refreshed, .go _ => some (s.release store call p refreshed)
  | .releaseLock _, .failed =>
    match store with
    | .valkey _ => some (s.enter p .thrown)
    | .cookie => none
  | .adopt, .go _ => some (s.enter p (.settled (s.reread store call)))
  | .adopt, .failed => some (s.enter p .thrown)
  | .joined owner, .go _ =>
    (s.phase owner).outcome.map fun refreshed => s.enter p (.settled refreshed)
  | _, _ => none

def step (store : SessionStore) (calls : Nat → FreshCall) (s : FreshSystem) :
    FreshMove → Option FreshSystem
  | .act p choice => s.advance store (calls p) p (s.phase p) choice
  | .other redis => some { s with redis := redis }
  | .tick milliseconds => some { s with now := s.now + milliseconds }

/-! ## The property and its condition -/

/-- The session outlives the skew as of the beginning of the call. -/
def outlives (s : FreshSystem) (p : Nat) (session : BffSession) : Bool :=
  isFresh session (s.began p)

/-- Every session returned was fresh when its call began. -/
def ReturnsFresh (s : FreshSystem) : Prop :=
  ∀ p session, s.phase p = .returned session → s.outlives p session = true

/-- What a call takes from a peer is fresh as of the call's beginning: the record that is stored
when a call with a contended lock reads it again, and the outcome of a joined refresh. -/
def adoptsFresh (store : SessionStore) (calls : Nat → FreshCall) (s : FreshSystem) :
    FreshMove → Bool
  | .act p (.go _) =>
    match s.phase p with
    | .adopt => (s.reread store (calls p)).all (s.outlives p)
    | .joined owner => (s.phase owner).outcome.all fun refreshed => refreshed.all (s.outlives p)
    | _ => true
  | _ => true

/-! ## Steps -/

variable {store : SessionStore} {calls : Nat → FreshCall} {call : FreshCall}
  {s s' : FreshSystem} {p : Nat}

/-- What one step of a call leaves: the clock, the other calls, and where the call stands. -/
structure Moves (s s' : FreshSystem) (p : Nat) (check : Bool) : Prop where
  now : s'.now = s.now
  others : ∀ q, q ≠ p → s'.phase q = s.phase q ∧ s'.began q = s.began q
  began : s'.began p ≤ s.now
  running : ∀ session, s.phase p ≠ .returned session
  pending : ∀ session, (s'.phase p).pending = some session → s'.outlives p session = true
  returned : (∀ session, s'.phase p = .returned session → s'.outlives p session = true) ↔
    check = true

/-- Calls that have rotated a session hold one that was fresh when they began. -/
structure Refreshing (s : FreshSystem) : Prop where
  began : ∀ p, s.began p ≤ s.now
  pending : ∀ p session, (s.phase p).pending = some session → s.outlives p session = true

@[simp] theorem phase_enter_self (phase : FreshPhase) : (s.enter p phase).phase p = phase :=
  Function.update_self _ _ _

theorem phase_enter_of_ne {q : Nat} (phase : FreshPhase) (h : q ≠ p) :
    (s.enter p phase).phase q = s.phase q :=
  Function.update_of_ne h _ _

@[simp] theorem settled_eq_returned {refreshed : Option BffSession} {session : BffSession} :
    FreshPhase.settled refreshed = .returned session ↔ refreshed = some session := by
  cases refreshed with
  | none => simp [FreshPhase.settled]
  | some next => simp [FreshPhase.settled]

@[simp] theorem pending_settled (refreshed : Option BffSession) :
    (FreshPhase.settled refreshed).pending = none := by
  cases refreshed <;> rfl

/-- A step that takes the call to a phase and leaves its beginning alone. -/
theorem moves_enter {a : FreshSystem} {phase : FreshPhase} {check : Bool} (h : Refreshing s)
    (hnow : a.now = s.now) (hphase : a.phase = s.phase) (hbegan : a.began = s.began)
    (hrunning : ∀ session, s.phase p ≠ .returned session)
    (hpending : ∀ session, phase.pending = some session → s.outlives p session = true)
    (hreturned : (∀ session, phase = .returned session → s.outlives p session = true) ↔
      check = true) : Moves s (a.enter p phase) p check where
  now := hnow
  others := fun q hq => by
    rw [phase_enter_of_ne phase hq, hphase]
    exact ⟨rfl, congrFun hbegan q⟩
  began := by
    show a.began p ≤ s.now
    rw [hbegan]
    exact h.began p
  running := hrunning
  pending := by
    rw [phase_enter_self]
    intro session hsession
    have hout := hpending session hsession
    unfold outlives at hout ⊢
    show isFresh session (a.began p) = true
    rwa [hbegan]
  returned := by
    rw [phase_enter_self, ← hreturned]
    unfold outlives
    show (∀ session, phase = .returned session → isFresh session (a.began p) = true) ↔ _
    rw [hbegan]

/-- A step to a phase that neither holds nor returns a session. -/
theorem moves_on {a : FreshSystem} {phase : FreshPhase} (h : Refreshing s)
    (hnow : a.now = s.now) (hphase : a.phase = s.phase) (hbegan : a.began = s.began)
    (hrunning : ∀ session, s.phase p ≠ .returned session) (hpending : phase.pending = none)
    (hreturned : ∀ session, phase ≠ .returned session) : Moves s (a.enter p phase) p true := by
  refine moves_enter h hnow hphase hbegan hrunning (fun session hsession => ?_)
    (iff_of_true (fun session hsession => ?_) rfl)
  · rw [hpending] at hsession
    cases hsession
  · exact absurd hsession (hreturned session)

/-- The first step of a call reads the clock. -/
theorem moves_begin (hstart : s.phase p = .start)
    (hs : s' = s.begin_ store call p) : Moves s s' p true := by
  have henter : ∀ {a : FreshSystem} {phase : FreshPhase}, a.now = s.now → a.phase = s.phase →
      a.began = Function.update s.began p s.now → phase.pending = none →
      (∀ session, phase = .returned session → isFresh session s.now = true) →
      Moves s (a.enter p phase) p true := by
    intro a phase hnow hphase hbegan hpending hreturned
    have hself : (a.enter p phase).began p = s.now := by
      show a.began p = s.now
      rw [hbegan, Function.update_self]
    refine ⟨hnow, fun q hq => ⟨?_, ?_⟩, Int.le_of_eq hself, ?_, ?_, iff_of_true ?_ rfl⟩
    · rw [phase_enter_of_ne phase hq, hphase]
    · show a.began q = s.began q
      rw [hbegan, Function.update_of_ne hq]
    · simp [hstart]
    · rw [phase_enter_self, hpending]
      nofun
    · intro session hsession
      rw [phase_enter_self] at hsession
      unfold outlives
      rw [hself]
      exact hreturned session hsession
  subst hs
  unfold begin_
  dsimp only
  split
  · rename_i hfresh
    refine henter rfl rfl rfl rfl fun session hsession => ?_
    cases hsession
    exact hfresh
  · split
    · exact henter rfl rfl rfl rfl (by simp)
    · split
      · exact henter rfl rfl rfl rfl (by simp)
      · split
        · exact henter rfl rfl rfl rfl (by simp)
        · exact henter rfl rfl rfl rfl (by simp)

/-- Tokens granted now outlive the skew as of any call that has begun. -/
theorem isFresh_rotated {session : BffSession} {tokens : TokenResponse} {began now : Int}
    (hbegan : began ≤ now) (hlong : EXPIRY_SKEW_MS < tokens.expires_in * MS_PER_SECOND) :
    isFresh (rotated session tokens now) began = true := by
  unfold isFresh
  refine decide_eq_true ?_
  show now + tokens.expires_in * MS_PER_SECOND - EXPIRY_SKEW_MS > began
  omega

theorem moves_acquire (h : Refreshing s) (hphase : s.phase p = .acquireLock)
    (hs : s.acquire store call p = some s') : Moves s s' p true := by
  have hrunning : ∀ session, s.phase p ≠ .returned session := by
    simp [hphase]
  unfold acquire at hs
  split at hs
  · cases hs
  · split at hs
    · cases hs
      exact moves_on h rfl rfl rfl hrunning rfl (by simp)
    · dsimp only at hs
      split at hs
      · cases hs
        exact moves_on h rfl rfl rfl hrunning rfl (by simp)
      · cases hs
        exact moves_on h rfl rfl rfl hrunning rfl (by simp)

theorem moves_release (h : Refreshing s) {refreshed : Option BffSession}
    (hphase : s.phase p = .releaseLock refreshed) (hs : s' = s.release store call p refreshed) :
    Moves s s' p true := by
  have hrunning : ∀ session, s.phase p ≠ .returned session := by
    simp [hphase]
  have hreturned : ∀ session, FreshPhase.settled refreshed = .returned session →
      s.outlives p session = true := by
    intro session hsession
    rw [settled_eq_returned] at hsession
    refine h.pending p session ?_
    rw [hphase, hsession]
    rfl
  have hpending : ∀ session, (FreshPhase.settled refreshed).pending = some session →
      s.outlives p session = true := by
    rw [pending_settled]
    exact nofun
  subst hs
  unfold release
  cases store with
  | valkey st => exact moves_enter h rfl rfl rfl hrunning hpending (iff_of_true hreturned rfl)
  | cookie => exact moves_enter h rfl rfl rfl hrunning hpending (iff_of_true hreturned rfl)

/-- What a call takes from a peer it returns. -/
theorem moves_settled (h : Refreshing s) {refreshed : Option BffSession}
    (hrunning : ∀ session, s.phase p ≠ .returned session) :
    Moves s (s.enter p (.settled refreshed)) p (refreshed.all (s.outlives p)) := by
  refine moves_enter h rfl rfl rfl hrunning (by rw [pending_settled]; exact nofun) ?_
  simp only [settled_eq_returned, Option.all_eq_true]

theorem moves_of_step {choice : FreshChoice} (h : Refreshing s)
    (hs : step store calls s (.act p choice) = some s') :
    Moves s s' p (s.adoptsFresh store calls (.act p choice)) := by
  simp only [step] at hs
  have hcheck : ∀ {phase : FreshPhase}, s.phase p = phase → phase ≠ .adopt →
      (∀ owner, phase ≠ .joined owner) →
      s.adoptsFresh store calls (.act p choice) = true := by
    intro phase hphase hadopt hjoined
    cases choice with
    | go random =>
      simp only [adoptsFresh, hphase]
    | granted tokens random => rfl
    | failed => rfl
  cases hphase : s.phase p with
  | start =>
    rw [hphase] at hs
    rw [hcheck hphase (by simp) (by simp)]
    cases choice <;> simp only [advance, reduceCtorEq, Option.some.injEq] at hs
    exact moves_begin hphase hs.symm
  | acquireLock =>
    rw [hphase] at hs
    rw [hcheck hphase (by simp) (by simp)]
    cases choice <;> simp only [advance, reduceCtorEq, Option.some.injEq] at hs
    · exact moves_acquire h hphase hs
    · subst hs
      exact moves_on h rfl rfl rfl (by simp [hphase]) rfl (by simp)
  | exchange =>
    rw [hphase] at hs
    rw [hcheck hphase (by simp) (by simp)]
    cases choice <;> simp only [advance, reduceCtorEq, Option.some.injEq] at hs
    · split at hs
      · rename_i hlong
        cases hs
        refine moves_enter h rfl rfl rfl (by simp [hphase]) (fun session hsession => ?_)
          (iff_of_true (by simp) rfl)
        cases hsession
        exact isFresh_rotated (h.began p) hlong
      · cases hs
    · subst hs
      exact moves_on h rfl rfl rfl (by simp [hphase]) rfl (by simp)
  | storeRotated next todo =>
    rw [hphase] at hs
    rw [hcheck hphase (by simp) (by simp)]
    have hnext : ∀ session, some next = some session → s.outlives p session = true := by
      intro session hsession
      refine h.pending p session ?_
      rw [hphase, ← hsession]
      rfl
    have hrunning : ∀ session, s.phase p ≠ .returned session := by
      simp [hphase]
    cases choice with
    | go random =>
      cases todo with
      | nil =>
        cases hs
        exact moves_enter h rfl rfl rfl hrunning hnext (iff_of_true (by simp) rfl)
      | cons c rest =>
        cases hs
        exact moves_enter h rfl rfl rfl hrunning hnext (iff_of_true (by simp) rfl)
    | granted tokens random => cases todo <;> cases hs
    | failed =>
      cases todo <;> cases hs
      · exact moves_on h rfl rfl rfl hrunning rfl (by simp)
      · exact moves_on h rfl rfl rfl hrunning rfl (by simp)
  | releaseLock refreshed =>
    rw [hphase] at hs
    rw [hcheck hphase (by simp) (by simp)]
    cases choice <;> simp only [advance, reduceCtorEq, Option.some.injEq] at hs
    · exact moves_release h hphase hs.symm
    · split at hs
      · cases hs
        exact moves_on h rfl rfl rfl (by simp [hphase]) rfl (by simp)
      · cases hs
  | adopt =>
    rw [hphase] at hs
    have hrunning : ∀ session, s.phase p ≠ .returned session := by
      simp [hphase]
    cases choice with
    | go random =>
      cases hs
      have hread : s.adoptsFresh store calls (.act p (.go random)) =
          (s.reread store (calls p)).all (s.outlives p) := by
        simp only [adoptsFresh, hphase]
      rw [hread]
      exact moves_settled h hrunning
    | granted tokens random => cases hs
    | failed =>
      cases hs
      exact moves_on h rfl rfl rfl hrunning rfl (by simp)
  | joined owner =>
    rw [hphase] at hs
    have hrunning : ∀ session, s.phase p ≠ .returned session := by
      simp [hphase]
    cases choice with
    | go random =>
      obtain ⟨refreshed, houtcome, rfl⟩ := Option.map_eq_some_iff.mp hs
      have hjoin : s.adoptsFresh store calls (.act p (.go random)) =
          refreshed.all (s.outlives p) := by
        simp only [adoptsFresh, hphase, houtcome, Option.all_some]
      rw [hjoin]
      exact moves_settled h hrunning
    | granted tokens random => cases hs
    | failed => cases hs
  | returned session =>
    rw [hphase] at hs
    cases choice <;> cases hs
  | thrown =>
    rw [hphase] at hs
    cases choice <;> cases hs

theorem Refreshing.step {m : FreshMove} (h : Refreshing s)
    (hs : FreshSystem.step store calls s m = some s') : Refreshing s' := by
  cases m with
  | other redis =>
    cases hs
    exact ⟨h.began, h.pending⟩
  | tick milliseconds =>
    cases hs
    refine ⟨fun p => ?_, h.pending⟩
    have hle := h.began p
    show s.began p ≤ s.now + milliseconds
    omega
  | act p choice =>
    have hmoves := moves_of_step h hs
    refine ⟨fun q => ?_, fun q session hpending => ?_⟩
    · rw [hmoves.now]
      by_cases hq : q = p
      · subst hq
        exact hmoves.began
      · rw [(hmoves.others q hq).2]
        exact h.began q
    · by_cases hq : q = p
      · subst hq
        exact hmoves.pending session hpending
      · unfold outlives
        rw [(hmoves.others q hq).1] at hpending
        rw [(hmoves.others q hq).2]
        exact h.pending q session hpending

/-- A step keeps all returned sessions fresh exactly when what it takes from a peer is. -/
theorem Refreshing.returnsFresh_step {m : FreshMove} (h : Refreshing s)
    (hs : FreshSystem.step store calls s m = some s') :
    ReturnsFresh s' ↔ ReturnsFresh s ∧ s.adoptsFresh store calls m = true := by
  cases m with
  | other redis =>
    cases hs
    exact (and_iff_left rfl).symm
  | tick milliseconds =>
    cases hs
    exact (and_iff_left rfl).symm
  | act p choice =>
    have hmoves := moves_of_step h hs
    rw [← hmoves.returned]
    unfold ReturnsFresh
    constructor
    · intro hall
      refine ⟨fun q session hq => ?_, hall p⟩
      by_cases hqp : q = p
      · subst hqp
        exact absurd hq (hmoves.running session)
      · have hold := hall q session ((hmoves.others q hqp).1.trans hq)
        unfold outlives at hold ⊢
        rwa [(hmoves.others q hqp).2] at hold
    · rintro ⟨hold, hown⟩ q session hq
      by_cases hqp : q = p
      · subst hqp
        exact hown session hq
      · rw [(hmoves.others q hqp).1] at hq
        have hfresh := hold q session hq
        unfold outlives at hfresh ⊢
        rwa [(hmoves.others q hqp).2]

theorem refreshing_initial (redis : Redis) (now : Int) : Refreshing (initial redis now) where
  began := fun _ => Int.le_refl now
  pending := nofun

/-! ## Runs -/

/-- A session whose access token has expired, as its sign-in stored it. -/
def staleSession : BffSession where
  sessionId := "s1"
  accessToken := "a0"
  refreshToken := some "t0"
  idToken := none
  expiresAt := 0
  user := ⟨"alice"⟩
  sid := none
  version := 1
  csrfToken := none

def tenMinutes : TokenResponse := ⟨"a1", some "t1", none, 600⟩

/-- Every call is given the stale session. -/
def staleCalls (_ : Nat) : FreshCall := ⟨staleSession, ValkeySessionStore.marked.idToRef "s1", 0⟩

def stored : Redis := (ValkeySessionStore.marked.write Redis.empty 0 staleSession "").2

/-- The second call finds the lock taken and reads again once the first has stored its tokens. -/
def patientMoves : List FreshMove :=
  [.act 0 (.go ""), .act 0 (.go ""), .act 1 (.go ""), .act 1 (.go ""),
    .act 0 (.granted tenMinutes ""), .act 0 (.go ""), .act 1 (.go "")]

end FreshSystem

end Wallow.Bff
