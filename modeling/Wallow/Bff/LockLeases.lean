import Wallow.Lib.Lease
import Wallow.Bff.ValkeyStore

/-!
# The refresh lock and the service-token lock

`ValkeySessionStore.withRefreshLock` and `ServiceTokenSource.acquire` of `service.ts`: `SET NX EX`,
guarded work of any length, and a plain `DEL` in the `finally`.  The work is cut at its Redis and
issuer calls.  Both are instances of `Lease`; a caller that finds the lock held never deletes it.
-/

namespace Wallow.Bff

open Transition

def LOCK_TTL_SECONDS : Int := 10
def LOCK_POLL_MS : Int := 50
def NO_EXPIRY_SECONDS : Int := 0

/-- A cached token record of `service.ts`. -/
structure CachedToken where
  accessToken : String
  expiresAt : Int
  deriving DecidableEq

/-- The keys of one service account; `scopeKey` is its encoded, sorted scope list. -/
structure ServiceTokenSource where
  clientId : String
  scopeKey : String

def ServiceTokenSource.cacheKey (source : ServiceTokenSource) : String :=
  "wallow:service-token:" ++ source.clientId ++ ":" ++ source.scopeKey

def ServiceTokenSource.lockKey (source : ServiceTokenSource) : String :=
  "wallow:service-token-lock:" ++ source.clientId ++ ":" ++ source.scopeKey

/-! ## Callers -/

inductive LockCall where
  | withRefreshLock (st : ValkeySessionStore) (keyPrefix ref : String)
  | acquire (source : ServiceTokenSource)

namespace LockCall

/-- `none` for a reference that does not unseal: the call returns without touching a lock. -/
def lockKey : LockCall → Option String
  | .withRefreshLock st keyPrefix ref =>
    (st.refToId ref).map fun id => Key.render keyPrefix (.refreshlock id)
  | .acquire source => some source.lockKey

def lockTtlSeconds : LockCall → Int
  | .withRefreshLock st _ _ => st.lockTtlSeconds
  | .acquire _ => LOCK_TTL_SECONDS

end LockCall

/-- The next thing the work does; `callback` is the whole of `fn`. -/
inductive Work where
  | callback
  | readCache
  | fetch
  | cache (record : CachedToken) (expiresIn : Int)
  deriving DecidableEq

/-- Where a caller stands.  `lapses` is the instant its lock's TTL runs out, which the code never
looks at. -/
inductive LockPhase where
  | start
  | holding (lapses : Int) (work : Work)
  | releasing (lapses : Int)
  | awaiting (deadline : Int)
  | sleeping (deadline wakesAt : Int)
  | polling (deadline : Int)
  | lastRead
  | unlocked (work : Work)
  | done
  deriving DecidableEq

inductive LockChoice where
  | go
  | granted (accessToken : String) (expiresIn : Int)
  | failed
  deriving DecidableEq

/-- The token cache and the locks live in one Redis; their keys differ in the second segment. -/
structure LockState where
  locks : ExpiringMap String String
  cache : ExpiringMap String CachedToken
  now : Int
  phase : Nat → LockPhase

inductive LockMove where
  | act (caller : Nat) (choice : LockChoice)
  | tick (milliseconds : Nat)

namespace LockState

/-- No lock is taken and no caller has started; the cache may hold anything. -/
def initial (cache : ExpiringMap String CachedToken) (now : Int) : LockState :=
  ⟨.empty, cache, now, fun _ => .start⟩

def readCache (s : LockState) (source : ServiceTokenSource) : Option CachedToken :=
  (s.cache.lookup s.now source.cacheKey).filter fun cached =>
    cached.expiresAt - EXPIRY_SKEW_MS > s.now

end LockState

/-- `firstWork`, once the lock is taken. -/
def LockCall.firstWork : LockCall → Work
  | .withRefreshLock _ _ _ => .callback
  | .acquire _ => .readCache

/-- Where a caller goes that finds the lock held. -/
def LockCall.contended (now : Int) : LockCall → LockPhase
  | .withRefreshLock _ _ _ => .done
  | .acquire _ => .awaiting (now + LOCK_TTL_SECONDS * MS_PER_SECOND)

/-- One call of the work: what is left of it, `none` once it has settled, and the cache. -/
def doWork (source : Option ServiceTokenSource) (s : LockState) :
    Work → LockChoice → Option (Option Work × ExpiringMap String CachedToken)
  -- what the callback of `withRefreshLock` does is its own affair: it settles
  | .callback, .go => some (none, s.cache)
  | .readCache, .go =>
    source.map fun source =>
      match s.readCache source with
      | some _ => (none, s.cache)
      | none => (some .fetch, s.cache)
  | .fetch, .granted accessToken expiresIn =>
    let record : CachedToken := ⟨accessToken, s.now + expiresIn * MS_PER_SECOND⟩
    -- a token without a lifetime is used once and not cached
    if expiresIn > NO_EXPIRY_SECONDS then some (some (.cache record expiresIn), s.cache)
    else some (none, s.cache)
  | .fetch, .failed => some (none, s.cache)
  | .cache record expiresIn, .go =>
    source.map fun source =>
      (none, s.cache.put source.cacheKey record (some (s.now + expiresIn * MS_PER_SECOND)))
  | _, _ => none

def LockCall.source : LockCall → Option ServiceTokenSource
  | .withRefreshLock _ _ _ => none
  | .acquire source => some source

/-- One call of a caller. -/
def LockState.advance (call : LockCall) (s : LockState) (phase : LockPhase) (choice : LockChoice) :
    Option (LockPhase × ExpiringMap String String × ExpiringMap String CachedToken) :=
  match phase, choice with
  | .start, .go =>
    match call.lockKey with
    | none => some (.done, s.locks, s.cache)
    | some key =>
      let lapses := s.now + call.lockTtlSeconds * MS_PER_SECOND
      match s.locks.alive s.now key with
      | none => some (.holding lapses call.firstWork, s.locks.put key "1" (some lapses), s.cache)
      | some _ => some (call.contended s.now, s.locks, s.cache)
  | .holding lapses work, choice =>
    (doWork call.source s work choice).map fun result =>
      match result.1 with
      | some work' => (.holding lapses work', s.locks, result.2)
      | none => (.releasing lapses, s.locks, result.2)
  -- the `DEL` names the key only, whoever set it
  | .releasing _, .go => call.lockKey.map fun key => (.done, s.locks.erase key, s.cache)
  | .awaiting deadline, .go =>
    -- the loop's own test comes before its sleep
    if s.now ≥ deadline then some (.unlocked .fetch, s.locks, s.cache)
    else some (.sleeping deadline (s.now + LOCK_POLL_MS), s.locks, s.cache)
  | .sleeping deadline wakesAt, .go =>
    if s.now < wakesAt then none
    else call.source.map fun source =>
      match s.readCache source with
      | some _ => (.done, s.locks, s.cache)
      | none => (.polling deadline, s.locks, s.cache)
  | .polling deadline, .go =>
    call.lockKey.map fun key =>
      match s.locks.alive s.now key with
      | none => (.lastRead, s.locks, s.cache)
      | some _ => (.awaiting deadline, s.locks, s.cache)
  | .lastRead, .go =>
    call.source.map fun source =>
      match s.readCache source with
      | some _ => (.done, s.locks, s.cache)
      | none => (.unlocked .fetch, s.locks, s.cache)
  | .unlocked work, choice =>
    (doWork call.source s work choice).map fun result =>
      match result.1 with
      | some work' => (.unlocked work', s.locks, result.2)
      | none => (.done, s.locks, result.2)
  | _, _ => none

namespace LockState

def step (calls : Nat → LockCall) (s : LockState) : LockMove → Option LockState
  | .act caller choice =>
    (s.advance (calls caller) (s.phase caller) choice).map fun result =>
      { s with
        phase := Function.update s.phase caller result.1
        locks := result.2.1
        cache := result.2.2 }
  | .tick milliseconds => some { s with now := s.now + milliseconds }

end LockState

/-! ## What a caller believes -/

/-- From its `SET NX` to its `DEL` a caller takes the lock to be its own. -/
def LockPhase.grant (call : LockCall) : LockPhase → Option (String × Int)
  | .holding lapses _ => call.lockKey.map fun key => (key, lapses)
  | .releasing lapses => call.lockKey.map fun key => (key, lapses)
  | _ => none

namespace LockState

variable (calls : Nat → LockCall)

/-- The caller takes the lock at `key` to be its own, and its TTL has not lapsed. -/
def Believes (s : LockState) (caller : Nat) (key : String) : Prop :=
  ∃ lapses, (s.phase caller).grant (calls caller) = some (key, lapses) ∧ s.now < lapses

/-- The step takes away a live lock that a caller other than the one moving holds. -/
def RemovesAnothers (s : LockState) (m : LockMove) (s' : LockState) : Prop :=
  ∃ other key, (∀ choice, m ≠ .act other choice) ∧ Believes calls s other key ∧
    (s.locks.alive s.now key).isSome ∧ s'.locks.alive s.now key = none

/-- A `DEL` comes before its caller's TTL has lapsed, or finds no live lock. -/
def ReleasesBeforeLapse (s : LockState) : LockMove → Prop
  | .act caller .go =>
    ∀ lapses key, s.phase caller = .releasing lapses → (calls caller).lockKey = some key →
      s.now < lapses ∨ s.locks.alive s.now key = none
  | _ => True

/-- `ReleasesBeforeLapse`, computed. -/
def releasesBeforeLapse (s : LockState) : LockMove → Bool
  | .act caller .go =>
    match s.phase caller, (calls caller).lockKey with
    | .releasing lapses, some key => s.now < lapses || (s.locks.alive s.now key).isNone
    | _, _ => true
  | _ => true

theorem releasesBeforeLapse_sound {s : LockState} {m : LockMove}
    (h : releasesBeforeLapse calls s m = true) : ReleasesBeforeLapse calls s m := by
  cases m with
  | tick milliseconds => trivial
  | act caller choice =>
    cases choice with
    | go =>
      intro lapses key hphase hkey
      simpa [releasesBeforeLapse, hphase, hkey] using h
    | granted accessToken expiresIn => trivial
    | failed => trivial

/-- The state as the lease machine sees it. -/
def lease (s : LockState) : Lease.State Nat String String :=
  ⟨s.locks, s.now, fun caller => (s.phase caller).grant (calls caller)⟩

/-! ## Each call is a move of the lease machine, or none -/

variable {calls} {s s' : LockState}

/-- What one call can do to the locks: nothing, take a free one, or delete its own key. -/
theorem advance_cases {call : LockCall} {phase phase' : LockPhase} {choice : LockChoice}
    {locks : ExpiringMap String String} {cache : ExpiringMap String CachedToken}
    (h : s.advance call phase choice = some (phase', locks, cache)) :
    (locks = s.locks ∧ phase'.grant call = phase.grant call ∧
      ∀ lapses, phase ≠ .releasing lapses) ∨
    (∃ key lapses, s.locks.alive s.now key = none ∧ phase = .start ∧
      locks = s.locks.put key "1" (some lapses) ∧ phase'.grant call = some (key, lapses)) ∨
    ∃ key lapses, choice = .go ∧ phase = .releasing lapses ∧ call.lockKey = some key ∧
      locks = s.locks.erase key ∧ phase'.grant call = none := by
  cases phase with
  | start =>
    cases choice <;> simp only [advance, reduceCtorEq] at h
    cases hkey : call.lockKey with
    | none =>
      simp only [hkey, Option.some.injEq, Prod.mk.injEq] at h
      obtain ⟨rfl, rfl, -⟩ := h
      exact Or.inl ⟨rfl, rfl, fun _ h => by cases h⟩
    | some key =>
      cases halive : s.locks.alive s.now key with
      | none =>
        simp only [hkey, halive, Option.some.injEq, Prod.mk.injEq] at h
        obtain ⟨rfl, rfl, -⟩ := h
        refine Or.inr (Or.inl ⟨key, _, halive, rfl, rfl, ?_⟩)
        rw [LockPhase.grant, hkey, Option.map_some]
      | some e =>
        simp only [hkey, halive, Option.some.injEq, Prod.mk.injEq] at h
        obtain ⟨rfl, rfl, -⟩ := h
        refine Or.inl ⟨rfl, ?_, fun _ h => by cases h⟩
        -- found held: a session's caller gives up, a token's caller polls
        cases call <;> rfl
  | holding lapses work =>
    simp only [advance, Option.map_eq_some_iff] at h
    obtain ⟨result, -, hresult⟩ := h
    cases hwork : result.1 with
    | none =>
      simp only [hwork, Prod.mk.injEq] at hresult
      obtain ⟨rfl, rfl, -⟩ := hresult
      exact Or.inl ⟨rfl, rfl, fun _ h => by cases h⟩
    | some work' =>
      simp only [hwork, Prod.mk.injEq] at hresult
      obtain ⟨rfl, rfl, -⟩ := hresult
      exact Or.inl ⟨rfl, rfl, fun _ h => by cases h⟩
  | releasing lapses =>
    cases choice <;> simp only [advance, Option.map_eq_some_iff, Prod.mk.injEq, reduceCtorEq] at h
    obtain ⟨key, hkey, rfl, rfl, -⟩ := h
    exact Or.inr (Or.inr ⟨key, lapses, rfl, rfl, hkey, rfl, rfl⟩)
  | awaiting deadline =>
    cases choice <;> simp only [advance, reduceCtorEq] at h
    split at h
    · simp only [Option.some.injEq, Prod.mk.injEq] at h
      obtain ⟨rfl, rfl, -⟩ := h
      exact Or.inl ⟨rfl, rfl, fun _ h => by cases h⟩
    · simp only [Option.some.injEq, Prod.mk.injEq] at h
      obtain ⟨rfl, rfl, -⟩ := h
      exact Or.inl ⟨rfl, rfl, fun _ h => by cases h⟩
  | sleeping deadline wakesAt =>
    cases choice <;> simp only [advance, reduceCtorEq] at h
    split at h
    · cases h
    · obtain ⟨source, -, hresult⟩ := Option.map_eq_some_iff.mp h
      cases hread : s.readCache source with
      | none =>
        simp only [hread, Prod.mk.injEq] at hresult
        obtain ⟨rfl, rfl, -⟩ := hresult
        exact Or.inl ⟨rfl, rfl, fun _ h => by cases h⟩
      | some cached =>
        simp only [hread, Prod.mk.injEq] at hresult
        obtain ⟨rfl, rfl, -⟩ := hresult
        exact Or.inl ⟨rfl, rfl, fun _ h => by cases h⟩
  | polling deadline =>
    cases choice <;> simp only [advance, Option.map_eq_some_iff, reduceCtorEq] at h
    obtain ⟨key, -, hresult⟩ := h
    cases halive : s.locks.alive s.now key with
    | none =>
      simp only [halive, Prod.mk.injEq] at hresult
      obtain ⟨rfl, rfl, -⟩ := hresult
      exact Or.inl ⟨rfl, rfl, fun _ h => by cases h⟩
    | some e =>
      simp only [halive, Prod.mk.injEq] at hresult
      obtain ⟨rfl, rfl, -⟩ := hresult
      exact Or.inl ⟨rfl, rfl, fun _ h => by cases h⟩
  | lastRead =>
    cases choice <;> simp only [advance, Option.map_eq_some_iff, reduceCtorEq] at h
    obtain ⟨source, -, hresult⟩ := h
    cases hread : s.readCache source with
    | none =>
      simp only [hread, Prod.mk.injEq] at hresult
      obtain ⟨rfl, rfl, -⟩ := hresult
      exact Or.inl ⟨rfl, rfl, fun _ h => by cases h⟩
    | some cached =>
      simp only [hread, Prod.mk.injEq] at hresult
      obtain ⟨rfl, rfl, -⟩ := hresult
      exact Or.inl ⟨rfl, rfl, fun _ h => by cases h⟩
  | unlocked work =>
    simp only [advance, Option.map_eq_some_iff] at h
    obtain ⟨result, -, hresult⟩ := h
    cases hwork : result.1 with
    | none =>
      simp only [hwork, Prod.mk.injEq] at hresult
      obtain ⟨rfl, rfl, -⟩ := hresult
      exact Or.inl ⟨rfl, rfl, fun _ h => by cases h⟩
    | some work' =>
      simp only [hwork, Prod.mk.injEq] at hresult
      obtain ⟨rfl, rfl, -⟩ := hresult
      exact Or.inl ⟨rfl, rfl, fun _ h => by cases h⟩
  | done => cases choice <;> simp only [advance, reduceCtorEq] at h

/-- Updating one phase updates one grant. -/
theorem grants_update (calls : Nat → LockCall) (phases : Nat → LockPhase) (caller : Nat)
    (phase : LockPhase) :
    (fun i => (Function.update phases caller phase i).grant (calls i)) =
      Function.update (fun i => (phases i).grant (calls i)) caller
        (phase.grant (calls caller)) := by
  funext i
  by_cases hi : i = caller
  · subst hi
    rw [Function.update_self, Function.update_self]
  · rw [Function.update_of_ne hi, Function.update_of_ne hi]

/-- The lease move a step makes, if it makes one. -/
theorem step_lease {m : LockMove} (h : step calls s m = some s') :
    (s'.lease calls = s.lease calls ∧ ReleasesBeforeLapse calls s m ∧ s'.locks = s.locks) ∨
    ∃ m', Lease.step (s.lease calls) m' = some (s'.lease calls) ∧
      (ReleasesBeforeLapse calls s m ↔ Lease.Timely (s.lease calls) m') ∧
      ((∃ caller choice, m = .act caller choice ∧ m' = .release caller) ∨
        ∀ caller, m' ≠ .release caller) := by
  cases m with
  | tick milliseconds =>
    cases h
    exact Or.inr ⟨.elapse milliseconds, rfl, Iff.rfl, Or.inr nofun⟩
  | act caller choice =>
    simp only [step, Option.map_eq_some_iff] at h
    obtain ⟨⟨phase', locks, cache⟩, hadvance, rfl⟩ := h
    have hlease : ∀ p : LockState, p.lease calls = ⟨p.locks, p.now, fun i =>
        (p.phase i).grant (calls i)⟩ := fun _ => rfl
    rw [hlease]
    simp only [grants_update]
    obtain ⟨rfl, hgrant, hphase⟩ | ⟨key, lapses, halive, hphase, rfl, hgrant⟩ |
      ⟨key, lapses, rfl, hphase, hkey, rfl, hgrant⟩ := advance_cases hadvance
    -- a call that leaves the locks and the grant alone is no move
    · refine Or.inl ⟨?_, ?_, rfl⟩
      · rw [hgrant, Function.update_eq_self]
        rfl
      · cases choice with
        | go => exact fun lapses _ hrel => absurd hrel (hphase lapses)
        | granted accessToken expiresIn => trivial
        | failed => trivial
    -- the `SET NX` found no live lock
    · refine Or.inr ⟨.acquire caller key "1" lapses, ?_, ?_, Or.inr nofun⟩
      · have hidle : (s.lease calls).grants caller = none := by
          show (s.phase caller).grant (calls caller) = none
          rw [hphase]
          rfl
        have hfree : (s.lease calls).locks.alive (s.lease calls).now key = none := halive
        rw [Lease.step, hidle, hfree, hgrant]
        rfl
      · refine iff_of_true ?_ trivial
        cases choice with
        | go =>
          intro lapses' _ hrel
          rw [hphase] at hrel
          cases hrel
        | granted accessToken expiresIn => trivial
        | failed => trivial
    -- the `DEL`: the grant says which key and when it lapses
    · have hheld : (s.lease calls).grants caller = some (key, lapses) := by
        show (s.phase caller).grant (calls caller) = some (key, lapses)
        rw [hphase, LockPhase.grant, hkey, Option.map_some]
      refine Or.inr ⟨.release caller, ?_, ?_, Or.inl ⟨caller, .go, rfl, rfl⟩⟩
      · rw [Lease.step, hheld, hgrant]
        rfl
      · constructor
        · intro hg key' lapses' hgrant'
          rw [hheld, Option.some.injEq, Prod.mk.injEq] at hgrant'
          obtain ⟨rfl, rfl⟩ := hgrant'
          exact hg lapses key hphase hkey
        · intro hg lapses' key' hphase' hkey'
          rw [hphase, LockPhase.releasing.injEq] at hphase'
          rw [hkey, Option.some.injEq] at hkey'
          obtain rfl := hphase'
          obtain rfl := hkey'
          exact hg key lapses hheld

/-! ## Mutual exclusion -/

theorem backed_of_reaches {cache : ExpiringMap String CachedToken} {now : Int}
    (h : Reaches (step calls) (ReleasesBeforeLapse calls) (initial cache now) s) :
    Lease.Backed (s.lease calls) := by
  have hsim : ∃ a, Reaches Lease.step Lease.Timely ((initial cache now).lease calls) a ∧
      a = s.lease calls := by
    -- the lease machine runs along; a call that is no move of it leaves it where it is
    refine h.simulate (R := fun s a => a = s.lease calls) rfl ?_
    rintro s m s' _ rfl hg hs
    obtain ⟨heq, -, -⟩ | ⟨m', hm', htimely, -⟩ := step_lease hs
    · exact ⟨s.lease calls, .refl, heq.symm⟩
    · exact ⟨s'.lease calls, .tail .refl (htimely.mp hg) hm', rfl⟩
  obtain ⟨a, hreach, rfl⟩ := hsim
  have hfrom : Reaches Lease.step Lease.Timely (Lease.State.initial now) (s.lease calls) := hreach
  exact Lease.backed_of_reaches hfrom

/-- Where the locks are backed, a step removes another's live lock exactly when it is a `DEL` that
comes too late. -/
theorem removesAnothers_iff {m : LockMove} (hb : Lease.Backed (s.lease calls))
    (h : step calls s m = some s') :
    RemovesAnothers calls s m s' ↔ ¬ ReleasesBeforeLapse calls s m := by
  obtain ⟨-, hg, hlocks⟩ | ⟨m', hm', htimely, hm⟩ := step_lease h
  · refine iff_of_false ?_ (not_not_intro hg)
    rintro ⟨other, key, -, -, hsome, hnone⟩
    rw [hlocks, Option.isSome_iff_ne_none] at *
    exact hsome hnone
  · rw [htimely]
    obtain ⟨caller, choice, rfl, rfl⟩ | hnot := hm
    · -- the step is the `DEL` of `caller`
      obtain ⟨key, lapses, hgrant, hlocks⟩ := Lease.release_locks hm'
      have hlocks : s'.locks = s.locks.erase key := hlocks
      rw [Lease.Timely, ← hb.steals_iff]
      constructor
      · rintro ⟨other, key', hother, hbelieves, hsome, hnone⟩
        have hkey : key' = key := by
          -- only the deleted key can have lost its lock
          by_cases hk : key' = key
          · exact hk
          · rw [hlocks, ExpiringMap.alive_erase_of_ne _ _ hk] at hnone
            rw [hnone] at hsome
            cases hsome
        subst hkey
        have hne : other ≠ caller := by
          rintro rfl
          exact hother choice rfl
        exact ⟨key', lapses, other, hgrant, hne, hbelieves, hsome⟩
      · rintro ⟨key', lapses', other, hgrant', hne, hholds, hsome⟩
        rw [hgrant, Option.some.injEq, Prod.mk.injEq] at hgrant'
        obtain ⟨rfl, rfl⟩ := hgrant'
        refine ⟨other, key, ?_, hholds, hsome, ?_⟩
        · intro choice' heq
          cases heq
          exact hne rfl
        · rw [hlocks, ExpiringMap.alive, ExpiringMap.erase_self]
          rfl
    · refine iff_of_false ?_ ?_
      · rintro ⟨other, key, -, -, hsome, hnone⟩
        have hsame : s'.locks.alive s.now key = s.locks.alive s.now key :=
          Lease.alive_of_not_release hnot hm' hsome
        rw [hsame] at hnone
        rw [hnone] at hsome
        cases hsome
      · cases m' with
        | release caller => exact absurd rfl (hnot caller)
        | acquire caller key value lapses => exact not_not_intro trivial
        | elapse time => exact not_not_intro trivial

/-- In a run whose releases all come before their lapse or find no live lock, at most one caller
with an unlapsed TTL takes a lock to be its own; and there the steps that remove a live lock
another caller holds are exactly the releases that fail the condition. -/
theorem locks_exclude_iff (calls : Nat → LockCall) (cache : ExpiringMap String CachedToken)
    (now : Int) (s : LockState)
    (h : Reaches (step calls) (ReleasesBeforeLapse calls) (initial cache now) s) :
    (∀ i j key, Believes calls s i key → Believes calls s j key → i = j) ∧
    ∀ m s', step calls s m = some s' →
      (RemovesAnothers calls s m s' ↔ ¬ ReleasesBeforeLapse calls s m) := by
  have hb := backed_of_reaches h
  exact ⟨hb.exclusive, fun m s' hs => removesAnothers_iff hb hs⟩

/-- Three replicas of one service account, and the refreshes of one session by three requests. -/
def replicas : Nat → LockCall :=
  fun _ => .acquire ⟨"svc", "read"⟩

def refreshes : Nat → LockCall :=
  fun _ => .withRefreshLock .marked "wallow" (ValkeySessionStore.marked.idToRef "s1")

def idle : LockState := initial .empty 0

/-- A holder that outlives its lock, and is back before anyone else takes it. -/
def lateAlone : List LockMove :=
  [.act 0 .go, .act 0 .go, .tick 40000, .act 0 .go, .act 1 .go]

theorem locks_exclude_iff_lateAlone :
    let s := (run (step refreshes) (releasesBeforeLapse refreshes) idle lateAlone).get
      (by decide +kernel)
    ∀ i j key, Believes refreshes s i key → Believes refreshes s j key → i = j := by
  intro s
  have hreach : Reaches (step refreshes) (ReleasesBeforeLapse refreshes) (initial .empty 0) s :=
    reaches_of_run (fun _ _ => releasesBeforeLapse_sound refreshes) (Option.some_get _).symm
  exact (locks_exclude_iff refreshes .empty 0 s hreach).1

/-- Caller 0 outlives its lock, caller 1 takes it, caller 0 deletes it, caller 2 takes it too. -/
def lateRelease (ttlMilliseconds : Nat) (work : List LockMove) : List LockMove :=
  [.act 0 .go, .tick ttlMilliseconds] ++ work ++ [.act 1 .go, .act 0 .go, .act 2 .go]

/-- Callers 1 and 2 both take `key` to be theirs until `lapses`. -/
def bothBelieve (calls : Nat → LockCall) (key : String) (lapses : Int) (s : LockState) : Bool :=
  decide ((s.phase 1).grant (calls 1) = some (key, lapses)) &&
    decide ((s.phase 2).grant (calls 2) = some (key, lapses)) && decide (s.now < lapses)

theorem believe_of_bothBelieve {key : String} {lapses : Int}
    (h : bothBelieve calls key lapses s = true) :
    Believes calls s 1 key ∧ Believes calls s 2 key := by
  simp only [bothBelieve, Bool.and_eq_true, decide_eq_true_eq] at h
  exact ⟨⟨lapses, h.1.1, h.2⟩, ⟨lapses, h.1.2, h.2⟩⟩

/-- The release of a late holder deletes the lock of the next one, and two callers hold it at
once: for a session's refresh lock, and for the service-token lock. -/
theorem late_release_admits_two_holders :
    (∃ s, Reachable (step refreshes) idle s ∧
      ∃ key, Believes refreshes s 1 key ∧ Believes refreshes s 2 key) ∧
    ∃ s, Reachable (step replicas) idle s ∧
      ∃ key, Believes replicas s 1 key ∧ Believes replicas s 2 key := by
  have hrefreshes : (run (step refreshes) (fun _ _ => true) idle
      (lateRelease 30000 [.act 0 .go])).any
        (bothBelieve refreshes "wallow:refreshlock:s1" 60000) = true := by decide +kernel
  have hreplicas : (run (step replicas) (fun _ _ => true) idle
      (lateRelease 10000 [.act 0 .go, .act 0 .failed])).any
        (bothBelieve replicas "wallow:service-token-lock:svc:read" 20000) = true := by
    decide +kernel
  constructor
  · obtain ⟨s, hreach, hboth⟩ := exists_reaches_of_run (fun _ _ _ => trivial) hrefreshes
    exact ⟨s, hreach, _, believe_of_bothBelieve hboth⟩
  · obtain ⟨s, hreach, hboth⟩ := exists_reaches_of_run (fun _ _ _ => trivial) hreplicas
    exact ⟨s, hreach, _, believe_of_bothBelieve hboth⟩

end LockState

end Wallow.Bff
