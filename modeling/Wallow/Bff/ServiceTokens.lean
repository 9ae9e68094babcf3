import Wallow.Bff.LockLeases

/-!
# Service requests that are rejected and replayed

`ServiceTokenSource` of `service.ts` and the `send` of `createServiceClient`, cut at their store
commands and their calls of the issuer and the API.  Processes share one token cache and one lock;
the requests of one process share its `inflight` promise.  A request answered 401 invalidates its
token, by a `GET` and a `DEL`, and is sent once more.
-/

namespace Wallow.Bff.ServiceTokens

open Transition

/-! ## The data -/

/-- Where the promise of a process's `inflight` stands. -/
inductive Acquisition
  /-- `SET NX EX` of the lock. -/
  | locking
  /-- At the head of `poll`: the deadline is next. -/
  | polling (deadline : Int)
  /-- Asleep; the cache is read on waking. -/
  | sleeping (deadline : Int)
  | checkingLock (deadline : Int)
  /-- The lock has lapsed: one more read of the cache. -/
  | lastRead
  | doubleChecking
  /-- `clientCredentialsGrant`, under the lock or without it. -/
  | granting (locked : Bool)
  | storing (locked : Bool) (record : CachedToken)
  /-- `DEL` of the lock in the `finally`, and what comes after it: a token, or the exception. -/
  | releasing (result : Option String)
  /-- Settled; `inflight` still stands until the callback has run. -/
  | settled (result : Option String)
  deriving DecidableEq

/-- The token the acquisition will hand out. -/
def Acquisition.token : Acquisition → Option String
  | .storing _ record => some record.accessToken
  | .releasing result => result
  | .settled result => result
  | _ => none

/-- The token whose `SET` is the next command. -/
def Acquisition.stores : Acquisition → Option String
  | .storing _ record => some record.accessToken
  | _ => none

/-- Where a request stands; `rejected` is the token of its first attempt, once that was refused,
and `before` the tokens obtained up to the rejection. -/
inductive Phase
  | getting (rejected : Option String)
  | missed (rejected : Option String)
  /-- Awaiting the `inflight` of its process. -/
  | waiting (rejected : Option String)
  | attempting (rejected : Option String) (token : String)
  | invalidating (token : String) (before : List String)
  | deleting (token : String) (before : List String)
  | finished
  deriving DecidableEq

/-- The rejected token of a request on its way to the second attempt, or at it. -/
def Phase.rejected : Phase → Option String
  | .getting rejected | .missed rejected | .waiting rejected | .attempting rejected _ => rejected
  | _ => none

/-- The tokens a request knows. -/
def Phase.tokens : Phase → List String
  | .getting rejected | .missed rejected | .waiting rejected => rejected.toList
  | .attempting rejected token => token :: rejected.toList
  | .invalidating token _ | .deleting token _ => [token]
  | .finished => []

structure Request where
  process : Nat
  phase : Phase
  deriving DecidableEq

/-- A `DEL` of an invalidation that found an entry. -/
structure Eviction where
  rejected : String
  before : List String
  evicted : String
  deriving DecidableEq

/-- The shared store, the processes and their requests; `granted` are the tokens obtained so far
and `evictions` what invalidations have deleted. -/
structure State where
  cache : Option CachedToken
  lock : Bool
  inflight : Nat → Option Acquisition
  requests : List Request
  granted : List String
  evictions : List Eviction

inductive Move
  | begin (process : Nat)
  /-- The next store command of a request. -/
  | act (i : Nat) (now : Int)
  /-- The API answers. -/
  | answer (i : Nat) (unauthorized : Bool)
  | failRequest (i : Nat)
  /-- The next command of a process's acquisition. -/
  | acquire (process : Nat) (now : Int)
  | grant (process : Nat) (now : Int) (accessToken : String) (expiresIn : Int)
  | failAcquire (process : Nat)
  /-- An entry lapses, or is dropped by the server. -/
  | lapseCache
  | lapseLock

namespace State

/-- No process has started; the cache and the lock are as others left them. -/
def initial (cache : Option CachedToken) (lock : Bool) : State :=
  ⟨cache, lock, fun _ => none, [], (cache.map (·.accessToken)).toList, []⟩

def readCache (s : State) (now : Int) : Option CachedToken :=
  s.cache.filter fun cached => cached.expiresAt - EXPIRY_SKEW_MS > now

def enter (s : State) (process : Nat) (a : Acquisition) : State :=
  { s with inflight := Function.update s.inflight process (some a) }

@[simp] theorem inflight_enter_self (s : State) (p : Nat) (a : Acquisition) :
    (s.enter p a).inflight p = some a :=
  Function.update_self ..

theorem inflight_enter_of_ne (s : State) {p q : Nat} (a : Acquisition) (h : q ≠ p) :
    (s.enter p a).inflight q = s.inflight q :=
  Function.update_of_ne h ..

def put (s : State) (i process : Nat) (phase : Phase) : State :=
  { s with requests := s.requests.set i ⟨process, phase⟩ }

/-! ## `acquire` -/

/-- Where `acquire` goes once the token is cached, or need not be. -/
def fetched (locked : Bool) (accessToken : String) : Acquisition :=
  if locked then .releasing (some accessToken) else .settled (some accessToken)

/-- The promise's result reaches a request that awaits it. -/
def resume (process : Nat) (result : Option String) (req : Request) : Request :=
  match req.phase with
  | .waiting rejected =>
    if req.process = process then
      ⟨process, result.elim .finished fun token => .attempting rejected token⟩
    else req
  | _ => req

/-- The `finally` clears `inflight`, and the requests that await the promise go on. -/
def settle (s : State) (process : Nat) (result : Option String) : State :=
  { s with
    inflight := Function.update s.inflight process none
    requests := s.requests.map (resume process result) }

def acquire (s : State) (process : Nat) (now : Int) : Acquisition → Option State
  | .locking =>
    -- `awaitLockHolder` counts its deadline from here
    if s.lock then some (s.enter process (.polling (now + LOCK_TTL_SECONDS * MS_PER_SECOND)))
    else some ({ s with lock := true }.enter process .doubleChecking)
  | .polling deadline =>
    -- a holder that never wrote: the token is fetched without the lock
    some (s.enter process (if now ≥ deadline then .granting false else .sleeping deadline))
  | .sleeping deadline =>
    match s.readCache now with
    | some cached => some (s.enter process (.settled (some cached.accessToken)))
    | none => some (s.enter process (.checkingLock deadline))
  | .checkingLock deadline =>
    some (s.enter process (if s.lock then .polling deadline else .lastRead))
  | .lastRead =>
    match s.readCache now with
    | some cached => some (s.enter process (.settled (some cached.accessToken)))
    | none => some (s.enter process (.granting false))
  | .doubleChecking =>
    match s.readCache now with
    | some cached => some (s.enter process (.releasing (some cached.accessToken)))
    | none => some (s.enter process (.granting true))
  | .granting _ => none
  | .storing locked record =>
    -- an unconditional `SET`, whatever the cache holds by now
    some { s.enter process (fetched locked record.accessToken) with cache := some record }
  -- whoever holds the lock by now loses it
  | .releasing result => some ({ s with lock := false }.enter process (.settled result))
  | .settled result => some (s.settle process result)

/-- The issuer grants a token it has not granted before. -/
def grant (s : State) (process : Nat) (now : Int) (accessToken : String) (expiresIn : Int) :
    Acquisition → Option State
  | .granting locked =>
    if accessToken ∈ s.granted then none
    else
      let record : CachedToken := ⟨accessToken, now + expiresIn * MS_PER_SECOND⟩
      some ({ s with granted := accessToken :: s.granted }.enter process
        -- a token without an expiry is handed out and not cached
        (if expiresIn > NO_EXPIRY_SECONDS then .storing locked record
          else fetched locked accessToken))
  | _ => none

/-- A command or the grant throws; a failing `DEL` of the lock leaves it standing. -/
def failAcquire (s : State) (process : Nat) : Acquisition → Option State
  -- the `finally` of the locked branch runs before the exception leaves
  | .doubleChecking | .granting true | .storing true _ =>
    some (s.enter process (.releasing none))
  | .settled _ => none
  | _ => some (s.enter process (.settled none))

/-! ## `send` -/

/-- `get` and `invalidate`, one command each. -/
def act (s : State) (i : Nat) (now : Int) (req : Request) : Option State :=
  match req.phase with
  | .getting rejected =>
    match s.readCache now with
    | some cached => some (s.put i req.process (.attempting rejected cached.accessToken))
    | none => some (s.put i req.process (.missed rejected))
  | .missed rejected =>
    match s.inflight req.process with
    -- `inflight ??=`: an acquisition that stands is joined, whatever it holds
    | some _ => some (s.put i req.process (.waiting rejected))
    | none => some ((s.enter req.process .locking).put i req.process (.waiting rejected))
  | .invalidating token before =>
    if s.cache.any (·.accessToken = token) then some (s.put i req.process (.deleting token before))
    else some (s.put i req.process (.getting (some token)))
  -- the comparison was the `GET`'s; the `DEL` takes whatever is cached by now
  | .deleting token before =>
    some { s.put i req.process (.getting (some token)) with
      cache := none
      evictions := match s.cache with
        | some cached => ⟨token, before, cached.accessToken⟩ :: s.evictions
        | none => s.evictions }
  | .waiting _ | .attempting _ _ | .finished => none

def answer (s : State) (i : Nat) (unauthorized : Bool) (req : Request) : Option State :=
  match req.phase with
  | .attempting none token =>
    some (s.put i req.process
      (if unauthorized then .invalidating token s.granted else .finished))
  -- a replay is final, whatever its answer
  | .attempting (some _) _ => some (s.put i req.process .finished)
  | _ => none

/-- A store command or the transport throws; the promise a request awaits is not its own. -/
def failRequest (s : State) (i : Nat) (req : Request) : Option State :=
  match req.phase with
  | .waiting _ | .finished => none
  | _ => some (s.put i req.process .finished)

def step (s : State) : Move → Option State
  | .begin process => some { s with requests := s.requests ++ [⟨process, .getting none⟩] }
  | .act i now => s.requests[i]?.bind (s.act i now)
  | .answer i unauthorized => s.requests[i]?.bind (s.answer i unauthorized)
  | .failRequest i => s.requests[i]?.bind (s.failRequest i)
  | .acquire process now => (s.inflight process).bind (s.acquire process now)
  | .grant process now accessToken expiresIn =>
    (s.inflight process).bind (s.grant process now accessToken expiresIn)
  | .failAcquire process => (s.inflight process).bind (s.failAcquire process)
  | .lapseCache => some { s with cache := none }
  | .lapseLock => some { s with lock := false }

/-! ## What is asked of a replay -/

/-- Every replay carries another token than the one it was rejected with. -/
def ReplaysAnew (s : State) : Prop :=
  ∀ req ∈ s.requests, ∀ rejected token,
    req.phase = .attempting (some rejected) token → token ≠ rejected

/-- No invalidation has evicted a token obtained after the rejection it answers. -/
def SparesNewer (s : State) : Prop :=
  ∀ e ∈ s.evictions, e.evicted ∈ e.before

/-- A request that was rejected joins an acquisition that holds the rejected token. -/
def joinsRejected (s : State) (i : Nat) : Bool :=
  match s.requests[i]? with
  | some ⟨process, .missed (some rejected)⟩ =>
    (s.inflight process).any (·.token = some rejected)
  | _ => false

/-- A token is cached while an invalidation, of a rejection older than the token, stands between
its `GET` and its `DEL`. -/
def storesUnderDelete (s : State) (process : Nat) : Bool :=
  match s.inflight process with
  | some (.storing _ record) =>
    s.requests.any fun req =>
      match req.phase with
      | .deleting _ before => record.accessToken ∉ before
      | _ => false
  | _ => false

/-- Neither of the two happens at the step. -/
def inOrder (s : State) : Move → Bool
  | .act i _ => !s.joinsRejected i
  | .acquire process _ => !s.storesUnderDelete process
  | _ => true

end State

end Wallow.Bff.ServiceTokens
