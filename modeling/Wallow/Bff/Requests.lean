import Wallow.Lib.Transition
import Wallow.Bff.ValkeyStore

/-!
# Concurrent requests over one `ValkeySessionStore`

`proxyRequest` with `ensureFreshSession`, `forceRefreshStored`, `refreshUnderLock` and
`withRefreshLock` of `proxy.ts`, and the three destroying calls of the store, cut at their
`RedisLike` and issuer calls.  Any number of them share one Redis, one clock and one issuer; a
label picks who moves and resolves what the environment answers.  What a request does between two
such calls is local to it, and is one step of its own where it reads the clock.
-/

namespace Wallow.Bff

/-! ## Parties -/

/-- What a request presents: the assembled reference, its method and its CSRF header. -/
structure ProxyCall where
  ref : String
  method : String
  csrfHeader : Option String

inductive Call where
  | request (req : ProxyCall)
  | destroy (ref : String)
  | revokeBySid (sid : String)
  | revokeBySubject (sub : String)

/-- Which of the two refresh points of `proxyRequest` is being taken. -/
inductive Refresh where
  | proactive
  | reactive
  deriving DecidableEq

/-- Why a `RefreshFailedError` is thrown. -/
inductive FailReason where
  | noRefreshToken
  /-- The issuer refused a refresh token that had been exchanged before. -/
  | alreadyRotated
  | refused
  /-- The exchange took place and its response was lost. -/
  | lost
  /-- The exchange was never submitted: discovery failed. -/
  | unreachable
  /-- The lock was held and the session is gone. -/
  | sessionGone
  deriving DecidableEq

inductive Outcome where
  | sessionMissing
  | csrfInvalid
  | relayed
  | refreshFailed (reason : FailReason)
  | destroyed
  deriving DecidableEq

/-- One `destroyRecord`, and what its caller appends: `none` before its `GET`. -/
structure Job where
  id : String
  todo : Option (List Cmd)
  deriving DecidableEq

inductive Choice where
  /-- Nothing to resolve but the id `randomUrlSafe` would return. -/
  | go (random : String)
  | granted (tokens : TokenResponse) (random : String)
  | refused
  | lost
  | unreachable
  /-- The upstream answers 401, or redirects to its login page. -/
  | authFailure
  /-- The removal that moves next. -/
  | job (index : Nat)

/-- Where a party stands; every constructor but the last names the call it makes next. -/
inductive Phase where
  | start
  | gated (session : BffSession) (ref : String)
  | acquireLock (why : Refresh) (session : BffSession) (ref : String)
  | exchange (why : Refresh) (session : BffSession) (ref : String)
  | storeRotated (why : Refresh) (before : BffSession) (ref : String) (next : BffSession)
      (nextRef : String) (todo : List Cmd)
  | releaseLock (why : Refresh) (before : BffSession) (ref : String)
      (refreshed : Except FailReason (BffSession × String))
  | adopt (why : Refresh) (before : BffSession) (ref : String)
  | writeSession (session : BffSession) (ref : String) (todo : List Cmd)
  | forward (session : BffSession) (ref : String)
  | tearDown (reason : FailReason) (ref : String)
  | tearingDown (reason : FailReason) (todo : List Cmd)
  | removing (jobs : List Job)
  | responded (outcome : Outcome)
  deriving DecidableEq

/-- The next call of a party in the middle of a write or a removal. -/
def Phase.nextCmd : Phase → Choice → Option Cmd
  | .storeRotated _ _ _ _ _ (c :: _), .go _ => some c
  | .writeSession _ _ (c :: _), .go _ => some c
  | .tearingDown _ (c :: _), .go _ => some c
  | .removing jobs, .job index => ((jobs[index]?).bind Job.todo).bind List.head?
  | _, _ => none

/-- The issuer's record of refresh tokens: every submission, the tokens it has exchanged, and the
submissions the caller did not get new tokens for. -/
structure Issuer where
  submitted : List String
  spent : List String
  failed : List String

namespace ValkeySessionStore

variable (st : ValkeySessionStore)

/-- The commands of `write`, and the reference it returns. -/
def writeCall (session : BffSession) (random : String) : List Cmd × String :=
  let id := recordId session random
  (st.writeCommands id { session with sessionId := id }, st.idToRef id)

/-- Where a request goes once a refresh settled on `fresh`, stored under `freshRef`; `ref` is the
reference it came with. -/
def afterRefresh (why : Refresh) (before : BffSession) (ref : String) (fresh : BffSession)
    (random : String) : Phase :=
  match why with
  -- the replay's answer is relayed whatever it is
  | .reactive => .responded .relayed
  | .proactive =>
    -- `proxyRequest` writes again what `refreshUnderLock` has stored, and a peer's session too
    if changed before fresh then
      .writeSession fresh (st.writeCall fresh random).2 (st.writeCall fresh random).1
    else .forward fresh ref

/-- The CSRF gate and the decision of `ensureFreshSession`. -/
def afterRead (req : ProxyCall) (session : BffSession) (ref : String) (now : Int) : Phase :=
  if isStateChangingMethod req.method && !csrfTokenMatches session.csrfToken req.csrfHeader then
    .responded .csrfInvalid
  -- `ensureFreshSession` from here on
  else if isFresh session now then .forward session ref
  else if hasRefreshToken session then .acquireLock .proactive session ref
  else .tearDown .noRefreshToken ref

/-- `refreshTokens` at the issuer: it exchanges an unspent token for one it has not seen, and may
refuse any. -/
def submit (why : Refresh) (session : BffSession) (ref : String) (now : Int) (issuer : Issuer) :
    Choice → Option (Phase × Issuer)
  | .granted tokens random =>
    let token := session.refreshToken.getD ""
    match tokens.refresh_token with
    | none => none
    | some next =>
      -- the issuer honours a token once and never hands out one it has seen
      if token ∈ issuer.spent ∨ next ∈ issuer.submitted ∨ next = token then none
      else
        let session' := rotated session tokens now
        let call := st.writeCall session' random
        some (.storeRotated why session ref session' call.2 call.1,
          { issuer with
            submitted := token :: issuer.submitted
            spent := token :: issuer.spent })
  | .refused =>
    let token := session.refreshToken.getD ""
    -- the caller cannot tell the two apart; the model keeps them apart for the statement
    let reason := if token ∈ issuer.spent then FailReason.alreadyRotated else .refused
    some (.releaseLock why session ref (.error reason),
      { issuer with
        submitted := token :: issuer.submitted
        failed := token :: issuer.failed })
  | .lost =>
    let token := session.refreshToken.getD ""
    if token ∈ issuer.spent then none
    else some (.releaseLock why session ref (.error .lost),
      { submitted := token :: issuer.submitted
        spent := token :: issuer.spent
        failed := token :: issuer.failed })
  | .unreachable => some (.releaseLock why session ref (.error .unreachable), issuer)
  | _ => none

/-- The first call of each party. -/
def begin_ (r : Redis) (now : Int) : Call → Phase
  | .request req =>
    match st.read r now req.ref with
    | none => .responded .sessionMissing
    | some session => .gated session req.ref
  | .destroy ref =>
    match st.refToId ref with
    | none => .responded .destroyed
    | some id => .removing [⟨id, none⟩]
  | .revokeBySid sid =>
    match sidTarget r now sid with
    | none => .responded .destroyed
    | some id => .removing [⟨id, none⟩]
  | .revokeBySubject sub => .removing ((r.smembers now (.sub sub)).map fun id => ⟨id, none⟩)

/-- What the destroying call does to a record's indexes after `destroyRecord`. -/
def cleanup (id : String) (record : Option BffSession) : Call → List Cmd
  | .revokeBySid sid => [.del (.sid sid)]
  -- a member without a record is taken out of the index
  | .revokeBySubject sub => if record.isNone then [.srem (.sub sub) id] else []
  | _ => []

/-- One call of one removal. -/
def advanceJob (call : Call) (r : Redis) (now : Int) (job : Job) : Option (Job × Redis) :=
  match job.todo with
  | none =>
    let record := r.fetch now job.id
    some (⟨job.id, some (destroyCommands job.id record ++ cleanup job.id record call)⟩, r)
  | some [] => none
  | some (c :: rest) => some (⟨job.id, some rest⟩, r.apply now c)

/-- One call of a party: its next phase, and what the call left of Redis and the issuer. -/
def advance (call : Call) (r : Redis) (now : Int) (issuer : Issuer) (phase : Phase)
    (choice : Choice) : Option (Phase × Redis × Issuer) :=
  match phase, choice with
  | .start, .go _ => some (st.begin_ r now call, r, issuer)
  | .gated session ref, .go _ =>
    match call with
    | .request req => some (afterRead req session ref now, r, issuer)
    | _ => none
  | .acquireLock why session ref, .go _ =>
    match st.refToId ref with
    | none => some (.adopt why session ref, r, issuer)
    | some id =>
      let reply := r.set now (.refreshlock id) (.text "1") (some st.lockTtlSeconds) true
      if reply.1 then some (.exchange why session ref, reply.2, issuer)
      else some (.adopt why session ref, r, issuer)
  | .exchange why session ref, choice =>
    (st.submit why session ref now issuer choice).map fun result => (result.1, r, result.2)
  | .storeRotated why before ref next nextRef [], .go _ =>
    some (.releaseLock why before ref (.ok (next, nextRef)), r, issuer)
  | .storeRotated why before ref next nextRef (c :: rest), .go _ =>
    some (.storeRotated why before ref next nextRef rest, r.apply now c, issuer)
  | .releaseLock why before ref refreshed, .go random =>
    match st.refToId ref with
    | none => none
    | some id =>
      -- `DEL` by key: whoever holds the lock by now loses it
      let r' := r.apply now (.del (.refreshlock id))
      match refreshed with
      | .error reason => some (.tearDown reason ref, r', issuer)
      | .ok (next, _) => some (st.afterRefresh why before ref next random, r', issuer)
  | .adopt why before ref, .go random =>
    match st.read r now ref with
    | none => some (.tearDown .sessionGone ref, r, issuer)
    | some peer => some (st.afterRefresh why before ref peer random, r, issuer)
  | .writeSession session ref [], .go _ => some (.forward session ref, r, issuer)
  | .writeSession session ref (c :: rest), .go _ =>
    some (.writeSession session ref rest, r.apply now c, issuer)
  | .forward _ _, .go _ => some (.responded .relayed, r, issuer)
  | .forward session ref, .authFailure =>
    if hasRefreshToken session then some (.acquireLock .reactive session ref, r, issuer)
    else some (.responded .relayed, r, issuer)
  | .tearDown reason ref, .go _ =>
    match st.refToId ref with
    | none => some (.responded (.refreshFailed reason), r, issuer)
    | some id => some (.tearingDown reason (destroyCommands id (r.fetch now id)), r, issuer)
  | .tearingDown reason [], .go _ => some (.responded (.refreshFailed reason), r, issuer)
  | .tearingDown reason (c :: rest), .go _ =>
    some (.tearingDown reason rest, r.apply now c, issuer)
  | .removing jobs, .job index =>
    (jobs[index]?).bind fun job =>
      (advanceJob call r now job).map fun moved =>
        (.removing (jobs.set index moved.1), moved.2, issuer)
  | .removing jobs, .go _ =>
    -- `Promise.all`: the answer waits for every removal
    if jobs.all fun job => job.todo == some [] then some (.responded .destroyed, r, issuer)
    else none
  | _, _ => none

theorem set_nx_fst {r : Redis} {now : Int} {key : Key} {value : Value} {ex : Option Int} :
    (r.set now key value ex true).1 = true ↔ r.entries.alive now key = none := by
  unfold Redis.set
  cases r.entries.alive now key <;> simp

theorem set_nx_snd {r : Redis} {now : Int} {key : Key} {value : Value} {ex : Option Int}
    (h : (r.set now key value ex true).1 = true) :
    (r.set now key value ex true).2 = r.apply now (.set key value ex) := by
  simp [Redis.apply, Redis.set, set_nx_fst.mp h]

theorem advanceJob_redis {call : Call} {r : Redis} {now : Int} {job : Job} {moved : Job × Redis}
    (h : advanceJob call r now job = some moved) :
    moved.2 = r ∨ ∃ c, moved.2 = r.apply now c ∧ job.todo.bind List.head? = some c := by
  unfold advanceJob at h
  split at h
  · cases h
    exact Or.inl rfl
  · cases h
  · rename_i c rest htodo
    cases h
    exact Or.inr ⟨c, rfl, by simp [htodo]⟩

/-- What one call of a party does, case by case. -/
inductive Advances (call : Call) (r : Redis) (now : Int) (issuer : Issuer) :
    Phase → Choice → Phase → Redis → Issuer → Prop
  | start (random : String) : Advances call r now issuer .start (.go random)
      (st.begin_ r now call) r issuer
  | gated (session : BffSession) (ref random : String) (req : ProxyCall)
      (hcall : call = .request req) : Advances call r now issuer (.gated session ref) (.go random)
      (afterRead req session ref now) r issuer
  | acquired (why : Refresh) (session : BffSession) (ref random id : String)
      (href : st.refToId ref = some id)
      (hfree : r.entries.alive now (.refreshlock id) = none) :
      Advances call r now issuer (.acquireLock why session ref) (.go random)
        (.exchange why session ref)
        (r.apply now (.set (.refreshlock id) (.text "1") (some st.lockTtlSeconds))) issuer
  | contended (why : Refresh) (session : BffSession) (ref random : String) :
      Advances call r now issuer (.acquireLock why session ref) (.go random)
        (.adopt why session ref) r issuer
  | submitted (why : Refresh) (session : BffSession) (ref : String) (choice : Choice)
      (phase : Phase) (issuer' : Issuer)
      (hsubmit : st.submit why session ref now issuer choice = some (phase, issuer')) :
      Advances call r now issuer (.exchange why session ref) choice phase r issuer'
  | storing (why : Refresh) (before : BffSession) (ref : String) (next : BffSession)
      (nextRef random : String) (c : Cmd) (rest : List Cmd) :
      Advances call r now issuer (.storeRotated why before ref next nextRef (c :: rest))
        (.go random) (.storeRotated why before ref next nextRef rest) (r.apply now c) issuer
  | stored (why : Refresh) (before : BffSession) (ref : String) (next : BffSession)
      (nextRef random : String) :
      Advances call r now issuer (.storeRotated why before ref next nextRef []) (.go random)
        (.releaseLock why before ref (.ok (next, nextRef))) r issuer
  | failed (why : Refresh) (before : BffSession) (ref random id : String) (reason : FailReason)
      (href : st.refToId ref = some id) :
      Advances call r now issuer (.releaseLock why before ref (.error reason)) (.go random)
        (.tearDown reason ref) (r.apply now (.del (.refreshlock id))) issuer
  | refreshed (why : Refresh) (before : BffSession) (ref random id : String) (next : BffSession)
      (nextRef : String) (href : st.refToId ref = some id) :
      Advances call r now issuer (.releaseLock why before ref (.ok (next, nextRef))) (.go random)
        (st.afterRefresh why before ref next random) (r.apply now (.del (.refreshlock id))) issuer
  | gone (why : Refresh) (before : BffSession) (ref random : String) :
      Advances call r now issuer (.adopt why before ref) (.go random)
        (.tearDown .sessionGone ref) r issuer
  | adopted (why : Refresh) (before : BffSession) (ref random : String) (peer : BffSession)
      (hread : st.read r now ref = some peer) :
      Advances call r now issuer (.adopt why before ref) (.go random)
        (st.afterRefresh why before ref peer random) r issuer
  | writing (session : BffSession) (ref random : String) (c : Cmd) (rest : List Cmd) :
      Advances call r now issuer (.writeSession session ref (c :: rest)) (.go random)
        (.writeSession session ref rest) (r.apply now c) issuer
  | written (session : BffSession) (ref random : String) :
      Advances call r now issuer (.writeSession session ref []) (.go random)
        (.forward session ref) r issuer
  | relayed (session : BffSession) (ref : String) (choice : Choice) :
      Advances call r now issuer (.forward session ref) choice (.responded .relayed) r issuer
  | replayed (session : BffSession) (ref : String) (hrefresh : hasRefreshToken session = true) :
      Advances call r now issuer (.forward session ref) .authFailure
        (.acquireLock .reactive session ref) r issuer
  | unassembled (reason : FailReason) (ref random : String) (href : st.refToId ref = none) :
      Advances call r now issuer (.tearDown reason ref) (.go random)
        (.responded (.refreshFailed reason)) r issuer
  | fetched (reason : FailReason) (ref random id : String) (href : st.refToId ref = some id) :
      Advances call r now issuer (.tearDown reason ref) (.go random)
        (.tearingDown reason (destroyCommands id (r.fetch now id))) r issuer
  | tearing (reason : FailReason) (random : String) (c : Cmd) (rest : List Cmd) :
      Advances call r now issuer (.tearingDown reason (c :: rest)) (.go random)
        (.tearingDown reason rest) (r.apply now c) issuer
  | tornDown (reason : FailReason) (random : String) :
      Advances call r now issuer (.tearingDown reason []) (.go random)
        (.responded (.refreshFailed reason)) r issuer
  | removing (jobs : List Job) (index : Nat) (job : Job) (moved : Job × Redis)
      (hjob : jobs[index]? = some job) (hmoved : advanceJob call r now job = some moved) :
      Advances call r now issuer (.removing jobs) (.job index)
        (.removing (jobs.set index moved.1)) moved.2 issuer
  | removed (jobs : List Job) (random : String) (hdone : ∀ job ∈ jobs, job.todo = some []) :
      Advances call r now issuer (.removing jobs) (.go random) (.responded .destroyed) r issuer

variable {st} {call : Call} {r r' : Redis} {now : Int} {issuer issuer' : Issuer}
  {phase phase' : Phase} {choice : Choice}

theorem advances_of_advance
    (h : st.advance call r now issuer phase choice = some (phase', r', issuer')) :
    st.Advances call r now issuer phase choice phase' r' issuer' := by
  cases phase with
  | start =>
    cases choice <;> cases h
    exact .start _
  | gated session ref =>
    cases choice <;> simp only [advance, reduceCtorEq] at h
    split at h <;> cases h
    exact .gated _ _ _ _ rfl
  | acquireLock why session ref =>
    cases choice <;> simp only [advance, reduceCtorEq] at h
    split at h
    · cases h
      exact .contended _ _ _ _
    · rename_i href
      split at h
      · rename_i hok
        cases h
        rw [set_nx_snd hok]
        exact .acquired _ _ _ _ _ href (set_nx_fst.mp hok)
      · cases h
        exact .contended _ _ _ _
  | exchange why session ref =>
    have ⟨⟨phase, issuer⟩, hsubmit, hresult⟩ := Option.map_eq_some_iff.mp h
    cases hresult
    exact .submitted _ _ _ _ _ _ hsubmit
  | storeRotated why before ref next nextRef todo =>
    cases todo <;> cases choice <;> cases h
    · exact .stored _ _ _ _ _ _
    · exact .storing _ _ _ _ _ _ _ _
  | releaseLock why before ref refreshed =>
    cases choice <;> simp only [advance, reduceCtorEq] at h
    split at h
    · cases h
    · rename_i href
      split at h <;> cases h
      · exact .failed _ _ _ _ _ _ href
      · exact .refreshed _ _ _ _ _ _ _ href
  | adopt why before ref =>
    cases choice <;> simp only [advance, reduceCtorEq] at h
    split at h <;> cases h
    · exact .gone _ _ _ _
    · rename_i hread
      exact .adopted _ _ _ _ _ hread
  | writeSession session ref todo =>
    cases todo <;> cases choice <;> cases h
    · exact .written _ _ _
    · exact .writing _ _ _ _ _
  | forward session ref =>
    cases choice <;> simp only [advance, reduceCtorEq] at h
    · cases h
      exact .relayed _ _ _
    · split at h <;> cases h
      · rename_i hrefresh
        exact .replayed _ _ hrefresh
      · exact .relayed _ _ _
  | tearDown reason ref =>
    cases choice <;> simp only [advance, reduceCtorEq] at h
    split at h <;> cases h <;> rename_i href
    · exact .unassembled _ _ _ href
    · exact .fetched _ _ _ _ href
  | tearingDown reason todo =>
    cases todo <;> cases choice <;> cases h
    · exact .tornDown _ _
    · exact .tearing _ _ _ _
  | removing jobs =>
    cases choice <;> simp only [advance, reduceCtorEq] at h
    · split at h <;> cases h
      rename_i hall
      exact .removed _ _ fun job hjob => by simpa using List.all_eq_true.mp hall job hjob
    · have ⟨job, hjob, hmap⟩ := Option.bind_eq_some_iff.mp h
      have ⟨moved, hmoved, hresult⟩ := Option.map_eq_some_iff.mp hmap
      cases hresult
      exact .removing _ _ _ _ hjob hmoved
  | responded outcome => cases choice <;> cases h

/-- A call either leaves Redis alone, or runs the command the party is at, or touches a lock. -/
theorem advance_redis
    (h : st.advance call r now issuer phase choice = some (phase', r', issuer')) :
    r' = r ∨ ∃ c, r' = r.apply now c ∧
      (phase.nextCmd choice = some c ∨ ∃ id, c.key = .refreshlock id) := by
  cases advances_of_advance h with
  | acquired why session ref random id href hfree =>
    exact .inr ⟨_, rfl, .inr ⟨id, rfl⟩⟩
  | failed why before ref random id reason href =>
    exact .inr ⟨.del (.refreshlock id), rfl, .inr ⟨id, rfl⟩⟩
  | refreshed why before ref random id next nextRef href =>
    exact .inr ⟨.del (.refreshlock id), rfl, .inr ⟨id, rfl⟩⟩
  | storing why before ref next nextRef random c rest => exact .inr ⟨c, rfl, .inl rfl⟩
  | writing session ref random c rest => exact .inr ⟨c, rfl, .inl rfl⟩
  | tearing reason random c rest => exact .inr ⟨c, rfl, .inl rfl⟩
  | removing jobs index job moved hjob hmoved =>
    refine (advanceJob_redis hmoved).imp_right fun ⟨c, hc, hhead⟩ => ⟨c, hc, .inl ?_⟩
    simpa [Phase.nextCmd, hjob] using hhead
  | _ => exact .inl rfl

end ValkeySessionStore

/-! ## The shared machine -/

structure Shared where
  redis : Redis
  now : Int
  issuer : Issuer
  phase : Nat → Phase

inductive Move where
  | act (party : Nat) (choice : Choice)
  | tick (milliseconds : Nat)

namespace Shared

/-- A state before any party has made a call. -/
def initial (redis : Redis) (now : Int) : Shared where
  redis := redis
  now := now
  issuer := ⟨[], [], []⟩
  phase _ := .start

def step (st : ValkeySessionStore) (calls : Nat → Call) (s : Shared) : Move → Option Shared
  | .act party choice =>
    (st.advance (calls party) s.redis s.now s.issuer (s.phase party) choice).map fun result =>
      { s with
        redis := result.2.1
        issuer := result.2.2
        phase := Function.update s.phase party result.1 }
  | .tick milliseconds => some { s with now := s.now + milliseconds }

/-- What a step does, read off the shared state. -/
theorem step_act {st : ValkeySessionStore} {calls : Nat → Call} {s s' : Shared} {party : Nat}
    {choice : Choice}
    (h : step st calls s (.act party choice) = some s') :
    ∃ phase, st.advance (calls party) s.redis s.now s.issuer (s.phase party) choice =
        some (phase, s'.redis, s'.issuer) ∧
      s'.now = s.now ∧ s'.phase = Function.update s.phase party phase := by
  obtain ⟨⟨phase, r, issuer⟩, hadvance, rfl⟩ := Option.map_eq_some_iff.mp h
  exact ⟨phase, hadvance, rfl, rfl⟩

/-- A session whose access token has expired, as its login stored it. -/
def expired : BffSession where
  sessionId := "s1"
  accessToken := "a0"
  refreshToken := some "t0"
  idToken := none
  expiresAt := 0
  user := ⟨"alice"⟩
  sid := none
  version := 1
  csrfToken := none

def rotatedTokens : TokenResponse where
  access_token := "a1"
  refresh_token := some "t1"
  id_token := none
  expires_in := 600

def loggedIn : Shared :=
  initial (ValkeySessionStore.marked.write Redis.empty 0 expired "").2 0

end Shared

end Wallow.Bff
