import Wallow.Lib.OneTimeToken
import Wallow.Bff.Requests

/-!
# Refreshing requests of one session

A request reads the session before it takes the refresh lock, and the lock covers only the
exchange.  Where no request takes the lock with a token the store no longer holds, and no
write-back replaces a newer rotation, the requests rotate one token under one lock and every
refresh token is submitted once.
-/

namespace Wallow.Bff

open Transition ValkeySessionStore OneTimeToken

/-! ## The conditions on a run -/

/-- The reference whose refresh lock a party holds. -/
def Phase.holding : Phase → Option String
  | .exchange _ _ ref => some ref
  | .storeRotated _ _ ref _ _ _ => some ref
  | .releaseLock _ _ ref _ => some ref
  | _ => none

/-- The reference and the refresh token of a request about to take the lock. -/
def Phase.takesLockWith : Phase → Option (String × Option String)
  | .acquireLock _ session ref => some (ref, session.refreshToken)
  | _ => none

/-- The id and the refresh token of the record the proxy is about to write back. -/
def Phase.writesBack : Phase → Option (String × Option String)
  | .writeSession _ _ (.set (.session id) value _ :: _) =>
    some (id, value.parse.bind (·.refreshToken))
  | _ => none

namespace Shared

/-- The refresh token of the record last stored at `id`, unless it was deleted. -/
def storedToken (id : String) (r : Redis) : Option String :=
  ((r.entries (.session id)).bind (·.value.parse)).bind (·.refreshToken)

/-- No tick lets the lock of a party that holds it lapse. -/
def LockOutlivesHolder (st : ValkeySessionStore) (s : Shared) : Move → Prop
  | .act _ _ => True
  | .tick milliseconds => ∀ party ref id, (s.phase party).holding = some ref →
      st.refToId ref = some id →
      (s.redis.entries.alive (s.now + milliseconds) (.refreshlock id)).isSome

/-- A request that takes the free lock carries the token the store holds, and no exchange of it
has failed; the proxy's own write-back finds the token it writes still stored. -/
def SpendsCurrent (st : ValkeySessionStore) (s : Shared) : Move → Prop
  | .tick _ => True
  | .act party _ =>
    (∀ carried ∈ (s.phase party).takesLockWith, ∀ id ∈ st.refToId carried.1,
      s.redis.entries.alive s.now (.refreshlock id) = none →
        storedToken id s.redis = carried.2 ∧ carried.2.getD "" ∉ s.issuer.failed) ∧
    ∀ written ∈ (s.phase party).writesBack, storedToken written.1 s.redis = written.2

instance (st : ValkeySessionStore) (s : Shared) : (m : Move) → Decidable (SpendsCurrent st s m)
  | .tick _ => inferInstanceAs (Decidable True)
  | .act _ _ => inferInstanceAs (Decidable (_ ∧ _))

end Shared

/-! ## What each phase carries -/

/-- A command on an index: no session record and no lock. -/
def Cmd.Indexes (c : Cmd) : Prop :=
  ∀ id, c.key ≠ .session id ∧ c.key ≠ .refreshlock id

/-- The writes of `record` still to be made: all of them, or some of the indexes. -/
def Writes (st : ValkeySessionStore) (id : String) (record : BffSession) (todo : List Cmd) : Prop :=
  todo = st.writeCommands id record ∨ ∀ c ∈ todo, c.Indexes

/-- Everything a party carries is about the session `id`, and it was refused no rotated token. -/
def Phase.Concerns (st : ValkeySessionStore) (id : String) : Phase → Prop
  | .start => True
  | .gated session ref => session.sessionId = id ∧ st.refToId ref = some id
  | .acquireLock _ session ref =>
    session.sessionId = id ∧ st.refToId ref = some id ∧ session.refreshToken.isSome
  | .exchange _ session ref => session.sessionId = id ∧ st.refToId ref = some id
  | .storeRotated _ _ ref next _ todo =>
    next.sessionId = id ∧ st.refToId ref = some id ∧ next.refreshToken.isSome ∧
      Writes st id next todo
  | .releaseLock _ _ ref refreshed =>
    st.refToId ref = some id ∧ (∀ next, refreshed = .ok next → next.1.sessionId = id) ∧
      refreshed ≠ .error .alreadyRotated
  | .adopt _ _ ref => st.refToId ref = some id
  | .writeSession session ref todo =>
    session.sessionId = id ∧ st.refToId ref = some id ∧ Writes st id session todo
  | .forward session ref => session.sessionId = id ∧ st.refToId ref = some id
  | .tearDown reason ref => st.refToId ref = some id ∧ reason ≠ .alreadyRotated
  | .tearingDown reason todo =>
    reason ≠ .alreadyRotated ∧ ∀ c ∈ todo, c = .del (.session id) ∨ c.Indexes
  | .removing _ => False
  | .responded outcome => outcome ≠ .refreshFailed .alreadyRotated

/-- The `SET` of the record is the next command. -/
def recordAhead : List Cmd → Bool
  | .set (.session _) _ _ :: _ => true
  | _ => false

/-- The abstract party a phase is: only a holder of the lock has a stage. -/
def Phase.stage : Phase → Option (Stage String)
  | .exchange _ session _ => some (.using (session.refreshToken.getD ""))
  | .storeRotated _ before _ next _ todo =>
    if recordAhead todo then
      some (.storing (before.refreshToken.getD "") (next.refreshToken.getD ""))
    else some .leaving
  | .releaseLock _ _ _ _ => some .leaving
  | _ => none

theorem writeCommands_eq (st : ValkeySessionStore) (id : String) (record : BffSession) :
    ∃ rest, st.writeCommands id record =
      .set (.session id) (.json record) (some st.ttlSeconds) :: rest ∧ ∀ c ∈ rest, c.Indexes := by
  refine ⟨_, rfl, ?_⟩
  cases record.sid <;> simp [Cmd.Indexes, Cmd.key]

/-- A write puts the record first, and then only indexes it. -/
theorem Writes.cons {st : ValkeySessionStore} {id : String} {record : BffSession} {c : Cmd}
    {rest : List Cmd} (h : Writes st id record (c :: rest)) : (∀ c ∈ rest, c.Indexes) ∧
      (c = .set (.session id) (.json record) (some st.ttlSeconds) ∨ c.Indexes) := by
  rcases h with hall | hindexes
  · obtain ⟨rest', hcommands, hrest⟩ := writeCommands_eq st id record
    rw [hcommands, List.cons.injEq] at hall
    obtain ⟨rfl, rfl⟩ := hall
    exact ⟨hrest, .inl rfl⟩
  · exact ⟨fun other hother => hindexes other (List.mem_cons_of_mem _ hother),
      .inr (hindexes c List.mem_cons_self)⟩

theorem recordAhead_indexes {todo : List Cmd} (h : ∀ c ∈ todo, c.Indexes) :
    recordAhead todo = false := by
  unfold recordAhead
  split
  · exact ((h _ List.mem_cons_self _).1 rfl).elim
  · rfl

theorem destroyCommands_indexes (id : String) (record : Option BffSession) :
    ∀ c ∈ destroyCommands id record, c = .del (.session id) ∨ c.Indexes := by
  unfold destroyCommands
  cases record with
  | none => simp
  | some record => cases hs : record.sid <;> simp [hs, Cmd.Indexes, Cmd.key]

theorem writeCall_fst (st : ValkeySessionStore) {id : String} (hid : id ≠ "")
    {session : BffSession} (h : session.sessionId = id) (random : String) :
    (st.writeCall session random).1 = st.writeCommands id session := by
  have hrec : recordId session random = id := by
    rw [recordId, h, if_neg hid]
  simp only [writeCall, hrec]
  rw [← h]

theorem writeCall_snd (st : ValkeySessionStore) {id : String} (hid : id ≠ "")
    {session : BffSession} (h : session.sessionId = id) (random : String) :
    st.refToId (st.writeCall session random).2 = some id := by
  simp [writeCall, recordId, h, hid, st.refToId_idToRef]

section

variable {st : ValkeySessionStore} {id ref : String} {session : BffSession} {now : Int}

theorem concerns_afterRead (req : ProxyCall) (hs : session.sessionId = id)
    (href : st.refToId ref = some id) : (afterRead req session ref now).Concerns st id := by
  unfold afterRead
  split
  · simp [Phase.Concerns]
  · split
    · exact ⟨hs, href⟩
    · split
      · rename_i hrefresh
        obtain ⟨token, htoken, -⟩ := (hasRefreshToken_iff session).mp hrefresh
        exact ⟨hs, href, by simp [htoken]⟩
      · exact ⟨href, by decide⟩

theorem stage_afterRead (req : ProxyCall) : (afterRead req session ref now).stage = none := by
  unfold afterRead
  split
  · rfl
  · split
    · rfl
    · split <;> rfl

theorem concerns_afterRefresh (hid : id ≠ "") (why : Refresh) (before : BffSession)
    (hs : session.sessionId = id) (href : st.refToId ref = some id) (random : String) :
    (st.afterRefresh why before ref session random).Concerns st id := by
  cases why with
  | reactive => simp [afterRefresh, Phase.Concerns]
  | proactive =>
    simp only [afterRefresh]
    split
    · exact ⟨hs, writeCall_snd st hid hs random, Or.inl (writeCall_fst st hid hs random)⟩
    · exact ⟨hs, href⟩

theorem concerns_error {why : Refresh} {before : BffSession} {reason : FailReason}
    (href : st.refToId ref = some id) (hreason : reason ≠ .alreadyRotated) :
    (Phase.releaseLock why before ref (.error reason)).Concerns st id := by
  refine ⟨href, fun next hok => ?_, fun heq => hreason (Except.error.inj heq)⟩
  cases hok

theorem stage_afterRefresh (why : Refresh) (before : BffSession) (random : String) :
    (st.afterRefresh why before ref session random).stage = none := by
  cases why with
  | reactive => rfl
  | proactive =>
    simp only [afterRefresh]
    split <;> rfl

end

namespace Shared

/-! ## The simulation -/

/-- The shared state is one token under one lock: the lock's holder is the only party with a
stage, and its lock entry is alive. -/
structure Models (st : ValkeySessionStore) (id : String) (s : Shared)
    (a : OneTimeToken.State Nat String) : Prop where
  holder : ∀ party stage, (s.phase party).stage = some stage ↔ a.holder = some (party, stage)
  locked : ∀ party stage, a.holder = some (party, stage) →
    (s.redis.entries.alive s.now (.refreshlock id)).isSome
  cell : a.cell = storedToken id s.redis
  used : a.used = s.issuer.submitted
  failed : a.failed = s.issuer.failed
  spent : ∀ token ∈ s.issuer.spent, token ∈ s.issuer.submitted
  concerns : ∀ party, (s.phase party).Concerns st id
  stored : ∀ e, s.redis.entries (.session id) = some e →
    ∃ record, e.value = .json record ∧ record.sessionId = id
  safe : Safe a

variable {st : ValkeySessionStore} {calls : Nat → Call} {id : String} {s s' : Shared}
  {a a' : OneTimeToken.State Nat String} {party : Nat} {phase : Phase}

theorem concerns_update (h : ∀ p, (s.phase p).Concerns st id) (hphase : phase.Concerns st id)
    (p : Nat) : (Function.update s.phase party phase p).Concerns st id := by
  by_cases hp : p = party
  · subst hp
    rwa [Function.update_self]
  · rw [Function.update_of_ne hp]
    exact h p

/-- When the mover is the only party that can hold the lock, its new phase decides the holder. -/
theorem Models.holder_update (h : Models st id s a)
    (hothers : ∀ p stage, p ≠ party → a.holder ≠ some (p, stage)) (p : Nat)
    (stage : Stage String) :
    (Function.update s.phase party phase p).stage = some stage ↔
      phase.stage.map (party, ·) = some (p, stage) := by
  by_cases hp : p = party
  · subst hp
    simp
  · rw [Function.update_of_ne hp, h.holder p stage]
    have hne : party ≠ p := fun heq => hp heq.symm
    simp [hothers p stage hp, hne]

theorem Models.others (h : Models st id s a) {stage : Stage String}
    (hmine : (s.phase party).stage = some stage) (p : Nat) (stage' : Stage String)
    (hp : p ≠ party) : a.holder ≠ some (p, stage') := by
  intro hholder
  rw [(h.holder party stage).mp hmine, Option.some.injEq, Prod.mk.injEq] at hholder
  exact hp hholder.1.symm

theorem storedToken_congr {r r' : Redis}
    (h : r'.entries (.session id) = r.entries (.session id)) :
    storedToken id r' = storedToken id r := by
  rw [storedToken, h, storedToken]

theorem apply_indexes {r : Redis} {now : Int} {c : Cmd} (hc : c.Indexes) (id : String) :
    (r.apply now c).entries (.session id) = r.entries (.session id) ∧
      (r.apply now c).entries (.refreshlock id) = r.entries (.refreshlock id) :=
  ⟨Redis.apply_entries_of_ne r now (hc id).1.symm, Redis.apply_entries_of_ne r now (hc id).2.symm⟩

/-- A step that keeps the mover's stage, the stored token, the lock and the issuer. -/
theorem Models.quiet (h : Models st id s a) (hphase : phase.Concerns st id)
    (hstage : phase.stage = (s.phase party).stage) {r : Redis}
    (htoken : storedToken id r = storedToken id s.redis)
    (hstored : ∀ e, r.entries (.session id) = some e →
      ∃ record, e.value = .json record ∧ record.sessionId = id)
    (hlock : r.entries (.refreshlock id) = s.redis.entries (.refreshlock id)) :
    Models st id { s with redis := r, phase := Function.update s.phase party phase } a where
  holder p stage := by
    by_cases hp : p = party
    · subst hp
      simp only [Function.update_self]
      rw [hstage, h.holder]
    · simp only [Function.update_of_ne hp]
      exact h.holder p stage
  locked p stage hh := by
    simpa [ExpiringMap.alive, hlock] using h.locked p stage hh
  cell := h.cell.trans htoken.symm
  used := h.used
  failed := h.failed
  spent := h.spent
  concerns := concerns_update h.concerns hphase
  stored := hstored
  safe := h.safe

theorem Models.local_ (h : Models st id s a) (hphase : phase.Concerns st id)
    (hstage : phase.stage = (s.phase party).stage) :
    Models st id { s with phase := Function.update s.phase party phase } a :=
  h.quiet hphase hstage rfl h.stored rfl

theorem Models.indexing (h : Models st id s a) (hphase : phase.Concerns st id)
    (hstage : phase.stage = (s.phase party).stage) {c : Cmd} (hc : c.Indexes) :
    Models st id { s with
      redis := s.redis.apply s.now c
      phase := Function.update s.phase party phase } a := by
  obtain ⟨hsession, hlock⟩ := apply_indexes (r := s.redis) hc id
  exact h.quiet hphase hstage (storedToken_congr hsession) (fun e he => h.stored e (hsession ▸ he))
    hlock

/-- A read of the session finds a record of it. -/
theorem Models.read (h : Models st id s a) {ref : String} (href : st.refToId ref = some id)
    {session : BffSession} (hread : st.read s.redis s.now ref = some session) :
    session.sessionId = id := by
  rw [ValkeySessionStore.read, href, Option.bind_some] at hread
  obtain ⟨e, he, -, hv⟩ := Redis.fetch_eq_some_iff.mp hread
  obtain ⟨record, hrecord, hsid⟩ := h.stored e he
  rw [hv, Value.json.injEq] at hrecord
  exact hrecord ▸ hsid

/-- A step of the lock's holder, or of a party about to hold it, matched by an abstract step. -/
theorem Models.matched (h : Models st id s a) (l : OneTimeToken.Label Nat String)
    (a' : OneTimeToken.State Nat String) (hstep : OneTimeToken.step a l = some a')
    (hothers : ∀ p stage, p ≠ party → a.holder ≠ some (p, stage))
    (hholder : a'.holder = phase.stage.map (party, ·)) (hphase : phase.Concerns st id)
    {r : Redis} {issuer : Issuer}
    (hlock : phase.stage.isSome → (r.entries.alive s.now (.refreshlock id)).isSome)
    (hcell : a'.cell = storedToken id r)
    (hused : a'.used = issuer.submitted) (hfailed : a'.failed = issuer.failed)
    (hspent : ∀ token ∈ issuer.spent, token ∈ issuer.submitted)
    (hstored : ∀ e, r.entries (.session id) = some e →
      ∃ record, e.value = .json record ∧ record.sessionId = id) :
    ∃ a', Reachable OneTimeToken.step a a' ∧ Models st id
      ⟨r, s.now, issuer, Function.update s.phase party phase⟩ a' := by
  refine ⟨a', .tail .refl trivial hstep, ?_⟩
  constructor
  case holder =>
    intro p stage
    rw [hholder]
    exact h.holder_update hothers p stage
  case locked =>
    intro p stage hh
    rw [hholder] at hh
    obtain ⟨stage', hstage, -⟩ := Option.map_eq_some_iff.mp hh
    exact hlock (by rw [hstage]; rfl)
  case cell => exact hcell
  case used => exact hused
  case failed => exact hfailed
  case spent => exact hspent
  case concerns => exact concerns_update h.concerns hphase
  case stored => exact hstored
  case safe => exact h.safe.step hstep

/-- Taking the free lock. -/
theorem Models.acquire (h : Models st id s a) {why : Refresh} {session : BffSession} {ref : String}
    (hp : s.phase party = .acquireLock why session ref)
    (hfree : s.redis.entries.alive s.now (.refreshlock id) = none)
    (htoken : storedToken id s.redis = session.refreshToken)
    (hfailed : session.refreshToken.getD "" ∉ s.issuer.failed)
    (hlives : 0 < st.lockTtlSeconds) :
    ∃ a', Reachable OneTimeToken.step a a' ∧ Models st id
      ⟨s.redis.apply s.now (.set (.refreshlock id) (.text "1") (some st.lockTtlSeconds)), s.now,
        s.issuer, Function.update s.phase party (.exchange why session ref)⟩ a' := by
  have hconcerns := h.concerns party
  rw [hp] at hconcerns
  obtain ⟨hsid, href, hsome⟩ := hconcerns
  obtain ⟨token, hcarried⟩ := Option.isSome_iff_exists.mp hsome
  -- a free lock has no holder, since a holder's lock is alive
  have hnone : a.holder = none := by
    cases hholder : a.holder with
    | none => rfl
    | some held =>
      have halive := h.locked held.1 held.2 hholder
      rw [hfree] at halive
      cases halive
  have hsession : (s.redis.apply s.now (.set (.refreshlock id) (.text "1")
      (some st.lockTtlSeconds))).entries (.session id) = s.redis.entries (.session id) :=
    Redis.apply_entries_of_ne _ _ (by simp [Cmd.key])
  refine h.matched (.acquire party token) { a with holder := some (party, .using token) }
    ?_ (by simp [hnone]) (by simp [Phase.stage, hcarried]) ?_ ?_
    (h.cell.trans (storedToken_congr hsession).symm) h.used h.failed h.spent ?_
  · have hcell : a.cell = some token := by rw [h.cell, htoken, hcarried]
    have hnotFailed : token ∉ a.failed := by simpa [h.failed, hcarried] using hfailed
    simp [OneTimeToken.step, hnone, hcell, hnotFailed]
  · exact ⟨hsid, href⟩
  · intro _
    have hput : (s.redis.apply s.now (.set (.refreshlock id) (.text "1")
        (some st.lockTtlSeconds))).entries (.refreshlock id) =
        some ⟨.text "1", some (s.now + st.lockTtlSeconds * MS_PER_SECOND)⟩ := by
      simp [Redis.apply, Redis.set, Redis.expiry]
    -- the new entry is alive at once
    have hlater : s.now < s.now + st.lockTtlSeconds * MS_PER_SECOND := by
      unfold MS_PER_SECOND
      omega
    rw [ExpiringMap.alive, hput]
    simp [Expiring.isAlive, hlater]
  · exact fun e he => h.stored e (hsession ▸ he)

/-- The issuer's answer to the holder of the lock. -/
theorem Models.submit (h : Models st id s a) (hid : id ≠ "") {why : Refresh}
    {session : BffSession} {ref : String} {choice : Choice} {issuer : Issuer}
    (hp : s.phase party = .exchange why session ref)
    (hsubmit : st.submit why session ref s.now s.issuer choice = some (phase, issuer)) :
    ∃ a', Reachable OneTimeToken.step a a' ∧ Models st id
      ⟨s.redis, s.now, issuer, Function.update s.phase party phase⟩ a' := by
  have hconcerns := h.concerns party
  rw [hp] at hconcerns
  obtain ⟨hsid, href⟩ := hconcerns
  have hstage : (s.phase party).stage = some (.using (session.refreshToken.getD "")) := by
    rw [hp]
    rfl
  have hholder := (h.holder party _).mp hstage
  -- what the abstract machine knows of the token in use: nobody has used it
  have hunused : session.refreshToken.getD "" ∉ a.used := h.safe.using_unused party _ hholder
  have hlocked := h.locked party _ hholder
  cases choice with
  | granted tokens random =>
    cases hnext : tokens.refresh_token with
    | none => simp [ValkeySessionStore.submit, hnext] at hsubmit
    | some next =>
      simp only [ValkeySessionStore.submit, hnext, Option.ite_none_left_eq_some, not_or,
        Option.some.injEq, Prod.mk.injEq] at hsubmit
      obtain ⟨⟨-, hnew, hne⟩, rfl, rfl⟩ := hsubmit
      have hrotated : (rotated session tokens s.now).refreshToken = some next := by
        simp [rotated, hnext]
      have hcall : (st.writeCall (rotated session tokens s.now) random).1 =
          st.writeCommands id (rotated session tokens s.now) :=
        writeCall_fst st hid ((rotated_sessionId ..).trans hsid) random
      obtain ⟨rest, hcommands, -⟩ := writeCommands_eq st id (rotated session tokens s.now)
      refine h.matched (.succeed next) { a with
          used := session.refreshToken.getD "" :: a.used
          holder := some (party, .storing (session.refreshToken.getD "") next) }
        ?_ (h.others hstage) ?_ ?_ (fun _ => hlocked) h.cell ?_ h.failed ?_ h.stored
      · simp only [OneTimeToken.step, hholder]
        rw [if_neg]
        rw [h.used]
        exact not_or.mpr ⟨hnew, hne⟩
      · rw [hcall, hcommands]
        simp [Phase.stage, recordAhead, hrotated]
      · exact ⟨hsid, href, by simp [hrotated], Or.inl hcall⟩
      · simp [h.used]
      · intro token ht
        exact (List.mem_cons.mp ht).elim (fun heq => heq ▸ List.mem_cons_self)
          fun hold => List.mem_cons_of_mem _ (h.spent token hold)
  | refused =>
    simp only [ValkeySessionStore.submit, Option.some.injEq, Prod.mk.injEq] at hsubmit
    obtain ⟨rfl, rfl⟩ := hsubmit
    -- so a refusal is not for a token exchanged before
    have hspent : session.refreshToken.getD "" ∉ s.issuer.spent := fun hin =>
      hunused (h.used ▸ h.spent _ hin)
    refine h.matched .fail { a with
        used := session.refreshToken.getD "" :: a.used
        failed := session.refreshToken.getD "" :: a.failed
        holder := some (party, .leaving) }
      ?_ (h.others hstage) ?_ ?_ (fun _ => hlocked) h.cell ?_ ?_ ?_ h.stored
    · simp [OneTimeToken.step, hholder]
    · rfl
    · exact concerns_error href (by simp [hspent])
    · simp [h.used]
    · simp [h.failed]
    · exact fun token ht => List.mem_cons_of_mem _ (h.spent token ht)
  | lost =>
    simp only [ValkeySessionStore.submit, Option.ite_none_left_eq_some, Option.some.injEq,
      Prod.mk.injEq] at hsubmit
    obtain ⟨-, rfl, rfl⟩ := hsubmit
    refine h.matched .fail { a with
        used := session.refreshToken.getD "" :: a.used
        failed := session.refreshToken.getD "" :: a.failed
        holder := some (party, .leaving) }
      ?_ (h.others hstage) ?_ ?_ (fun _ => hlocked) h.cell ?_ ?_ ?_ h.stored
    · simp [OneTimeToken.step, hholder]
    · rfl
    · exact concerns_error href (by decide)
    · simp [h.used]
    · simp [h.failed]
    · intro token ht
      exact (List.mem_cons.mp ht).elim (fun heq => heq ▸ List.mem_cons_self)
        fun hold => List.mem_cons_of_mem _ (h.spent token hold)
  | unreachable =>
    simp only [ValkeySessionStore.submit, Option.some.injEq, Prod.mk.injEq] at hsubmit
    obtain ⟨rfl, rfl⟩ := hsubmit
    refine h.matched .giveUp { a with holder := some (party, .leaving) }
      ?_ (h.others hstage) ?_ ?_ (fun _ => hlocked) h.cell h.used h.failed h.spent h.stored
    · simp [OneTimeToken.step, hholder]
    · rfl
    · exact concerns_error href (by decide)
  | go random => simp [ValkeySessionStore.submit] at hsubmit
  | authFailure => simp [ValkeySessionStore.submit] at hsubmit
  | job index => simp [ValkeySessionStore.submit] at hsubmit

/-- The `SET` of the rotated session. -/
theorem Models.store (h : Models st id s a) {why : Refresh} {before next : BffSession}
    {ref nextRef : String} {rest : List Cmd}
    (hp : s.phase party = .storeRotated why before ref next nextRef
      (.set (.session id) (.json next) (some st.ttlSeconds) :: rest))
    (hrest : ∀ c ∈ rest, c.Indexes) :
    ∃ a', Reachable OneTimeToken.step a a' ∧ Models st id
      ⟨s.redis.apply s.now (.set (.session id) (.json next) (some st.ttlSeconds)), s.now, s.issuer,
        Function.update s.phase party (.storeRotated why before ref next nextRef rest)⟩ a' := by
  have hconcerns := h.concerns party
  rw [hp] at hconcerns
  obtain ⟨hsid, href, hsome, -⟩ := hconcerns
  obtain ⟨token, htoken⟩ := Option.isSome_iff_exists.mp hsome
  have hstage : (s.phase party).stage =
      some (.storing (before.refreshToken.getD "") token) := by
    rw [hp]
    simp [Phase.stage, recordAhead, htoken]
  have hholder := (h.holder party _).mp hstage
  have hlocked := h.locked party _ hholder
  have hput : (s.redis.apply s.now (.set (.session id) (.json next)
      (some st.ttlSeconds))).entries (.session id) =
      some ⟨.json next, some (s.now + st.ttlSeconds * MS_PER_SECOND)⟩ := by
    simp [Redis.apply, Redis.set, Redis.expiry]
  have hlock : (s.redis.apply s.now (.set (.session id) (.json next)
      (some st.ttlSeconds))).entries (.refreshlock id) = s.redis.entries (.refreshlock id) :=
    Redis.apply_entries_of_ne _ _ (by simp [Cmd.key])
  -- what is left of the write is about the indexes
  have hleaving : (Phase.storeRotated why before ref next nextRef rest).stage =
      some .leaving := by
    simp [Phase.stage, recordAhead_indexes hrest]
  refine h.matched .store { a with cell := some token, holder := some (party, .leaving) }
    ?_ (h.others hstage) (by simp [hleaving]) ?_ (fun _ => ?_) ?_ h.used h.failed h.spent ?_
  · simp [OneTimeToken.step, hholder]
  · exact ⟨hsid, href, hsome, Or.inr hrest⟩
  · simpa [ExpiringMap.alive, hlock] using hlocked
  · simp [storedToken, hput, Value.parse, htoken]
  · intro e he
    rw [hput, Option.some.injEq] at he
    exact ⟨next, by rw [← he], hsid⟩

/-- The `DEL` of the lock. -/
theorem Models.release (h : Models st id s a) {why : Refresh} {before : BffSession} {ref : String}
    {refreshed : Except FailReason (BffSession × String)}
    (hp : s.phase party = .releaseLock why before ref refreshed)
    (hphase : phase.Concerns st id) (hstage : phase.stage = none) :
    ∃ a', Reachable OneTimeToken.step a a' ∧ Models st id
      ⟨s.redis.apply s.now (.del (.refreshlock id)), s.now, s.issuer,
        Function.update s.phase party phase⟩ a' := by
  -- the holder deletes its own lock
  have hleaving : (s.phase party).stage = some .leaving := by
    rw [hp]
    rfl
  have hholder := (h.holder party _).mp hleaving
  have hsession : (s.redis.apply s.now (.del (.refreshlock id))).entries (.session id) =
      s.redis.entries (.session id) := Redis.apply_entries_of_ne _ _ (by simp [Cmd.key])
  refine h.matched .release { a with holder := none }
    ?_ (h.others hleaving) (by simp [hstage]) hphase (by simp [hstage])
    (h.cell.trans (storedToken_congr hsession).symm) h.used h.failed h.spent
    (fun e he => h.stored e (hsession ▸ he))
  simp [OneTimeToken.step, hholder]

/-- The `DEL` of the record by a teardown: whoever holds the lock keeps it. -/
theorem Models.clear (h : Models st id s a) (hphase : phase.Concerns st id)
    (hstage : phase.stage = (s.phase party).stage) :
    ∃ a', Reachable OneTimeToken.step a a' ∧ Models st id
      ⟨s.redis.apply s.now (.del (.session id)), s.now, s.issuer,
        Function.update s.phase party phase⟩ a' := by
  -- the abstract cell is cleared; the holder goes on
  have hstep : OneTimeToken.step a .clear = some { a with cell := none } := rfl
  have hgone : (s.redis.apply s.now (.del (.session id))).entries (.session id) = none := by
    simp [Redis.apply, Redis.del]
  have hlock : (s.redis.apply s.now (.del (.session id))).entries (.refreshlock id) =
      s.redis.entries (.refreshlock id) := Redis.apply_entries_of_ne _ _ (by simp [Cmd.key])
  refine ⟨_, .tail .refl trivial hstep, ?_⟩
  constructor
  case holder =>
    intro p stage
    by_cases hp : p = party
    · subst hp
      simp only [Function.update_self]
      rw [hstage, h.holder]
    · simp only [Function.update_of_ne hp]
      exact h.holder p stage
  case locked =>
    intro p stage hh
    simpa [ExpiringMap.alive, hlock] using h.locked p stage hh
  case cell => simp [storedToken, hgone]
  case used => exact h.used
  case failed => exact h.failed
  case spent => exact h.spent
  case concerns => exact concerns_update h.concerns hphase
  case stored =>
    intro e he
    rw [hgone] at he
    cases he
  case safe => exact h.safe.step hstep

/-- The proxy's second `SET`, of a session whose token is the stored one. -/
theorem Models.rewrite (h : Models st id s a) {session : BffSession}
    (hphase : phase.Concerns st id) (hstage : phase.stage = (s.phase party).stage)
    (hsid : session.sessionId = id) (htoken : storedToken id s.redis = session.refreshToken) :
    Models st id
      ⟨s.redis.apply s.now (.set (.session id) (.json session) (some st.ttlSeconds)), s.now,
        s.issuer, Function.update s.phase party phase⟩ a := by
  have hput : (s.redis.apply s.now (.set (.session id) (.json session)
      (some st.ttlSeconds))).entries (.session id) =
      some ⟨.json session, some (s.now + st.ttlSeconds * MS_PER_SECOND)⟩ := by
    simp [Redis.apply, Redis.set, Redis.expiry]
  refine h.quiet hphase hstage ?_ ?_ (Redis.apply_entries_of_ne _ _ (by simp [Cmd.key]))
  · simp [storedToken, hput, Value.parse, ← htoken]
  · intro e he
    rw [hput, Option.some.injEq] at he
    exact ⟨session, by rw [← he], hsid⟩

theorem Models.tick (h : Models st id s a) {milliseconds : Nat}
    (hg : LockOutlivesHolder st s (.tick milliseconds)) :
    Models st id { s with now := s.now + milliseconds } a where
  holder := h.holder
  locked party stage hh := by
    have hstage := (h.holder party stage).mpr hh
    have hconcerns := h.concerns party
    cases hp : s.phase party with
    | exchange why session ref =>
      rw [hp] at hconcerns
      exact hg party ref id (by rw [hp]; rfl) hconcerns.2
    | storeRotated why before ref next nextRef todo =>
      rw [hp] at hconcerns
      exact hg party ref id (by rw [hp]; rfl) hconcerns.2.1
    | releaseLock why before ref refreshed =>
      rw [hp] at hconcerns
      exact hg party ref id (by rw [hp]; rfl) hconcerns.1
    | _ =>
      rw [hp] at hstage
      cases hstage
  cell := h.cell
  used := h.used
  failed := h.failed
  spent := h.spent
  concerns := h.concerns
  stored := h.stored
  safe := h.safe

/-- The simulation step: every guarded move is matched by the abstract machine. -/
theorem models_step (hid : id ≠ "") (hlives : 0 < st.lockTtlSeconds)
    (hcalls : ∀ party, ∃ req, calls party = .request req ∧ st.refToId req.ref = some id)
    {m : Move} (h : Models st id s a) (hlock : LockOutlivesHolder st s m)
    (hspends : SpendsCurrent st s m) (hs : step st calls s m = some s') :
    ∃ a', Reachable OneTimeToken.step a a' ∧ Models st id s' a' := by
  cases m with
  | tick milliseconds =>
    cases hs
    exact ⟨a, .refl, h.tick hlock⟩
  | act party choice =>
    obtain ⟨⟨phase, r, issuer⟩, hadvance, rfl⟩ := Option.map_eq_some_iff.mp hs
    have hconcerns := h.concerns party
    simp only [SpendsCurrent] at hspends
    have hstep := advances_of_advance hadvance
    generalize hp : s.phase party = before at hconcerns hspends hstep
    cases hstep with
    | start random =>
      obtain ⟨req, hcall, href⟩ := hcalls party
      rw [hcall, begin_]
      cases hread : st.read s.redis s.now req.ref with
      | none => exact ⟨a, .refl, h.local_ (by simp [Phase.Concerns]) (by rw [hp]; rfl)⟩
      | some session =>
        exact ⟨a, .refl, h.local_ ⟨h.read href hread, href⟩ (by rw [hp]; rfl)⟩
    | gated session ref random req hcall =>
      exact ⟨a, .refl, h.local_ (concerns_afterRead req hconcerns.1 hconcerns.2)
        (by rw [hp, stage_afterRead]; rfl)⟩
    | acquired why session ref random held href hfree =>
      obtain ⟨hsid, hid', hsome⟩ := hconcerns
      obtain rfl : held = id := Option.some.inj (href.symm.trans hid')
      -- the lock was free: the condition says the token is the stored one
      obtain ⟨htoken, hfailed⟩ := hspends.1 _ rfl held href hfree
      exact h.acquire hp hfree htoken hfailed hlives
    | contended why session ref random =>
      exact ⟨a, .refl, h.local_ hconcerns.2.1 (by rw [hp]; rfl)⟩
    | submitted why session ref _ phase' issuer' hsubmit => exact h.submit hid hp hsubmit
    | storing why before ref next nextRef random c rest =>
      obtain ⟨hsid, href, hsome, hwrites⟩ := hconcerns
      obtain ⟨hrest, rfl | hindexes⟩ := hwrites.cons
      · exact h.store hp hrest
      · have hnext : (Phase.storeRotated why before ref next nextRef rest).Concerns st id :=
          ⟨hsid, href, hsome, Or.inr hrest⟩
        refine ⟨a, .refl, h.indexing hnext ?_ hindexes⟩
        rw [hp]
        simp [Phase.stage, recordAhead_indexes hrest,
          recordAhead_indexes (List.forall_mem_cons.mpr ⟨hindexes, hrest⟩)]
    | stored why before ref next nextRef random =>
      obtain ⟨hsid, href, hsome, hwrites⟩ := hconcerns
      refine ⟨a, .refl, h.local_ ⟨href, ?_, by simp⟩ (by rw [hp]; rfl)⟩
      intro refreshed hok
      cases hok
      exact hsid
    | failed why before ref random held reason href =>
      obtain ⟨hid', hok, hreason⟩ := hconcerns
      obtain rfl : held = id := Option.some.inj (href.symm.trans hid')
      have hnext : (Phase.tearDown reason ref).Concerns st held :=
        ⟨href, fun heq => hreason (heq ▸ rfl)⟩
      exact h.release hp hnext rfl
    | refreshed why before ref random held next nextRef href =>
      obtain ⟨hid', hok, hreason⟩ := hconcerns
      obtain rfl : held = id := Option.some.inj (href.symm.trans hid')
      exact h.release hp (concerns_afterRefresh hid why before (hok _ rfl) href _)
        (stage_afterRefresh ..)
    | gone why before ref random =>
      have hnext : (Phase.tearDown .sessionGone ref).Concerns st id := ⟨hconcerns, by decide⟩
      exact ⟨a, .refl, h.local_ hnext (by rw [hp]; rfl)⟩
    | adopted why before ref random peer hread =>
      exact ⟨a, .refl, h.local_
        (concerns_afterRefresh hid why before (h.read hconcerns hread) hconcerns _)
        (by rw [hp, stage_afterRefresh]; rfl)⟩
    | writing session ref random c rest =>
      obtain ⟨hsid, href, hwrites⟩ := hconcerns
      obtain ⟨hrest, hhead⟩ := hwrites.cons
      have hnext : (Phase.writeSession session ref rest).Concerns st id :=
        ⟨hsid, href, Or.inr hrest⟩
      rcases hhead with rfl | hindexes
      · exact ⟨a, .refl, h.rewrite hnext (by rw [hp]; rfl) hsid (hspends.2 _ rfl)⟩
      · exact ⟨a, .refl, h.indexing hnext (by rw [hp]; rfl) hindexes⟩
    | written session ref random =>
      exact ⟨a, .refl, h.local_ ⟨hconcerns.1, hconcerns.2.1⟩ (by rw [hp]; rfl)⟩
    | relayed session ref _ =>
      exact ⟨a, .refl, h.local_ (by simp [Phase.Concerns]) (by rw [hp]; rfl)⟩
    | replayed session ref hrefresh =>
      obtain ⟨token, htoken, -⟩ := (hasRefreshToken_iff session).mp hrefresh
      have hnext : (Phase.acquireLock .reactive session ref).Concerns st id :=
        ⟨hconcerns.1, hconcerns.2, by simp [htoken]⟩
      exact ⟨a, .refl, h.local_ hnext (by rw [hp]; rfl)⟩
    | unassembled reason ref random href =>
      rw [hconcerns.1] at href
      cases href
    | fetched reason ref random torn href =>
      obtain ⟨hid', hreason⟩ := hconcerns
      obtain rfl : torn = id := Option.some.inj (href.symm.trans hid')
      exact ⟨a, .refl, h.local_ ⟨hreason, destroyCommands_indexes torn _⟩ (by rw [hp]; rfl)⟩
    | tearing reason random c rest =>
      obtain ⟨hreason, htodo⟩ := hconcerns
      have hnext : (Phase.tearingDown reason rest).Concerns st id :=
        ⟨hreason, fun c' hc' => htodo c' (List.mem_cons_of_mem _ hc')⟩
      -- the teardown's `DEL` of the record is a step of the abstract machine, the rest is not
      rcases htodo c List.mem_cons_self with rfl | hindexes
      · exact h.clear hnext (by rw [hp]; rfl)
      · exact ⟨a, .refl, h.indexing hnext (by rw [hp]; rfl) hindexes⟩
    | tornDown reason random =>
      exact ⟨a, .refl, h.local_ (by simpa [Phase.Concerns] using hconcerns.1) (by rw [hp]; rfl)⟩
    | removing jobs index job moved hjob hmoved => exact hconcerns.elim
    | removed jobs random hdone => exact hconcerns.elim

/-- No request was refused a token that had been exchanged before. -/
def NoneRefusedRotated (s : Shared) : Prop :=
  ∀ party, s.phase party ≠ .responded (.refreshFailed .alreadyRotated)

/-- In every run of requests for one session in which each lock is taken with the stored token and
each write-back finds its token stored, every refresh token is submitted at most once and no
request fails because a peer rotated the tokens. -/
theorem refresh_tokens_submitted_once (st : ValkeySessionStore) (hlives : 0 < st.lockTtlSeconds)
    (calls : Nat → Call) (id : String) (hid : id ≠ "")
    (hcalls : ∀ party, ∃ req, calls party = .request req ∧ st.refToId req.ref = some id)
    (redis : Redis) (now : Int)
    (hstored : ∀ e, redis.entries (.session id) = some e →
      ∃ record, e.value = .json record ∧ record.sessionId = id)
    (s : Shared)
    (hrun : Reaches (step st calls) (fun s m => LockOutlivesHolder st s m ∧ SpendsCurrent st s m)
      (initial redis now) s) :
    s.issuer.submitted.Nodup ∧ NoneRefusedRotated s := by
  have hinitial : Models st id (initial redis now) ⟨storedToken id redis, [], [], none⟩ := by
    refine ⟨?_, ?_, rfl, rfl, rfl, ?_, fun _ => trivial, hstored, safe_initial _⟩
    · intro party stage
      simp [initial, Phase.stage]
    · intro party stage hh
      cases hh
    · intro token ht
      cases ht
  obtain ⟨a, -, hmodels⟩ := hrun.simulate hinitial
    fun s m s' a hm hg hs => models_step hid hlives hcalls hm hg.1 hg.2 hs
  refine ⟨hmodels.used ▸ hmodels.safe.nodup, fun party hp => ?_⟩
  have hconcerns := hmodels.concerns party
  rw [hp] at hconcerns
  exact hconcerns rfl

/-! ## The race -/

/-- Every request presents the one session. -/
def requests : Nat → Call := fun _ => .request ⟨marked.idToRef "s1", "GET", none⟩

/-- The moves of a request from its read to the lock. -/
def readAndGate (party : Nat) : List Move :=
  [.act party (.go ""), .act party (.go "")]

/-- The moves of a request that takes the lock, is granted new tokens and stores them. -/
def refresh (party : Nat) : List Move :=
  [.act party (.go ""), .act party (.granted rotatedTokens ""), .act party (.go ""),
    .act party (.go ""), .act party (.go ""), .act party (.go ""), .act party (.go "")]

theorem requests_one_session (party : Nat) :
    ∃ req, requests party = .request req ∧ marked.refToId req.ref = some "s1" :=
  ⟨_, rfl, marked.refToId_idToRef "s1"⟩

theorem loggedIn_stored (e : Expiring Value)
    (h : (marked.write Redis.empty 0 expired "").2.entries (.session "s1") = some e) :
    ∃ record, e.value = .json record ∧ record.sessionId = "s1" := by
  have hentry : (marked.write Redis.empty 0 expired "").2.entries (.session "s1") =
      some ⟨.json expired, some 1800000⟩ := by decide +kernel
  rw [hentry, Option.some.injEq] at h
  exact ⟨expired, by rw [← h], rfl⟩

/-- One request after the other: the second reads what the first stored. -/
theorem refresh_tokens_submitted_once_inTurn :
    ∃ s, (step marked requests s (.act 1 (.go ""))).isSome ∧
      s.issuer.submitted.Nodup ∧ NoneRefusedRotated s := by
  have hrun : ((run (step marked requests)
      (fun s m => match m with
        | .act _ _ => decide (SpendsCurrent marked s m)
        | .tick _ => false)
      loggedIn (readAndGate 0 ++ refresh 0 ++ readAndGate 1)).map fun s =>
        (step marked requests s (.act 1 (.go ""))).isSome) = some true := by
    decide +kernel
  obtain ⟨s, hs, hnext⟩ := Option.map_eq_some_iff.mp hrun
  have hreach : Reaches (step marked requests)
      (fun s m => LockOutlivesHolder marked s m ∧ SpendsCurrent marked s m) loggedIn s := by
    refine reaches_of_run (fun s m hcheck => ?_) hs
    cases m with
    | act party choice => exact ⟨trivial, of_decide_eq_true hcheck⟩
    | tick milliseconds => cases hcheck
  exact ⟨s, hnext, refresh_tokens_submitted_once marked (by decide) requests "s1" (by decide)
    requests_one_session _ 0 loggedIn_stored s hreach⟩

/-- Both requests read the session before either takes the lock: the second submits the token the
first has exchanged and is torn down for it. -/
theorem refresh_token_submitted_twice :
    ¬ ∀ (st : ValkeySessionStore), 0 < st.lockTtlSeconds →
      ∀ (calls : Nat → Call) (id : String), id ≠ "" →
      (∀ party, ∃ req, calls party = .request req ∧ st.refToId req.ref = some id) →
      ∀ (redis : Redis) (now : Int),
      (∀ e, redis.entries (.session id) = some e →
        ∃ record, e.value = .json record ∧ record.sessionId = id) →
      ∀ s, Reaches (step st calls) (LockOutlivesHolder st) (initial redis now) s →
        s.issuer.submitted.Nodup ∧ NoneRefusedRotated s := by
  intro hclaim
  have hrun : ((run (step marked requests)
      (fun _ m => match m with
        | .act _ _ => true
        | .tick _ => false)
      loggedIn (readAndGate 0 ++ readAndGate 1 ++ refresh 0 ++
        [.act 1 (.go ""), .act 1 .refused])).map fun s =>
        decide (s.issuer.submitted = ["t0", "t0"])) = some true := by
    decide +kernel
  obtain ⟨s, hs, htwice⟩ := Option.map_eq_some_iff.mp hrun
  have hreach : Reaches (step marked requests) (LockOutlivesHolder marked) loggedIn s := by
    refine reaches_of_run (fun s m hcheck => ?_) hs
    cases m with
    | act party choice => trivial
    | tick milliseconds => cases hcheck
  obtain ⟨hnodup, -⟩ := hclaim marked (by decide) requests "s1" (by decide) requests_one_session
    _ 0 loggedIn_stored s hreach
  rw [of_decide_eq_true htwice] at hnodup
  exact absurd hnodup (by decide)

end Shared

end Wallow.Bff
