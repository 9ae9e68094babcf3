import Wallow.Bff.Requests

/-!
# A logout among refreshing requests

`write` is an unconditional `SET`, so a request that refreshed a session before a logout deleted
it puts the record back.  Where no write-back finds the record gone, a destroyed session stays
destroyed.
-/

namespace Wallow.Bff

open Transition ValkeySessionStore

/-- The destroying calls that are about `session`: its reference, its issuer sid, its subject. -/
def Call.destroys (st : ValkeySessionStore) (session : BffSession) : Call → Prop
  | .request _ => False
  | .destroy ref => st.refToId ref = some session.sessionId
  | .revokeBySid sid => session.sid = some sid
  | .revokeBySubject sub => session.user.sub = sub

instance (st : ValkeySessionStore) (session : BffSession) :
    (call : Call) → Decidable (call.destroys st session)
  | .request _ => inferInstanceAs (Decidable False)
  | .destroy _ => inferInstanceAs (Decidable (_ = _))
  | .revokeBySid _ => inferInstanceAs (Decidable (_ = _))
  | .revokeBySubject _ => inferInstanceAs (Decidable (_ = _))

/-- The `SET` of the record at `id`. -/
def Cmd.writesRecord (id : String) : Cmd → Bool
  | .set (.session id') _ _ => id' == id
  | _ => false

/-- The removal of `id` is still to run its `DEL`. -/
def Job.Pending (id : String) (job : Job) : Prop :=
  job.id = id ∧ ∀ todo, job.todo = some todo → .del (.session id) ∈ todo

namespace Shared

/-- Nothing is stored at `id`, not even a lapsed record. -/
def Cleared (id : String) (r : Redis) : Prop :=
  r.entries (.session id) = none

instance (id : String) (r : Redis) : Decidable (Cleared id r) :=
  inferInstanceAs (Decidable (_ = none))

/-- The index a back-channel logout looks its sessions up in names `session`. -/
def IndexNames (session : BffSession) (r : Redis) (now : Int) : Call → Prop
  | .revokeBySid sid => sidTarget r now sid = some session.sessionId
  | .revokeBySubject sub => session.sessionId ∈ r.smembers now (.sub sub)
  | _ => True

instance (session : BffSession) (r : Redis) (now : Int) :
    (call : Call) → Decidable (IndexNames session r now call)
  | .request _ => inferInstanceAs (Decidable True)
  | .destroy _ => inferInstanceAs (Decidable True)
  | .revokeBySid _ => inferInstanceAs (Decidable (_ = _))
  | .revokeBySubject _ => inferInstanceAs (Decidable (_ ∈ _))

/-- No write-back of the session finds its record deleted, and no back-channel logout of the
session misses it in the index while it is stored. -/
def WritesBackInPlace (st : ValkeySessionStore) (calls : Nat → Call) (session : BffSession)
    (s : Shared) : Move → Prop
  | .tick _ => True
  | .act party choice =>
    (((s.phase party).nextCmd choice).any (·.writesRecord session.sessionId) →
      ¬ Cleared session.sessionId s.redis) ∧
    (s.phase party = .start → (calls party).destroys st session →
      ¬ Cleared session.sessionId s.redis → IndexNames session s.redis s.now (calls party))

instance (st : ValkeySessionStore) (calls : Nat → Call) (session : BffSession) (s : Shared) :
    (m : Move) → Decidable (WritesBackInPlace st calls session s m)
  | .tick _ => inferInstanceAs (Decidable True)
  | .act _ _ => inferInstanceAs (Decidable (_ ∧ _))

/-! ## What has been deleted stays deleted -/

theorem cleared_apply {id : String} {r : Redis} {now : Int} {c : Cmd} (h : Cleared id r)
    (hc : c.writesRecord id = false) : Cleared id (r.apply now c) := by
  by_cases hkey : .session id = c.key
  · cases c with
    | set key value ex =>
      have hk : Key.session id = key := hkey
      simp [Cmd.writesRecord, ← hk] at hc
    | del key =>
      have hk : Key.session id = key := hkey
      simp [Cleared, Redis.apply, Redis.del, hk]
    | sadd key member => exact h
    | srem key member =>
      simp only [Cleared, Redis.apply, Redis.srem]
      split
      · exact h
      · split <;> exact h
    | expire key seconds =>
      have hk : Key.session id = key := hkey
      have halive : r.entries.alive now key = none := by
        rw [← hk, ExpiringMap.alive, h]
        rfl
      simpa [Cleared, Redis.apply, Redis.expire, halive] using h
  · exact (Redis.apply_entries_of_ne r now hkey).trans h

theorem cleared_del (id : String) (r : Redis) (now : Int) :
    Cleared id (r.apply now (.del (.session id))) := by
  simp [Cleared, Redis.apply, Redis.del]

variable {st : ValkeySessionStore} {calls : Nat → Call} {session : BffSession} {s s' : Shared}

theorem cleared_step {m : Move} (h : Cleared session.sessionId s.redis)
    (hg : WritesBackInPlace st calls session s m) (hs : step st calls s m = some s') :
    Cleared session.sessionId s'.redis := by
  cases m with
  | tick milliseconds =>
    cases hs
    exact h
  | act party choice =>
    obtain ⟨phase, hadvance, -, -⟩ := step_act hs
    rcases advance_redis hadvance with hsame | ⟨c, hc, hnext⟩
    · exact hsame ▸ h
    · rw [hc]
      refine cleared_apply h (Bool.eq_false_iff.mpr fun hwrites => ?_)
      rcases hnext with hnext | ⟨id, hkey⟩
      · exact hg.1 (by rw [hnext]; exact hwrites) h
      · -- the lock commands are about another key
        cases c with
        | set key value ex =>
          have hk : key = .refreshlock id := hkey
          simp [Cmd.writesRecord, hk] at hwrites
        | _ => cases hwrites

/-! ## A destroying call deletes the record before it answers -/

/-- Where a destroying call stands: it has the deletion ahead, or the record is gone. -/
def Removes (id : String) (r : Redis) : Phase → Prop
  | .start => True
  | .removing jobs =>
    Cleared id r ∨ ∃ (i : Nat) (job : Job), jobs[i]? = some job ∧ Job.Pending id job
  | .responded _ => Cleared id r
  | _ => False

theorem Removes.of_cleared {id : String} {r r' : Redis} {phase : Phase}
    (h : Removes id r phase) (hc : Cleared id r → Cleared id r') : Removes id r' phase := by
  cases phase with
  | start => trivial
  | removing jobs => exact h.imp_left hc
  | responded outcome => exact hc h
  | _ => exact h.elim

/-- One call of a removal: the deletion stays ahead until it is run. -/
theorem advanceJob_pending {id : String} {call : Call} {r : Redis} {now : Int} {job : Job}
    {moved : Job × Redis} (hp : job.Pending id) (h : advanceJob call r now job = some moved) :
    Cleared id moved.2 ∨ moved.1.Pending id := by
  obtain ⟨hid, htodo⟩ := hp
  unfold advanceJob at h
  split at h
  · cases h
    refine Or.inr ⟨hid, fun todo ht => ?_⟩
    cases ht
    simp [destroyCommands, hid]
  · rename_i hnil
    simpa using htodo [] hnil
  · rename_i c rest hcons
    cases h
    -- the command run now is the deletion, or the deletion is among the rest
    rcases List.mem_cons.mp (htodo _ hcons) with hdel | hrest
    · exact Or.inl (hdel ▸ cleared_del id r now)
    · refine Or.inr ⟨hid, fun todo ht => ?_⟩
      cases ht
      exact hrest

/-- A step of the destroying call itself. -/
theorem removes_advance {party : Nat} {choice : Choice} {phase : Phase} {r : Redis}
    {issuer : Issuer} (hdestroys : (calls party).destroys st session)
    (h : Removes session.sessionId s.redis (s.phase party))
    (hg : WritesBackInPlace st calls session s (.act party choice))
    (hcleared : Cleared session.sessionId s.redis → Cleared session.sessionId r)
    (hadvance : st.advance (calls party) s.redis s.now s.issuer (s.phase party) choice =
      some (phase, r, issuer)) :
    Removes session.sessionId r phase := by
  have hstep := advances_of_advance hadvance
  generalize hp : s.phase party = before at h hstep
  cases hstep with
  | start random =>
    -- the call looks its sessions up now
    have hindex := hg.2 hp hdestroys
    by_cases hc : Cleared session.sessionId s.redis
    · -- nothing is stored: whatever the lookup answers will do
      cases hcall : calls party with
      | request req => exact (hcall ▸ hdestroys : (Call.request req).destroys st session).elim
      | destroy ref =>
        rw [begin_]
        cases st.refToId ref with
        | none => exact hc
        | some id => exact Or.inl hc
      | revokeBySid sid =>
        rw [begin_]
        cases sidTarget s.redis s.now sid with
        | none => exact hc
        | some id => exact Or.inl hc
      | revokeBySubject sub => exact Or.inl hc
    · have hnames := hindex hc
      cases hcall : calls party with
      | request req => exact (hcall ▸ hdestroys : (Call.request req).destroys st session).elim
      | destroy ref =>
        have href : st.refToId ref = some session.sessionId := by
          simpa [hcall, Call.destroys] using hdestroys
        rw [begin_, href]
        exact Or.inr ⟨0, ⟨session.sessionId, none⟩, rfl, rfl, fun _ ht => by cases ht⟩
      | revokeBySid sid =>
        have hsid : sidTarget s.redis s.now sid = some session.sessionId := by
          simpa [hcall, IndexNames] using hnames
        rw [begin_, hsid]
        exact Or.inr ⟨0, ⟨session.sessionId, none⟩, rfl, rfl, fun _ ht => by cases ht⟩
      | revokeBySubject sub =>
        have hmem : session.sessionId ∈ s.redis.smembers s.now (.sub sub) := by
          simpa [hcall, IndexNames] using hnames
        obtain ⟨i, hi⟩ := List.mem_iff_getElem?.mp hmem
        rw [begin_]
        -- the removal stands where the id stands among the members
        refine Or.inr ⟨i, ⟨session.sessionId, none⟩, ?_, rfl, fun _ ht => by cases ht⟩
        rw [List.getElem?_map, hi]
        rfl
  | removing jobs index moving moved hjob hmoved =>
    rcases h with hc | ⟨i, job, hi, hpending⟩
    · exact Or.inl (hcleared hc)
    · -- another removal leaves the pending one where it is
      by_cases heq : index = i
      · rw [heq, hi, Option.some.injEq] at hjob
        rw [← hjob] at hmoved
        refine (advanceJob_pending hpending hmoved).imp_right fun hpending' =>
          ⟨index, moved.1, ?_, hpending'⟩
        have hlt := (List.getElem?_eq_some_iff.mp (heq ▸ hi)).1
        simp [hlt]
      · exact Or.inr ⟨i, job, by rw [List.getElem?_set_ne heq, hi], hpending⟩
  | removed jobs random hdone =>
    rcases h with hc | ⟨i, job, hi, hpending⟩
    · exact hcleared hc
    · -- every removal is done, so none is pending
      have hnil := hdone job (List.mem_of_getElem? hi)
      simpa using hpending.2 [] hnil
  | _ => exact h.elim

/-- The step lemma: every destroying call of the session keeps where it stands. -/
theorem removes_step {m : Move} {party : Nat} (hdestroys : (calls party).destroys st session)
    (h : Removes session.sessionId s.redis (s.phase party))
    (hg : WritesBackInPlace st calls session s m) (hs : step st calls s m = some s') :
    Removes session.sessionId s'.redis (s'.phase party) := by
  have hcleared : Cleared session.sessionId s.redis → Cleared session.sessionId s'.redis :=
    fun hc => cleared_step hc hg hs
  cases m with
  | tick milliseconds =>
    cases hs
    exact h
  | act mover choice =>
    obtain ⟨phase, hadvance, -, hphase⟩ := step_act hs
    rw [hphase]
    by_cases heq : party = mover
    · subst heq
      rw [Function.update_self]
      exact removes_advance hdestroys h hg hcleared hadvance
    · rw [Function.update_of_ne heq]
      exact h.of_cleared hcleared

/-- In every run whose write-backs find their record, a completed logout of a session is final: no
reference to it resolves, then or later. -/
theorem logout_final (st : ValkeySessionStore) (calls : Nat → Call) (session : BffSession)
    (redis : Redis) (now : Int) (s u : Shared) (party : Nat) (outcome : Outcome)
    (hdestroys : (calls party).destroys st session)
    (hrun : Reaches (step st calls) (WritesBackInPlace st calls session) (initial redis now) s)
    (hdone : s.phase party = .responded outcome)
    (hlater : Reaches (step st calls) (WritesBackInPlace st calls session) s u) :
    ∀ ref, st.refToId ref = some session.sessionId → st.read u.redis u.now ref = none := by
  have hremoves : Removes session.sessionId s.redis (s.phase party) :=
    hrun.invariant (fun s => Removes session.sessionId s.redis (s.phase party)) trivial
      fun _ _ _ hi hg hs => removes_step hdestroys hi hg hs
  have hcleared : Cleared session.sessionId s.redis := by
    rw [hdone] at hremoves
    exact hremoves
  have hlast : Cleared session.sessionId u.redis :=
    hlater.invariant (fun s => Cleared session.sessionId s.redis) hcleared
      fun _ _ _ hi hg hs => cleared_step hi hg hs
  intro ref href
  rw [ValkeySessionStore.read, href, Option.bind_some]
  exact Redis.fetch_of_entries_none hlast

/-! ## The race -/

/-- One request for the session, and one logout. -/
def requestAndLogout : Nat → Call
  | 0 => .request ⟨marked.idToRef "s1", "GET", none⟩
  | _ => .destroy (marked.idToRef "s1")

def logoutMoves : List Move :=
  [.act 1 (.go ""), .act 1 (.job 0), .act 1 (.job 0), .act 1 (.job 0), .act 1 (.go "")]

theorem logout_final_undisturbed :
    ∃ u, Reaches (step marked requestAndLogout)
        (WritesBackInPlace marked requestAndLogout expired) loggedIn u ∧
      ∀ ref, marked.refToId ref = some "s1" → marked.read u.redis u.now ref = none := by
  have hrun : ((run (step marked requestAndLogout)
      (fun s m => decide (WritesBackInPlace marked requestAndLogout expired s m)) loggedIn
      logoutMoves).map fun s => decide (s.phase 1 = .responded .destroyed)) = some true := by
    decide +kernel
  obtain ⟨s, hs, hdone⟩ := Option.map_eq_some_iff.mp hrun
  have hreach : Reaches (step marked requestAndLogout)
      (WritesBackInPlace marked requestAndLogout expired) loggedIn s :=
    reaches_of_run (fun _ _ h => of_decide_eq_true h) hs
  have hdestroys : (requestAndLogout 1).destroys marked expired := by decide +kernel
  exact ⟨s, hreach, logout_final marked requestAndLogout expired _ 0 s s 1 .destroyed hdestroys
    hreach (of_decide_eq_true hdone) .refl⟩

/-- A request exchanges its token, the logout runs to its end, and the request's `SET` brings the
record back. -/
theorem logout_resurrected :
    ∃ s u, Reachable (step marked requestAndLogout) loggedIn s ∧
      s.phase 1 = .responded .destroyed ∧
      Reachable (step marked requestAndLogout) s u ∧
      (marked.read u.redis u.now (marked.idToRef "s1")).isSome := by
  have hrun : ((run (step marked requestAndLogout) (fun _ _ => true) loggedIn
      ([.act 0 (.go ""), .act 0 (.go ""), .act 0 (.go ""), .act 0 (.granted rotatedTokens "")]
        ++ logoutMoves)).map fun s =>
      decide (s.phase 1 = .responded .destroyed) &&
        ((run (step marked requestAndLogout) (fun _ _ => true) s [.act 0 (.go "")]).any fun u =>
          (marked.read u.redis u.now (marked.idToRef "s1")).isSome)) = some true := by
    decide +kernel
  obtain ⟨s, hs, hboth⟩ := Option.map_eq_some_iff.mp hrun
  rw [Bool.and_eq_true, decide_eq_true_eq, Option.any_eq_true] at hboth
  obtain ⟨hdone, u, hu, hread⟩ := hboth
  exact ⟨s, u, reaches_of_run (fun _ _ _ => trivial) hs, hdone,
    reaches_of_run (fun _ _ _ => trivial) hu, hread⟩

end Shared

end Wallow.Bff
