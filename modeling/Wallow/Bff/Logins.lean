import Wallow.Bff.SidHistory

/-!
# What a `ValkeySessionStore` is for

A table of the sessions and one of the issuer's sids, with no index over the subjects: who revokes a
subject looks through all sessions.  The store over Redis answers as the two tables do.
-/

namespace Wallow.Bff

/-- The session kept under each id, and the id each sid leads to, until they lapse. -/
structure Logins where
  sessions : ExpiringMap String BffSession
  sids : ExpiringMap String String

namespace Logins

open Classical in
/-- The sessions at the ids go, with the sids that the live ones carry. -/
noncomputable def remove (l : Logins) (now : Int) (gone : String → Prop) : Logins where
  sessions id := if gone id then none else l.sessions id
  sids sid :=
    if ∃ id, gone id ∧ (l.sessions.lookup now id).bind (·.sid) = some sid then none
    else l.sids sid

open Classical in
theorem lookup_sessions_remove (l : Logins) (now t : Int) (gone : String → Prop) (id : String) :
    (l.remove now gone).sessions.lookup t id =
      if gone id then none else l.sessions.lookup t id := by
  unfold remove ExpiringMap.lookup ExpiringMap.alive
  dsimp only
  split <;> rfl

open Classical in
theorem lookup_sids_remove (l : Logins) (now t : Int) (gone : String → Prop) (sid : String) :
    (l.remove now gone).sids.lookup t sid =
      if ∃ id, gone id ∧ (l.sessions.lookup now id).bind (·.sid) = some sid then none
      else l.sids.lookup t sid := by
  unfold remove ExpiringMap.lookup ExpiringMap.alive
  dsimp only
  split <;> rfl

def write (l : Logins) (until_ : Int) (id : String) (record : BffSession) : Logins where
  sessions := l.sessions.put id record (some until_)
  sids := match record.sid with
    | none => l.sids
    | some sid => l.sids.put sid id (some until_)

noncomputable def step (st : ValkeySessionStore) (s : Logins × Int) :
    ValkeySessionStore.Event → Logins × Int
  | .write session random =>
    let id := ValkeySessionStore.recordId session random
    (s.1.write (s.2 + st.ttlSeconds * MS_PER_SECOND) id { session with sessionId := id }, s.2)
  | .destroy ref =>
    match st.refToId ref with
    | none => s
    | some id => (s.1.remove s.2 (· = id), s.2)
  | .revokeBySid sid =>
    match s.1.sids.lookup s.2 sid with
    | none => s
    | some id =>
      let removed := s.1.remove s.2 (· = id)
      ({ removed with sids := removed.sids.erase sid }, s.2)
  | .revokeBySubject sub =>
    (s.1.remove s.2 fun id => (s.1.sessions.lookup s.2 id).any (·.user.sub = sub), s.2)
  | .advance milliseconds => (s.1, s.2 + milliseconds)

/-- The tables and the clock after a history, from empty tables at `start`. -/
noncomputable def replay (st : ValkeySessionStore) (start : Int)
    (history : List ValkeySessionStore.Event) : Logins × Int :=
  history.foldl (step st) (⟨.empty, .empty⟩, start)

end Logins

namespace ValkeySessionStore

variable {st : ValkeySessionStore} {subOf : String → String} {r r' : Redis} {now : Int}
  {l : Logins} {id sid : String}

/-! ## The tables and the store -/

/-- From now on both answer the same. -/
structure Tells (r : Redis) (now : Int) (l : Logins) : Prop where
  sessions : ∀ t, now ≤ t → ∀ id, r.fetch t id = l.sessions.lookup t id
  sids : ∀ t, now ≤ t → ∀ sid, sidTarget r t sid = l.sids.lookup t sid

theorem sidTarget_congr (t : Int) (h : r'.entries (.sid sid) = r.entries (.sid sid)) :
    sidTarget r' t sid = sidTarget r t sid := by
  simp [sidTarget, Redis.get, ExpiringMap.lookup, ExpiringMap.alive, h]

theorem sidTarget_of_entries_none (t : Int) (h : r.entries (.sid sid) = none) :
    sidTarget r t sid = none := by
  simp [sidTarget, Redis.get, ExpiringMap.lookup, ExpiringMap.alive, h]

theorem Tells.write (h : Tells r now l) (id : String) (record : BffSession) :
    Tells (r.applyAll now (st.writeCommands id record)) now
      (l.write (now + st.ttlSeconds * MS_PER_SECOND) id record) where
  sessions := by
    intro t ht id'
    have hentry : (r.applyAll now (st.writeCommands id record)).entries (.session id') = _ :=
      writeCommands_session st id record id'
    by_cases hid : id' = id
    · rw [if_pos hid] at hentry
      subst hid
      by_cases hlater : t < now + st.ttlSeconds * MS_PER_SECOND <;>
        simp [Logins.write, Redis.fetch, Redis.get, ExpiringMap.lookup, ExpiringMap.alive, hentry,
          Expiring.isAlive, hlater, Value.parse, Option.filter]
    · rw [if_neg hid] at hentry
      rw [Redis.fetch_congr hentry, h.sessions t ht]
      exact (ExpiringMap.lookup_put_of_ne _ _ _ _ hid).symm
  sids := by
    intro t ht sid
    have hentry := writeCommands_sid st r now id record sid
    unfold Logins.write
    by_cases hsid : record.sid = some sid
    · rw [if_pos hsid] at hentry
      by_cases hlater : t < now + st.ttlSeconds * MS_PER_SECOND <;>
        simp [hsid, sidTarget, Redis.get, ExpiringMap.lookup, ExpiringMap.alive, hentry,
          Expiring.isAlive, hlater, Option.filter]
    · rw [if_neg hsid] at hentry
      rw [sidTarget_congr t hentry, h.sids t ht]
      cases hother : record.sid with
      | none => rfl
      | some other =>
        have hne : sid ≠ other := fun heq => hsid (heq ▸ hother)
        exact (ExpiringMap.lookup_put_of_ne _ _ _ _ hne).symm

/-- A removal of ids by the store and one by the tables, where they mean the same live records. -/
theorem Tells.remove (h : Tells r now l) {gone : String → Prop} (erased : String → Prop)
    (hsession : ∀ id, (erased id → r'.entries (.session id) = none) ∧
      (¬erased id → r'.entries (.session id) = r.entries (.session id)))
    (hsid : ∀ sid, ((∃ id, erased id ∧ Carries r now sid id) → r'.entries (.sid sid) = none) ∧
      ((¬∃ id, erased id ∧ Carries r now sid id) →
        r'.entries (.sid sid) = r.entries (.sid sid)))
    (hlive : ∀ id record, r.fetch now id = some record → (erased id ↔ gone id)) :
    Tells r' now (l.remove now gone) where
  sessions := by
    intro t ht id
    rw [Logins.lookup_sessions_remove, ← h.sessions t ht]
    cases hnow : r.fetch now id with
    | some record =>
      by_cases hgone : erased id
      · rw [Redis.fetch_of_entries_none ((hsession id).1 hgone), if_pos ((hlive _ _ hnow).mp hgone)]
      · rw [Redis.fetch_congr ((hsession id).2 hgone), if_neg (mt (hlive _ _ hnow).mpr hgone)]
    | none =>
      -- what has lapsed is not read again, removed or not
      have hlapsed : r.fetch t id = none := by
        rw [h.sessions t ht]
        have hnow' := (h.sessions now (Int.le_refl _) id).symm.trans hnow
        exact ExpiringMap.lookup_none_of_later ht hnow'
      rw [hlapsed, ite_self]
      by_cases hgone : erased id
      · exact Redis.fetch_of_entries_none ((hsession id).1 hgone)
      · rw [Redis.fetch_congr ((hsession id).2 hgone), hlapsed]
  sids := by
    intro t ht sid
    have hsame : (∃ id, erased id ∧ Carries r now sid id) ↔
        ∃ id, gone id ∧ (l.sessions.lookup now id).bind (·.sid) = some sid := by
      refine exists_congr fun id => ?_
      rw [← h.sessions now (Int.le_refl _) id]
      refine and_congr_left fun hcarries => ?_
      have ⟨record, hf, _⟩ := Option.bind_eq_some_iff.mp hcarries
      exact hlive id record hf
    rw [Logins.lookup_sids_remove]
    by_cases hgone : ∃ id, erased id ∧ Carries r now sid id
    · rw [sidTarget_of_entries_none t ((hsid sid).1 hgone), if_pos (hsame.mp hgone)]
    · rw [sidTarget_congr t ((hsid sid).2 hgone), h.sids t ht, if_neg (mt hsame.mpr hgone)]

theorem Tells.destroyRecord (h : Tells r now l) (id : String) :
    Tells (destroyRecord r now id).2 now (l.remove now (· = id)) := by
  refine h.remove (· = id) (fun id' => ?_) (fun sid => ?_) fun _ _ _ => Iff.rfl
  · rw [destroyRecord_session]
    exact ⟨fun hid => if_pos hid, fun hid => if_neg hid⟩
  · rw [exists_eq_left, destroyRecord_sid]
    exact ⟨fun hc => if_pos hc, fun hc => if_neg hc⟩

theorem Tells.delSid (h : Tells r now l) (sid : String) :
    Tells (r.del (.sid sid)) now { l with sids := l.sids.erase sid } where
  sessions := by
    intro t ht id
    rw [Redis.fetch_congr (del_entries_of_ne r (by simp))]
    exact h.sessions t ht id
  sids := by
    intro t ht other
    by_cases hsid : other = sid
    · subst hsid
      rw [sidTarget_of_entries_none t (by simp [Redis.del])]
      simp [ExpiringMap.lookup, ExpiringMap.alive]
    · rw [sidTarget_congr t (del_entries_of_ne r (by simpa using hsid)), h.sids t ht]
      exact (ExpiringMap.lookup_erase_of_ne _ _ hsid).symm

/-- The index of the subject leads to just the sessions that a look through all of them finds. -/
theorem Tells.revokeBySubject (h : Tells r now l) (hindexed : Indexed st subOf r now)
    (sub : String) : Tells (revokeBySubject r now sub).2 now
      (l.remove now fun id => (l.sessions.lookup now id).any (·.user.sub = sub)) := by
  refine h.remove (· ∈ r.smembers now (.sub sub)) (fun id => ?_) (fun sid => ?_) ?_
  · rw [ValkeySessionStore.revokeBySubject, revokeMembers_session]
    exact ⟨fun hid => if_pos hid, fun hid => if_neg hid⟩
  · rw [ValkeySessionStore.revokeBySubject, revokeMembers_sid]
    exact ⟨fun hc => if_pos hc, fun hc => if_neg hc⟩
  · intro id record hf
    obtain ⟨_, hsub, hmem⟩ := hindexed.fetch_sub hf
    rw [← h.sessions now (Int.le_refl _) id, hf, Option.any_some, decide_eq_true_eq]
    constructor
    · exact fun hin => hsub.trans (hindexed.smembers_owned hin)
    · exact fun heq => heq ▸ hsub ▸ hmem

/-! ## Histories -/

theorem Tells.step {s : Redis × Int} (h : Tells s.1 s.2 l) (hindexed : Indexed st subOf s.1 s.2)
    (event : Event) :
    Tells (st.stepEvent s event).1 (st.stepEvent s event).2 (Logins.step st (l, s.2) event).1 ∧
      (Logins.step st (l, s.2) event).2 = (st.stepEvent s event).2 := by
  cases event with
  | write session random => exact ⟨h.write _ _, rfl⟩
  | destroy ref =>
    simp only [stepEvent, ValkeySessionStore.destroy, Logins.step]
    cases st.refToId ref with
    | none => exact ⟨h, rfl⟩
    | some id => exact ⟨h.destroyRecord id, rfl⟩
  | revokeBySid sid =>
    simp only [stepEvent, ValkeySessionStore.revokeBySid, Logins.step,
      ← h.sids s.2 (Int.le_refl _)]
    cases sidTarget s.1 s.2 sid with
    | none => exact ⟨h, rfl⟩
    | some id => exact ⟨(h.destroyRecord id).delSid sid, rfl⟩
  | revokeBySubject sub => exact ⟨h.revokeBySubject hindexed sub, rfl⟩
  | advance milliseconds =>
    have hlater : ∀ t, s.2 + (milliseconds : Int) ≤ t → s.2 ≤ t := fun t ht => by omega
    exact ⟨⟨fun t ht => h.sessions t (hlater t ht), fun t ht => h.sids t (hlater t ht)⟩, rfl⟩

/-- After every history the store reads each reference, and finds the session of each sid, as the
two tables do. -/
theorem read_replay_eq (st : ValkeySessionStore) (start : Int) (subOf : String → String)
    (history : List Event) (hwrites : WritesUnder subOf history) :
    let (r, now) := st.replay start history
    let (logins, clock) := Logins.replay st start history
    clock = now ∧ (∀ ref, st.read r now ref = (st.refToId ref).bind (logins.sessions.lookup now)) ∧
      ∀ sid, sidTarget r now sid = logins.sids.lookup now sid := by
  have htells : Tells (st.replay start history).1 (st.replay start history).2
      (Logins.replay st start history).1 ∧
      (Logins.replay st start history).2 = (st.replay start history).2 := by
    -- on the last event, which acts on what the earlier ones left
    induction history using List.reverseRecOn with
    | nil => exact ⟨⟨fun _ _ _ => rfl, fun _ _ _ => rfl⟩, rfl⟩
    | append_singleton history event ih =>
      have hbefore : WritesUnder subOf history := fun session random hmem =>
        hwrites session random (List.mem_append_left _ hmem)
      have ⟨hstore, hclock⟩ := ih hbefore
      have hlogins : Logins.replay st start (history ++ [event]) =
          Logins.step st ((Logins.replay st start history).1, (st.replay start history).2)
            event := by
        rw [← hclock]
        simp [Logins.replay]
      rw [replay_append, hlogins]
      exact hstore.step (indexed_replay hbefore) event
  have hself := Int.le_refl (st.replay start history).2
  refine ⟨htells.2, fun ref => ?_, htells.1.sids _ hself⟩
  exact congrArg (st.refToId ref).bind (funext (htells.1.sessions _ hself))

theorem read_replay_eq_login :
    let history := [Event.write (login "a") "", .advance 60000]
    marked.read (marked.replay 0 history).1 (marked.replay 0 history).2 (marked.idToRef "a") =
      (Logins.replay marked 0 history).1.sessions.lookup (marked.replay 0 history).2 "a" := by
  intro history
  have hwrites : WritesUnder (fun _ => "alice") history := by
    intro session random hmem
    simp only [history, List.mem_cons, Event.write.injEq, List.not_mem_nil, reduceCtorEq,
      or_false] at hmem
    rw [hmem.1]
    rfl
  have hread := (read_replay_eq marked 0 (fun _ => "alice") history hwrites).2.1
  exact (hread (marked.idToRef "a")).trans (by rw [marked.refToId_idToRef]; rfl)

end ValkeySessionStore

end Wallow.Bff
