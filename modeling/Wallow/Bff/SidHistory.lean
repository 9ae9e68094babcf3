import Wallow.Bff.ValkeyHistory

/-!
# The sid index over sequential histories

`write` points the index entry of its sid at the written id.  `destroyRecord` deletes the entry of
the sid its record carries without asking which id the entry points at, so removing an older
session of a sid takes the newer one out of reach of `revokeBySid`.
-/

namespace Wallow.Bff

namespace ValkeySessionStore

variable {st : ValkeySessionStore} {r : Redis} {now : Int} {id sid : String}

/-! ## What each call does to the entry of a sid -/

theorem del_entries_of_ne (r : Redis) {k key : Key} (h : k ≠ key) :
    (r.del key).entries k = r.entries k :=
  ExpiringMap.erase_of_ne _ h

/-- The record stored live at `id` carries `sid`. -/
def Carries (r : Redis) (now : Int) (sid id : String) : Prop :=
  (r.fetch now id).bind (·.sid) = some sid

instance (r : Redis) (now : Int) (sid id : String) : Decidable (Carries r now sid id) :=
  inferInstanceAs (Decidable (_ = _))

theorem Carries.congr {r' : Redis} (h : r'.entries (.session id) = r.entries (.session id)) :
    Carries r' now sid id ↔ Carries r now sid id := by
  rw [Carries, Carries, Redis.fetch_congr h]

theorem writeCommands_sid (st : ValkeySessionStore) (r : Redis) (now : Int) (id : String)
    (record : BffSession) (sid : String) :
    (r.applyAll now (st.writeCommands id record)).entries (.sid sid) =
      if record.sid = some sid then
        some ⟨.text id, some (now + st.ttlSeconds * MS_PER_SECOND)⟩
      else r.entries (.sid sid) := by
  by_cases h : record.sid = some sid
  · rw [if_pos h]
    unfold writeCommands
    rw [h]
    -- the two calls after the `SET` of the index are about the subject's set
    have hrest : ∀ c ∈ [Cmd.sadd (.sub record.user.sub) id,
        Cmd.expire (.sub record.user.sub) st.ttlSeconds], Key.sid sid ≠ c.key := by
      simp [Cmd.key]
    simp only [List.cons_append, List.nil_append]
    rw [Redis.applyAll_cons, Redis.applyAll_cons, Redis.applyAll_entries_of_ne hrest]
    simp [Redis.apply, Redis.set, Redis.expiry]
  · rw [if_neg h]
    refine Redis.applyAll_entries_of_ne ?_
    unfold writeCommands
    cases hs : record.sid with
    | none => simp [Cmd.key]
    | some other =>
      have hne : sid ≠ other := fun heq => h (heq ▸ hs)
      simp [Cmd.key, hne]

theorem destroyRecord_sid (r : Redis) (now : Int) (id sid : String) :
    (destroyRecord r now id).2.entries (.sid sid) =
      if Carries r now sid id then none else r.entries (.sid sid) := by
  have hcmds : (destroyRecord r now id).2 = r.applyAll now (destroyCommands id (r.fetch now id)) :=
    rfl
  rw [hcmds]
  by_cases h : Carries r now sid id
  · obtain ⟨record, hf, hsid⟩ := Option.bind_eq_some_iff.mp h
    have hlast : ∀ c ∈ [Cmd.srem (.sub record.user.sub) id], Key.sid sid ≠ c.key := by
      simp [Cmd.key]
    rw [if_pos h, hf, destroyCommands, hsid]
    simp only [List.cons_append, List.nil_append]
    rw [Redis.applyAll_cons, Redis.applyAll_cons, Redis.applyAll_entries_of_ne hlast]
    simp [Redis.apply, Redis.del]
  · rw [if_neg h]
    refine Redis.applyAll_entries_of_ne ?_
    unfold destroyCommands
    cases hf : r.fetch now id with
    | none => simp [Cmd.key]
    | some record =>
      cases hs : record.sid with
      | none => simp [Cmd.key, hs]
      | some other =>
        have hne : sid ≠ other := by
          rintro rfl
          exact h (Option.bind_eq_some_iff.mpr ⟨record, hf, hs⟩)
        simp [Cmd.key, hs, hne]

theorem revokeMember_sid (sub : String) (r : Redis) (now : Int) (id sid : String) :
    (revokeMember sub now r id).2.entries (.sid sid) =
      if Carries r now sid id then none else r.entries (.sid sid) := by
  rw [← destroyRecord_sid]
  simp only [revokeMember]
  split
  · exact Redis.apply_entries_of_ne _ now (c := .srem (.sub sub) id) (by simp [Cmd.key])
  · rfl

theorem revokeMembers_sid (sub : String) (r : Redis) (now : Int) (ids : List String)
    (sid : String) :
    (revokeMembers sub now r ids).2.entries (.sid sid) =
      if ∃ id ∈ ids, Carries r now sid id then none else r.entries (.sid sid) := by
  induction ids generalizing r with
  | nil => simp [revokeMembers]
  | cons id ids ih =>
    simp only [revokeMembers]
    rw [ih, revokeMember_sid]
    by_cases hid : Carries r now sid id
    · simp [hid]
    · -- what another member carries does not change when `id` goes
      have hsame : (∃ id' ∈ ids, Carries (revokeMember sub now r id).2 now sid id') ↔
          ∃ id' ∈ ids, Carries r now sid id' := by
        refine exists_congr fun id' => and_congr_right fun _ => ?_
        by_cases heq : id' = id
        · subst heq
          have hgone : (revokeMember sub now r id').2.fetch now id' = none := by
            refine Redis.fetch_of_entries_none ?_
            rw [revokeMember_session, if_pos rfl]
          simp [Carries, hgone]
          exact hid
        · refine Carries.congr ?_
          rw [revokeMember_session, if_neg heq]
      simp [hid, hsame]

/-! ## One session and the entry of its sid -/

/-- The ids whose records an event removes. -/
def removals (st : ValkeySessionStore) (s : Redis × Int) : Event → List String
  | .destroy ref => (st.refToId ref).toList
  | .revokeBySid sid => (sidTarget s.1 s.2 sid).toList
  | .revokeBySubject sub => s.1.smembers s.2 (.sub sub)
  | .write _ _ => []
  | .advance _ => []

/-- The event removes the live record of another id that carries `sid`. -/
def Disturbs (st : ValkeySessionStore) (id sid : String) (s : Redis × Int) (event : Event) : Prop :=
  ∃ other ∈ st.removals s event, other ≠ id ∧ Carries s.1 s.2 sid other

instance (st : ValkeySessionStore) (id sid : String) (s : Redis × Int) (event : Event) :
    Decidable (Disturbs st id sid s event) :=
  inferInstanceAs (Decidable (∃ other ∈ _, _))

/-- No event of the history disturbs the entry of `sid`, from the state each is taken in. -/
def Undisturbed (st : ValkeySessionStore) (id sid : String) : Redis × Int → List Event → Prop
  | _, [] => True
  | s, event :: events =>
    ¬ Disturbs st id sid s event ∧ Undisturbed st id sid (st.stepEvent s event) events

/-- `id` holds no record of `sid`. -/
def Gone (id sid : String) (s : Redis × Int) : Prop :=
  ∀ e record, s.1.entries (.session id) = some e → e.value = .json record →
    record.sid ≠ some sid

theorem gone_of_none {s : Redis × Int} (h : s.1.entries (.session id) = none) : Gone id sid s := by
  intro e record he
  rw [h] at he
  cases he

/-- The record `e` is still the one at `id`; the entry of `sid` still points at it, unless it was
deleted. -/
structure Held (id sid : String) (e : Expiring Value) (s : Redis × Int) : Prop where
  record : s.1.entries (.session id) = some e
  index : s.1.entries (.sid sid) = none ∨ s.1.entries (.sid sid) = some ⟨.text id, e.expiresAt⟩

theorem Held.sidTarget {e : Expiring Value} {s : Redis × Int} (h : Held id sid e s) :
    sidTarget s.1 s.2 sid = none ∨ sidTarget s.1 s.2 sid = some id := by
  unfold ValkeySessionStore.sidTarget
  cases hg : s.1.get s.2 (.sid sid) with
  | none => exact Or.inl rfl
  | some v =>
    obtain ⟨e', he', -, hv⟩ := ExpiringMap.lookup_eq_some_iff.mp hg
    cases h.index with
    | inl hnone =>
      rw [hnone] at he'
      cases he'
    | inr hsome =>
      rw [hsome, Option.some.injEq] at he'
      subst he'
      rw [← hv]
      exact Or.inr rfl

theorem Gone.stepEvent {s : Redis × Int} {event : Event} (h : Gone id sid s)
    (hwrite : ∀ session random, event = .write session random → session.sid ≠ some sid) :
    Gone id sid (st.stepEvent s event) := by
  -- a removal leaves the record where it is or takes it away
  have hshrink : ∀ r' : Redis, r'.entries (.session id) = none ∨
      r'.entries (.session id) = s.1.entries (.session id) → Gone id sid (r', s.2) := by
    rintro r' (hnone | hsame)
    · exact gone_of_none hnone
    · intro e record he
      exact h e record (hsame ▸ he)
  have hdestroy : ∀ other, (destroyRecord s.1 s.2 other).2.entries (.session id) = none ∨
      (destroyRecord s.1 s.2 other).2.entries (.session id) = s.1.entries (.session id) := by
    intro other
    rw [destroyRecord_session]
    split
    · exact Or.inl rfl
    · exact Or.inr rfl
  cases event with
  | write session random =>
    intro e record he hv
    simp only [ValkeySessionStore.stepEvent, ValkeySessionStore.write] at he
    rw [writeCommands_session] at he
    split at he
    · cases he
      cases hv
      exact hwrite session random rfl
    · exact h e record he hv
  | destroy ref =>
    simp only [ValkeySessionStore.stepEvent, destroy]
    cases st.refToId ref with
    | none => exact h
    | some other => exact hshrink _ (hdestroy other)
  | revokeBySid sid' =>
    simp only [ValkeySessionStore.stepEvent, ValkeySessionStore.revokeBySid]
    cases ValkeySessionStore.sidTarget s.1 s.2 sid' with
    | none => exact h
    | some other =>
      refine hshrink _ ?_
      rw [del_entries_of_ne _ (by simp)]
      exact hdestroy other
  | revokeBySubject sub =>
    refine hshrink _ ?_
    rw [ValkeySessionStore.revokeBySubject, revokeMembers_session]
    split
    · exact Or.inl rfl
    · exact Or.inr rfl
  | advance milliseconds => exact h

/-- What a held record's event can do: take the record away, or keep it and delete the entry of
its sid exactly when another record of that sid is removed. -/
theorem Held.stepEvent (st : ValkeySessionStore) {e : Expiring Value} {s : Redis × Int}
    {event : Event} (h : Held id sid e s)
    (hwrite : ∀ session random, event = .write session random → session.sid ≠ some sid) :
    Gone id sid (st.stepEvent s event) ∨
      Held id sid e (st.stepEvent s event) ∧
        (st.stepEvent s event).1.entries (.sid sid) =
          if Disturbs st id sid s event then none else s.1.entries (.sid sid) := by
  -- it is enough to say where the two entries stand after the event
  have hkeep : ∀ s' : Redis × Int, s'.1.entries (.session id) = s.1.entries (.session id) →
      s'.1.entries (.sid sid) =
        (if Disturbs st id sid s event then none else s.1.entries (.sid sid)) →
      Held id sid e s' ∧ s'.1.entries (.sid sid) =
        if Disturbs st id sid s event then none else s.1.entries (.sid sid) := by
    intro s' hrecord hindex
    refine ⟨⟨hrecord.trans h.record, ?_⟩, hindex⟩
    rw [hindex]
    split
    · exact Or.inl rfl
    · exact h.index
  cases event with
  | write session random =>
    have hno : ¬ Disturbs st id sid s (.write session random) := by simp [Disturbs, removals]
    by_cases heq : id = recordId session random
    · refine Or.inl fun e' record he' hv => ?_
      simp only [ValkeySessionStore.stepEvent, ValkeySessionStore.write] at he'
      rw [writeCommands_session, if_pos heq, Option.some.injEq] at he'
      subst he'
      cases hv
      exact hwrite session random rfl
    · refine Or.inr (hkeep _ ?_ ?_)
      · simp only [ValkeySessionStore.stepEvent, ValkeySessionStore.write]
        rw [writeCommands_session, if_neg heq]
      · rw [if_neg hno]
        simp only [ValkeySessionStore.stepEvent, ValkeySessionStore.write]
        rw [writeCommands_sid, if_neg (hwrite session random rfl)]
  | destroy ref =>
    simp only [ValkeySessionStore.stepEvent, destroy]
    cases href : st.refToId ref with
    | none =>
      have hno : ¬ Disturbs st id sid s (.destroy ref) := by simp [Disturbs, removals, href]
      exact Or.inr (hkeep _ rfl (if_neg hno).symm)
    | some other =>
      by_cases heq : id = other
      · exact Or.inl (gone_of_none (by rw [destroyRecord_session, if_pos heq]))
      · have hiff : Disturbs st id sid s (.destroy ref) ↔ Carries s.1 s.2 sid other := by
          simp [Disturbs, removals, href, Ne.symm heq]
        refine Or.inr (hkeep _ ?_ ?_)
        · rw [destroyRecord_session, if_neg heq]
        · rw [destroyRecord_sid]
          simp only [hiff]
  | revokeBySid sid' =>
    simp only [ValkeySessionStore.stepEvent, ValkeySessionStore.revokeBySid]
    cases ht : ValkeySessionStore.sidTarget s.1 s.2 sid' with
    | none =>
      have hno : ¬ Disturbs st id sid s (.revokeBySid sid') := by simp [Disturbs, removals, ht]
      exact Or.inr (hkeep _ rfl (if_neg hno).symm)
    | some other =>
      by_cases heq : id = other
      · refine Or.inl (gone_of_none ?_)
        rw [del_entries_of_ne _ (by simp), destroyRecord_session, if_pos heq]
      · have hsid : sid ≠ sid' := by
          -- the entry of `sid` never points at another id
          rintro rfl
          cases h.sidTarget with
          | inl hnone =>
            rw [hnone] at ht
            cases ht
          | inr hsome =>
            rw [hsome, Option.some.injEq] at ht
            exact heq ht
        have hiff : Disturbs st id sid s (.revokeBySid sid') ↔ Carries s.1 s.2 sid other := by
          simp [Disturbs, removals, ht, Ne.symm heq]
        refine Or.inr (hkeep _ ?_ ?_)
        · rw [del_entries_of_ne _ (by simp), destroyRecord_session, if_neg heq]
        · rw [del_entries_of_ne _ (by simpa using hsid), destroyRecord_sid]
          simp only [hiff]
  | revokeBySubject sub =>
    simp only [ValkeySessionStore.stepEvent, ValkeySessionStore.revokeBySubject]
    by_cases hmem : id ∈ s.1.smembers s.2 (.sub sub)
    · exact Or.inl (gone_of_none (by rw [revokeMembers_session, if_pos hmem]))
    · have hiff : Disturbs st id sid s (.revokeBySubject sub) ↔
          ∃ other ∈ s.1.smembers s.2 (.sub sub), Carries s.1 s.2 sid other := by
        refine exists_congr fun other => and_congr_right fun hin => ?_
        have hne : other ≠ id := fun heq => hmem (heq ▸ hin)
        simp [hne]
      refine Or.inr (hkeep _ ?_ ?_)
      · rw [revokeMembers_session, if_neg hmem]
      · rw [revokeMembers_sid]
        simp only [hiff]
  | advance milliseconds =>
    have hno : ¬ Disturbs st id sid s (.advance milliseconds) := by simp [Disturbs, removals]
    exact Or.inr (hkeep _ rfl (if_neg hno).symm)

/-- No event of a list writes a session under `sid`. -/
def NoWriteUnder (sid : String) (events : List Event) : Prop :=
  ∀ session random, Event.write session random ∈ events → session.sid ≠ some sid

theorem Gone.replayFrom {s : Redis × Int} {events : List Event} (h : Gone id sid s)
    (hwrites : NoWriteUnder sid events) : Gone id sid (events.foldl st.stepEvent s) := by
  induction events generalizing s with
  | nil => exact h
  | cons event events ih =>
    refine ih (h.stepEvent ?_) fun session random hmem => ?_
    · rintro session random rfl
      exact hwrites session random List.mem_cons_self
    · exact hwrites session random (List.mem_cons_of_mem _ hmem)

/-- Over a run with no write under `sid`, the entry of `sid` stands exactly as long as no event
disturbs it. -/
theorem Held.replayFrom (st : ValkeySessionStore) {e : Expiring Value} {s : Redis × Int}
    {events : List Event} (h : Held id sid e s) (hwrites : NoWriteUnder sid events) :
    Gone id sid (events.foldl st.stepEvent s) ∨
      Held id sid e (events.foldl st.stepEvent s) ∧
        ((events.foldl st.stepEvent s).1.entries (.sid sid) = some ⟨.text id, e.expiresAt⟩ ↔
          s.1.entries (.sid sid) = some ⟨.text id, e.expiresAt⟩ ∧
            Undisturbed st id sid s events) := by
  induction events generalizing s with
  | nil => exact Or.inr ⟨h, by simp [Undisturbed]⟩
  | cons event events ih =>
    have hrest : NoWriteUnder sid events := fun session random hmem =>
      hwrites session random (List.mem_cons_of_mem _ hmem)
    have hfirst : ∀ session random, event = .write session random → session.sid ≠ some sid := by
      rintro session random rfl
      exact hwrites session random List.mem_cons_self
    rw [List.foldl_cons]
    cases h.stepEvent st hfirst with
    | inl hgone => exact Or.inl (hgone.replayFrom hrest)
    | inr hstep =>
      obtain ⟨hheld, hindex⟩ := hstep
      cases ih hheld hrest with
      | inl hgone => exact Or.inl hgone
      | inr hrun =>
        refine Or.inr ⟨hrun.1, ?_⟩
        rw [hrun.2, hindex, Undisturbed]
        by_cases hd : Disturbs st id sid s event
        · simp [hd]
        · simp [hd]

/-- A session just written is held, and the entry of its sid points at it. -/
theorem held_write (st : ValkeySessionStore) (s : Redis × Int) {session : BffSession}
    (random : String) (hsid : session.sid = some sid) :
    let id := recordId session random
    let e : Expiring Value := ⟨.json { session with sessionId := id },
      some (s.2 + st.ttlSeconds * MS_PER_SECOND)⟩
    Held id sid e (st.stepEvent s (.write session random)) ∧
      (st.stepEvent s (.write session random)).1.entries (.sid sid) =
        some ⟨.text id, e.expiresAt⟩ := by
  intro id e
  have hrecord : (st.stepEvent s (.write session random)).1.entries (.session id) = some e := by
    simp only [ValkeySessionStore.stepEvent, ValkeySessionStore.write]
    rw [writeCommands_session, if_pos rfl]
  have hindex : (st.stepEvent s (.write session random)).1.entries (.sid sid) =
      some ⟨.text id, e.expiresAt⟩ := by
    simp only [ValkeySessionStore.stepEvent, ValkeySessionStore.write]
    rw [writeCommands_sid, if_pos hsid]
  exact ⟨⟨hrecord, Or.inr hindex⟩, hindex⟩

/-! ## Reachability by sid -/

/-- `revokeBySid` answers the record at `id` and removes it. -/
def RevokesBySid (s : Redis × Int) (sid id : String) (record : BffSession) : Prop :=
  (revokeBySid s.1 s.2 sid).1 = [record] ∧ (revokeBySid s.1 s.2 sid).2.fetch s.2 id = none

theorem revokesBySid_iff {s : Redis × Int} {record : BffSession} {e : Expiring Value}
    (hheld : Held id sid e s) (hf : s.1.fetch s.2 id = some record) :
    RevokesBySid s sid id record ↔ s.1.entries (.sid sid) = some ⟨.text id, e.expiresAt⟩ := by
  obtain ⟨e', he', ha, -⟩ := Redis.fetch_eq_some_iff.mp hf
  rw [hheld.record, Option.some.injEq] at he'
  subst he'
  constructor
  · intro h
    cases hheld.index with
    | inl hnone =>
      have ht : sidTarget s.1 s.2 sid = none := by
        simp [sidTarget, Redis.get, ExpiringMap.lookup, ExpiringMap.alive, hnone]
      have hanswer := h.1
      rw [revokeBySid, ht] at hanswer
      cases hanswer
    | inr hsome => exact hsome
  · intro hsome
    -- the entry and the record were written with one expiry, so the entry is live too
    have ht : sidTarget s.1 s.2 sid = some id := by
      have hl : s.1.entries.lookup s.2 (.sid sid) = some (.text id) :=
        ExpiringMap.lookup_eq_some_iff.mpr ⟨_, hsome, ha, rfl⟩
      simp [sidTarget, Redis.get, hl]
    unfold RevokesBySid
    rw [revokeBySid, ht]
    constructor
    · show (s.1.fetch s.2 id).toList = [record]
      rw [hf, Option.toList_some]
    · refine Redis.fetch_of_entries_none ?_
      show ((destroyRecord s.1 s.2 id).2.del (.sid sid)).entries (.session id) = none
      rw [del_entries_of_ne _ (by simp), destroyRecord_session, if_pos rfl]

/-- The session last written under `sid`, when it is still live, is found and removed by
`revokeBySid` exactly when nothing in between removed another live session of that sid. -/
theorem revokeBySid_finds_latest_iff (st : ValkeySessionStore) (start : Int)
    (before after : List Event) (session : BffSession) (random sid : String)
    (hsid : session.sid = some sid) (hlast : NoWriteUnder sid after) :
    let written := st.replay start (before ++ [.write session random])
    let s := st.replay start (before ++ .write session random :: after)
    let id := recordId session random
    ∀ record, s.1.fetch s.2 id = some record → record.sid = some sid →
      (RevokesBySid s sid id record ↔ Undisturbed st id sid written after) := by
  intro written s id record hf hcarries
  have hs : s = after.foldl st.stepEvent written := by
    simp [s, written, replay]
  have hwritten : written = st.stepEvent (st.replay start before) (.write session random) :=
    replay_append ..
  obtain ⟨hheld, hindex⟩ :=
    held_write st (st.replay start before) random hsid
  rw [← hwritten] at hheld hindex
  rw [hs] at hf ⊢
  cases hheld.replayFrom st hlast with
  | inl hgone =>
    obtain ⟨e, he, -, hv⟩ := Redis.fetch_eq_some_iff.mp hf
    exact absurd hcarries (hgone e record he hv)
  | inr hrun =>
    rw [revokesBySid_iff hrun.1 hf, hrun.2]
    exact and_iff_right hindex

/-- A session that shares its issuer sid with every other one. -/
def sharedSid (id : String) : BffSession :=
  { login id with sid := some "issuer" }

theorem revokeBySid_finds_latest_iff_afterRelogin :
    let s := marked.replay 0 [.write (sharedSid "a") "", .destroy (marked.idToRef "a"),
      .write (sharedSid "b") "", .advance 60000]
    RevokesBySid s "issuer" "b" (sharedSid "b") := by
  refine (revokeBySid_finds_latest_iff marked 0
    [.write (sharedSid "a") "", .destroy (marked.idToRef "a")] [.advance 60000] (sharedSid "b") ""
    "issuer" rfl ?_ (sharedSid "b") (by decide +kernel) rfl).mpr ?_
  · intro session random hmem
    simp at hmem
  · refine ⟨?_, trivial⟩
    simp [Disturbs, removals]

/-- A second login under the sid, then a logout from the first browser: the second session stays
live and no back-channel logout by sid reaches it. -/
theorem revokeBySid_misses_after_logout :
    let s := marked.replay 0 [.write (sharedSid "a") "", .write (sharedSid "b") "",
      .destroy (marked.idToRef "a")]
    s.1.fetch s.2 "b" = some (sharedSid "b") ∧ (revokeBySid s.1 s.2 "issuer").1 = [] ∧
      (revokeBySid s.1 s.2 "issuer").2.fetch s.2 "b" = some (sharedSid "b") := by
  decide +kernel

end ValkeySessionStore

end Wallow.Bff
