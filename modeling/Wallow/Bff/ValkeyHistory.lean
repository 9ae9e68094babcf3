import Wallow.Bff.ValkeyStore
import Mathlib.Data.List.Induction

/-!
# Sequential histories of a `ValkeySessionStore`

Completeness of back-channel logout: whatever was written, destroyed and revoked before, and
however the clock moved between the calls, `revokeBySubject` finds every readable record.
-/

namespace Wallow.Bff

/-! ## Sets that only shrink -/

namespace Redis

/-- Every set of `r'` is a set of `r` with some members taken out. -/
def SetsShrink (r r' : Redis) : Prop :=
  ∀ k e', r'.sets k = some e' → ∃ e, r.sets k = some e ∧ e'.value.Sublist e.value

theorem SetsShrink.refl (r : Redis) : SetsShrink r r :=
  fun _ e h => ⟨e, h, List.Sublist.refl _⟩

theorem SetsShrink.trans {r r' r'' : Redis} (h : SetsShrink r r') (h' : SetsShrink r' r'') :
    SetsShrink r r'' := by
  intro k e'' he''
  obtain ⟨e', he', hsub'⟩ := h' k e'' he''
  obtain ⟨e, he, hsub⟩ := h k e' he'
  exact ⟨e, he, hsub'.trans hsub⟩

theorem setsShrink_del (r : Redis) (key : Key) : SetsShrink r (r.del key) := by
  intro k e' he'
  by_cases hk : k = key
  · subst hk
    simp [del] at he'
  · have hsets : (r.del key).sets k = r.sets k := ExpiringMap.erase_of_ne _ hk
    exact ⟨e', hsets ▸ he', List.Sublist.refl _⟩

theorem setsShrink_srem (r : Redis) (now : Int) (key : Key) (member : String) :
    SetsShrink r (r.srem now key member) := by
  intro k e' he'
  by_cases hk : k = key
  · subst hk
    unfold srem at he'
    split at he'
    · exact ⟨e', he', List.Sublist.refl _⟩
    · rename_i e halive
      obtain ⟨hs, -⟩ := ExpiringMap.alive_eq_some_iff.mp halive
      dsimp only at he'
      split at he'
      · simp at he'
      · simp only [ExpiringMap.put_self, Option.some.injEq] at he'
        subst he'
        exact ⟨e, hs, List.filter_sublist⟩
  · have hsets : (r.srem now key member).sets k = r.sets k :=
      apply_sets_of_ne _ _ (c := .srem key member) hk
    exact ⟨e', hsets ▸ he', List.Sublist.refl _⟩

/-- A removal that leaves `member` in the set at `k`. -/
def Spares (k : Key) (member : String) : Cmd → Prop
  | .del key => k ≠ key
  | .srem _ other => member ≠ other
  | _ => False

theorem applyAll_hasMember {r : Redis} {now until_ : Int} {k : Key} {member : String}
    {cmds : List Cmd} (hc : ∀ c ∈ cmds, Spares k member c) (h : r.HasMember k member until_) :
    (r.applyAll now cmds).HasMember k member until_ := by
  induction cmds generalizing r with
  | nil => exact h
  | cons c cmds ih =>
    refine ih (fun c' hc' => hc c' (List.mem_cons_of_mem _ hc')) ?_
    have hspares := hc c List.mem_cons_self
    cases c with
    | del key => exact h.congr (ExpiringMap.erase_of_ne _ hspares)
    | srem key other => exact h.srem hspares
    | set key value ex => exact hspares.elim
    | sadd key other => exact hspares.elim
    | expire key seconds => exact hspares.elim

end Redis

namespace ValkeySessionStore

variable {r : Redis} {now : Int} {sub : String}

theorem destroyRecord_setsShrink (r : Redis) (now : Int) (id : String) :
    r.SetsShrink (destroyRecord r now id).2 := by
  simp only [destroyRecord, destroyCommands]
  have hdel := Redis.setsShrink_del r (.session id)
  cases r.fetch now id with
  | none => exact hdel
  | some record =>
    cases hs : record.sid with
    | none =>
      simp only [hs, List.nil_append, Redis.applyAll_cons, Redis.applyAll_nil]
      exact hdel.trans (Redis.setsShrink_srem _ _ _ _)
    | some sid =>
      simp only [hs, List.singleton_append, Redis.applyAll_cons, Redis.applyAll_nil]
      exact (hdel.trans (Redis.setsShrink_del _ _)).trans (Redis.setsShrink_srem _ _ _ _)

/-- Destroying one record leaves the other ids in every subject's index. -/
theorem destroyRecord_hasMember (now : Int) {id id' : String} {until_ : Int} (hne : id' ≠ id)
    (h : r.HasMember (.sub sub) id' until_) :
    (destroyRecord r now id).2.HasMember (.sub sub) id' until_ := by
  refine Redis.applyAll_hasMember ?_ h
  unfold destroyCommands
  cases r.fetch now id with
  | none => simp [Redis.Spares]
  | some record => cases hs : record.sid <;> simp [Redis.Spares, hs, hne]

/-- One member of `revokeBySubject` removes exactly the record at its id. -/
theorem revokeMember_session (id id' : String) :
    (revokeMember sub now r id).2.entries (.session id') =
      if id' = id then none else r.entries (.session id') := by
  rw [← destroyRecord_session r now id id']
  simp only [revokeMember]
  split
  · exact Redis.apply_entries_of_ne _ _ (c := .srem (.sub sub) id) (by simp [Cmd.key])
  · rfl

theorem revokeMember_hasMember {id id' s : String} {until_ : Int} (hne : id' ≠ id)
    (h : r.HasMember (.sub s) id' until_) :
    (revokeMember sub now r id).2.HasMember (.sub s) id' until_ := by
  have hdestroyed := destroyRecord_hasMember now hne h
  simp only [revokeMember]
  split
  · exact hdestroyed.srem hne
  · exact hdestroyed

theorem revokeMember_setsShrink (id : String) :
    r.SetsShrink (revokeMember sub now r id).2 := by
  have hdestroyed := destroyRecord_setsShrink r now id
  simp only [revokeMember]
  split
  · exact hdestroyed.trans (Redis.setsShrink_srem _ _ _ _)
  · exact hdestroyed

theorem revokeMember_fst (id : String) : (revokeMember sub now r id).1 = r.fetch now id := by
  have hfst : (destroyRecord r now id).1 = r.fetch now id := rfl
  rw [← hfst]
  simp only [revokeMember]
  split <;> simp_all

theorem revokeMembers_session (ids : List String) (id' : String) :
    (revokeMembers sub now r ids).2.entries (.session id') =
      if id' ∈ ids then none else r.entries (.session id') := by
  -- on the members left to revoke; each leaves a smaller store behind
  induction ids generalizing r with
  | nil => simp [revokeMembers]
  | cons id ids ih =>
    simp only [revokeMembers]
    rw [ih, revokeMember_session]
    by_cases h : id' = id <;> by_cases h' : id' ∈ ids <;> simp [h, h']

/-- `revokeBySubject` answers the records its members led to before the call. -/
theorem revokeMembers_fst {ids : List String} (hnodup : ids.Nodup) :
    (revokeMembers sub now r ids).1 = ids.filterMap (r.fetch now) := by
  -- a member revoked earlier is another record, so the later reads are those of the first store
  induction ids generalizing r with
  | nil => rfl
  | cons id ids ih =>
    obtain ⟨hid, hids⟩ := List.nodup_cons.mp hnodup
    have hsame : ids.filterMap ((revokeMember sub now r id).2.fetch now) =
        ids.filterMap (r.fetch now) := by
      refine List.filterMap_congr fun id' hmem => Redis.fetch_congr ?_
      have hne : id' ≠ id := fun heq => hid (heq ▸ hmem)
      rw [revokeMember_session, if_neg hne]
    simp only [revokeMembers]
    rw [ih hids, hsame, revokeMember_fst]
    cases hf : r.fetch now id <;> simp [hf]

/-! ## Histories -/

/-- One call on the store, or time passing between two calls. -/
inductive Event where
  | write (session : BffSession) (random : String)
  | destroy (ref : String)
  | revokeBySid (sid : String)
  | revokeBySubject (sub : String)
  | advance (milliseconds : Nat)

def stepEvent (st : ValkeySessionStore) (s : Redis × Int) : Event → Redis × Int
  | .write session random => ((st.write s.1 s.2 session random).2, s.2)
  | .destroy ref => (st.destroy s.1 s.2 ref, s.2)
  | .revokeBySid sid => ((revokeBySid s.1 s.2 sid).2, s.2)
  | .revokeBySubject sub => ((revokeBySubject s.1 s.2 sub).2, s.2)
  | .advance milliseconds => (s.1, s.2 + milliseconds)

/-- The store and the clock after a history that starts with an empty store at `start`. -/
def replay (st : ValkeySessionStore) (start : Int) (history : List Event) : Redis × Int :=
  history.foldl st.stepEvent (Redis.empty, start)

/-- Each session id is only ever written with one subject. -/
def WritesUnder (subOf : String → String) (history : List Event) : Prop :=
  ∀ session random, Event.write session random ∈ history →
    session.user.sub = subOf (recordId session random)

/-- The index invariant: a live record's id is in its subject's index, and the index outlives the
record; the indexes hold no id twice and no id of another subject. -/
structure Indexed (st : ValkeySessionStore) (subOf : String → String) (r : Redis) (now : Int) :
    Prop where
  live : ∀ id e, r.entries (.session id) = some e → e.isAlive now = true →
    ∃ record at_, e = ⟨.json record, some at_⟩ ∧ record.sessionId = id ∧
      record.user.sub = subOf id ∧ at_ ≤ now + st.ttlSeconds * MS_PER_SECOND ∧
      ∃ until_, at_ ≤ until_ ∧ r.HasMember (.sub (subOf id)) id until_
  nodup : ∀ s e, r.sets (.sub s) = some e → e.value.Nodup
  owned : ∀ s e, r.sets (.sub s) = some e → ∀ id ∈ e.value, subOf id = s

variable {st : ValkeySessionStore} {subOf : String → String}

theorem indexed_empty : Indexed st subOf Redis.empty now where
  live _ _ h := by cases h
  nodup _ _ h := by cases h
  owned _ _ h := by cases h

theorem Indexed.advance (h : Indexed st subOf r now) (milliseconds : Nat) :
    Indexed st subOf r (now + milliseconds) where
  live id e he ha := by
    have hle : now ≤ now + (milliseconds : Int) := by omega
    obtain ⟨record, at_, rfl, hid, hsub, hat, hmem⟩ :=
      h.live id e he (Expiring.isAlive_anti hle ha)
    exact ⟨record, at_, rfl, hid, hsub, by omega, hmem⟩
  nodup := h.nodup
  owned := h.owned

theorem Indexed.smembers_nodup (h : Indexed st subOf r now) (s : String) :
    (r.smembers now (.sub s)).Nodup := by
  unfold Redis.smembers
  cases hl : r.sets.lookup now (.sub s) with
  | none => exact List.nodup_nil
  | some members =>
    obtain ⟨e, he, -, rfl⟩ := ExpiringMap.lookup_eq_some_iff.mp hl
    exact h.nodup s e he

theorem Indexed.smembers_owned (h : Indexed st subOf r now) {s id : String}
    (hmem : id ∈ r.smembers now (.sub s)) : subOf id = s := by
  unfold Redis.smembers at hmem
  cases hl : r.sets.lookup now (.sub s) with
  | none => simp [hl] at hmem
  | some members =>
    rw [hl] at hmem
    obtain ⟨e, he, -, rfl⟩ := ExpiringMap.lookup_eq_some_iff.mp hl
    exact h.owned s e he id hmem

theorem Indexed.write (h : Indexed st subOf r now) {id : String} {record : BffSession}
    (hid : record.sessionId = id) (hsub : record.user.sub = subOf id) :
    Indexed st subOf (r.applyAll now (st.writeCommands id record)) now where
  live id' e he ha := by
    rw [writeCommands_session] at he
    by_cases heq : id' = id
    · subst heq
      rw [if_pos rfl, Option.some.injEq] at he
      subst he
      refine ⟨record, _, rfl, hid, hsub, le_refl _, _, le_refl _, ?_⟩
      refine ⟨_, (writeCommands_sub ..).trans (if_pos hsub.symm), rfl, ?_⟩
      exact Redis.mem_insertMember.mpr (Or.inr rfl)
    · rw [if_neg heq] at he
      obtain ⟨record', at_, rfl, hid', hsub', hat, until_, hle, hmem⟩ := h.live id' e he ha
      refine ⟨record', at_, rfl, hid', hsub', hat, ?_⟩
      by_cases hs : subOf id' = record.user.sub
      · -- the shared index was refreshed: its new expiry is not before this record's
        have hnow : now < until_ := by
          simp only [Expiring.isAlive, decide_eq_true_eq] at ha
          omega
        refine ⟨_, hat, _, (writeCommands_sub ..).trans (if_pos hs), rfl, ?_⟩
        exact Redis.mem_insertMember.mpr (Or.inl (hmem.mem_smembers hnow))
      · exact ⟨until_, hle, hmem.congr ((writeCommands_sub ..).trans (if_neg hs))⟩
  nodup s e he := by
    -- the record's own index gained an id, the others are as they were
    rw [writeCommands_sub] at he
    split at he
    · cases he
      exact Redis.nodup_insertMember _ (h.smembers_nodup s)
    · exact h.nodup s e he
  owned s e he id' hmem := by
    rw [writeCommands_sub] at he
    split at he
    · rename_i hs
      cases he
      cases Redis.mem_insertMember.mp hmem with
      | inl hold => exact h.smembers_owned hold
      | inr hnew => rw [hnew, ← hsub, hs]
    · exact h.owned s e he id' hmem

/-- A removal keeps the invariant as long as the records it leaves keep their index entries. -/
theorem Indexed.remove (h : Indexed st subOf r now) {r' : Redis}
    (hkept : ∀ id e, r'.entries (.session id) = some e → r.entries (.session id) = some e ∧
      ∀ s until_, r.HasMember (.sub s) id until_ → r'.HasMember (.sub s) id until_)
    (hshrink : r.SetsShrink r') : Indexed st subOf r' now where
  live id e he ha := by
    obtain ⟨he, hmember⟩ := hkept id e he
    obtain ⟨record, at_, rfl, hid, hsub, hat, until_, hle, hmem⟩ := h.live id e he ha
    exact ⟨record, at_, rfl, hid, hsub, hat, until_, hle, hmember _ _ hmem⟩
  -- the index left is a sublist of the index that was there
  nodup s e' he' := by
    obtain ⟨e, he, hsub⟩ := hshrink _ e' he'
    exact hsub.nodup (h.nodup s e he)
  owned s e' he' id' hmem := by
    obtain ⟨e, he, hsub⟩ := hshrink _ e' he'
    exact h.owned s e he id' (hsub.subset hmem)

theorem Indexed.destroyRecord (h : Indexed st subOf r now) (id : String) :
    Indexed st subOf (destroyRecord r now id).2 now := by
  refine h.remove (fun id' e he => ?_) (destroyRecord_setsShrink r now id)
  rw [destroyRecord_session] at he
  split at he
  · cases he
  · rename_i hne
    exact ⟨he, fun _ _ => destroyRecord_hasMember now hne⟩

theorem Indexed.delSid (h : Indexed st subOf r now) (sid : String) :
    Indexed st subOf (r.del (.sid sid)) now := by
  refine h.remove (fun id e he => ⟨?_, fun s until_ hmem => ?_⟩) (Redis.setsShrink_del r _)
  · rwa [← Redis.apply_entries_of_ne r now (c := .del (.sid sid)) (by simp [Cmd.key])]
  · exact hmem.congr (Redis.apply_sets_of_ne r now (c := .del (.sid sid)) (by simp [Cmd.key]))

theorem Indexed.revokeMember (h : Indexed st subOf r now) (id : String) :
    Indexed st subOf (revokeMember sub now r id).2 now := by
  refine h.remove (fun id' e he => ?_) (revokeMember_setsShrink id)
  rw [revokeMember_session] at he
  split at he
  · cases he
  · rename_i hne
    exact ⟨he, fun _ _ => revokeMember_hasMember hne⟩

theorem Indexed.revokeMembers (h : Indexed st subOf r now) (ids : List String) :
    Indexed st subOf (revokeMembers sub now r ids).2 now := by
  induction ids generalizing r with
  | nil => exact h
  | cons id ids ih => exact ih (h.revokeMember id)

/-- Every event keeps the index invariant. -/
theorem Indexed.stepEvent {s : Redis × Int} (h : Indexed st subOf s.1 s.2) {event : Event}
    (hwrite : ∀ session random, event = .write session random →
      session.user.sub = subOf (recordId session random)) :
    Indexed st subOf (st.stepEvent s event).1 (st.stepEvent s event).2 := by
  cases event with
  | write session random => exact h.write rfl (hwrite session random rfl)
  | destroy ref =>
    simp only [ValkeySessionStore.stepEvent, destroy]
    cases st.refToId ref with
    | none => exact h
    | some id => exact h.destroyRecord id
  | revokeBySid sid =>
    simp only [ValkeySessionStore.stepEvent, revokeBySid]
    cases sidTarget s.1 s.2 sid with
    | none => exact h
    | some id => exact (h.destroyRecord id).delSid sid
  | revokeBySubject sub => exact h.revokeMembers _
  | advance milliseconds => exact h.advance milliseconds

theorem replay_append (st : ValkeySessionStore) (start : Int) (history : List Event)
    (event : Event) :
    st.replay start (history ++ [event]) = st.stepEvent (st.replay start history) event := by
  simp [replay]

/-- The index invariant holds after every history. -/
theorem indexed_replay {start : Int} {history : List Event} (h : WritesUnder subOf history) :
    Indexed st subOf (st.replay start history).1 (st.replay start history).2 := by
  -- on the last event, which acts on the store the earlier ones left
  induction history using List.reverseRecOn with
  | nil => exact indexed_empty
  | append_singleton history event ih =>
    rw [replay_append]
    refine (ih fun session random hmem => h session random ?_).stepEvent ?_
    · exact List.mem_append_left _ hmem
    · rintro session random rfl
      exact h session random (by simp)

/-! ## Completeness of `revokeBySubject` -/

theorem Indexed.fetch_sub (h : Indexed st subOf r now) {id : String} {record : BffSession}
    (hf : r.fetch now id = some record) :
    record.sessionId = id ∧ record.user.sub = subOf id ∧ id ∈ r.smembers now (.sub (subOf id)) := by
  obtain ⟨e, he, ha, hv⟩ := Redis.fetch_eq_some_iff.mp hf
  obtain ⟨record', at_, rfl, hid, hsub, -, until_, hle, hmem⟩ := h.live id e he ha
  cases hv
  have hnow : now < until_ := by
    simp only [Expiring.isAlive, decide_eq_true_eq] at ha
    omega
  exact ⟨hid, hsub, hmem.mem_smembers hnow⟩

theorem Indexed.mem_revokeBySubject (h : Indexed st subOf r now) {record : BffSession} :
    record ∈ (revokeBySubject r now sub).1 ↔
      ∃ id, r.fetch now id = some record ∧ record.user.sub = sub := by
  unfold revokeBySubject
  rw [revokeMembers_fst (h.smembers_nodup sub), List.mem_filterMap]
  constructor
  · rintro ⟨id, hmem, hf⟩
    exact ⟨id, hf, (h.fetch_sub hf).2.1.trans (h.smembers_owned hmem)⟩
  · rintro ⟨id, hf, rfl⟩
    obtain ⟨-, hsub, hmem⟩ := h.fetch_sub hf
    exact ⟨id, hsub ▸ hmem, hf⟩

theorem Indexed.nodup_revokeBySubject (h : Indexed st subOf r now) :
    (revokeBySubject r now sub).1.Nodup := by
  unfold revokeBySubject
  rw [revokeMembers_fst (h.smembers_nodup sub)]
  refine List.Nodup.filterMap ?_ (h.smembers_nodup sub)
  intro id id' record hf hf'
  rw [← (h.fetch_sub hf).1, ← (h.fetch_sub hf').1]

theorem Indexed.fetch_revokeBySubject (h : Indexed st subOf r now) {id : String}
    {record : BffSession} (hf : (revokeBySubject r now sub).2.fetch now id = some record) :
    record.user.sub ≠ sub := by
  rintro rfl
  obtain ⟨e, he, ha, hv⟩ := Redis.fetch_eq_some_iff.mp hf
  unfold revokeBySubject at he
  rw [revokeMembers_session] at he
  split at he
  · cases he
  · rename_i hmem
    obtain ⟨-, hsub, hin⟩ := h.fetch_sub (Redis.fetch_eq_some_iff.mpr ⟨e, he, ha, hv⟩)
    exact hmem (hsub ▸ hin)

/-- A readable record is a record at some id: every id has its sealed reference. -/
theorem exists_read_iff (st : ValkeySessionStore) {record : BffSession} :
    (∃ ref, st.read r now ref = some record) ↔ ∃ id, r.fetch now id = some record := by
  -- every id has its sealed reference
  constructor
  · rintro ⟨ref, h⟩
    obtain ⟨id, -, hf⟩ := Option.bind_eq_some_iff.mp h
    exact ⟨id, hf⟩
  · rintro ⟨id, hf⟩
    exact ⟨st.idToRef id, by simp [read, st.refToId_idToRef, hf]⟩

/-- After any history, a live record is in its subject's live index, and `revokeBySubject` answers
exactly the readable records of the subject, each once, and leaves none of them readable. -/
theorem revokeBySubject_complete (st : ValkeySessionStore) (start : Int) (subOf : String → String)
    (history : List Event) (hwrites : WritesUnder subOf history) :
    let r := (st.replay start history).1
    let now := (st.replay start history).2
    (∀ id record, r.fetch now id = some record →
      id ∈ r.smembers now (.sub record.user.sub)) ∧
    ∀ sub,
      (∀ ref record, st.read (revokeBySubject r now sub).2 now ref = some record →
        record.user.sub ≠ sub) ∧
      (∀ record, record ∈ (revokeBySubject r now sub).1 ↔
        (∃ ref, st.read r now ref = some record) ∧ record.user.sub = sub) ∧
      (revokeBySubject r now sub).1.Nodup := by
  intro r now
  have hinv : Indexed st subOf r now := indexed_replay hwrites
  refine ⟨fun id record hf => ?_, fun sub => ⟨fun ref record hread => ?_, fun record => ?_, ?_⟩⟩
  · obtain ⟨-, hsub, hmem⟩ := hinv.fetch_sub hf
    exact hsub ▸ hmem
  · obtain ⟨id, hf⟩ := (exists_read_iff st).mp ⟨ref, hread⟩
    exact hinv.fetch_revokeBySubject hf
  · rw [hinv.mem_revokeBySubject, exists_read_iff, exists_and_right]
  · exact hinv.nodup_revokeBySubject

/-- Two logins of one subject, the second twenty minutes after the first. -/
def login (id : String) : BffSession where
  sessionId := id
  accessToken := "access"
  refreshToken := some "refresh"
  idToken := none
  expiresAt := 0
  user := ⟨"alice"⟩
  sid := some id
  version := 1
  csrfToken := none

def twoLogins : List Event :=
  [.write (login "a") "", .advance 1200000, .write (login "b") ""]

theorem revokeBySubject_complete_twoLogins :
    login "a" ∈ (revokeBySubject (marked.replay 0 twoLogins).1
      (marked.replay 0 twoLogins).2 "alice").1 := by
  have hwrites : WritesUnder (fun _ => "alice") twoLogins := by
    intro session random hmem
    simp only [twoLogins, List.mem_cons, Event.write.injEq, List.not_mem_nil, reduceCtorEq] at hmem
    obtain ⟨rfl, -⟩ | hfalse | ⟨rfl, -⟩ | hfalse := hmem
    · rfl
    · exact hfalse.elim
    · rfl
    · exact hfalse.elim
  have hcomplete := revokeBySubject_complete marked 0 (fun _ => "alice") twoLogins hwrites
  exact ((hcomplete.2 "alice").2.1 (login "a")).mpr ⟨⟨marked.idToRef "a", by decide +kernel⟩, rfl⟩

end ValkeySessionStore

end Wallow.Bff
