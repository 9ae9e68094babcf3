import Wallow.Bff.Redis
import Mathlib.Data.List.Nodup

/-!
# `ValkeySessionStore`

The operations of `store/valkey.ts`.  Each one reads first and then issues a fixed list of
updates, so `write` and `destroyRecord` are given as command lists: a sequential call runs the
list at one clock reading, an interleaved one runs it command by command.
-/

namespace Wallow.Bff

/-- The updating calls of `RedisLike` whose reply the store ignores. -/
inductive Cmd where
  | set (key : Key) (value : Value) (ex : Option Int)
  | del (key : Key)
  | sadd (key : Key) (member : String)
  | srem (key : Key) (member : String)
  | expire (key : Key) (seconds : Int)
  deriving DecidableEq

namespace Redis

def apply (now : Int) (r : Redis) : Cmd → Redis
  | .set key value ex => (r.set now key value ex false).2
  | .del key => r.del key
  | .sadd key member => r.sadd now key member
  | .srem key member => r.srem now key member
  | .expire key seconds => r.expire now key seconds

def applyAll (now : Int) (r : Redis) (cmds : List Cmd) : Redis :=
  cmds.foldl (apply now) r

@[simp] theorem applyAll_nil (now : Int) (r : Redis) : r.applyAll now [] = r := rfl

@[simp] theorem applyAll_cons (now : Int) (r : Redis) (c : Cmd) (cmds : List Cmd) :
    r.applyAll now (c :: cmds) = (r.apply now c).applyAll now cmds := rfl

/-- The session record at `id`: `GET`, then `JSON.parse`. -/
def fetch (r : Redis) (now : Int) (id : String) : Option BffSession :=
  (r.get now (.session id)).bind Value.parse

end Redis

/-- The store's settings, and the sealing of a session id into a cookie reference.  `refToId` is
`none` for a reference no key of the store unseals. -/
structure ValkeySessionStore where
  ttlSeconds : Int
  lockTtlSeconds : Int
  idToRef : String → String
  refToId : String → Option String
  refToId_idToRef : ∀ id, refToId (idToRef id) = some id

namespace ValkeySessionStore

/-- A store of half an hour whose seal is a marker character, for concrete runs. -/
def marked : ValkeySessionStore where
  ttlSeconds := 1800
  lockTtlSeconds := 30
  idToRef id := String.ofList ('*' :: id.toList)
  refToId ref := match ref.toList with
    | '*' :: id => some (String.ofList id)
    | _ => none
  refToId_idToRef id := by simp

variable (st : ValkeySessionStore)

/-- `session.sessionId || randomUrlSafe(SESSION_ID_BYTES)`. -/
def recordId (session : BffSession) (random : String) : String :=
  if session.sessionId = "" then random else session.sessionId

/-- The calls of `write` for the record stored at `id`. -/
def writeCommands (id : String) (record : BffSession) : List Cmd :=
  let ttl := some st.ttlSeconds
  .set (.session id) (.json record) ttl
    :: (match record.sid with
        | none => []
        | some sid => [.set (.sid sid) (.text id) ttl])
    ++ [.sadd (.sub record.user.sub) id, .expire (.sub record.user.sub) st.ttlSeconds]

/-- The calls of `destroyRecord` after its `GET` answered `record`. -/
def destroyCommands (id : String) (record : Option BffSession) : List Cmd :=
  .del (.session id)
    :: match record with
      | none => []
      | some record =>
        (match record.sid with
          | none => []
          | some sid => [.del (.sid sid)])
        ++ [.srem (.sub record.user.sub) id]

def read (r : Redis) (now : Int) (ref : String) : Option BffSession :=
  (st.refToId ref).bind (r.fetch now)

def write (r : Redis) (now : Int) (session : BffSession) (random : String) : String × Redis :=
  let id := recordId session random
  (st.idToRef id, r.applyAll now (st.writeCommands id { session with sessionId := id }))

def destroyRecord (r : Redis) (now : Int) (id : String) : Option BffSession × Redis :=
  let record := r.fetch now id
  (record, r.applyAll now (destroyCommands id record))

def destroy (r : Redis) (now : Int) (ref : String) : Redis :=
  match st.refToId ref with
  | none => r
  | some id => (destroyRecord r now id).2

/-- The id the sid index holds. -/
def sidTarget (r : Redis) (now : Int) (sid : String) : Option String :=
  match r.get now (.sid sid) with
  | some (.text id) => some id
  | _ => none

def revokeBySid (r : Redis) (now : Int) (sid : String) : List BffSession × Redis :=
  match sidTarget r now sid with
  | none => ([], r)
  | some id =>
    let destroyed := destroyRecord r now id
    (destroyed.1.toList, destroyed.2.del (.sid sid))

/-- One member of `revokeBySubject`'s `Promise.all`: a stale member is pruned. -/
def revokeMember (sub : String) (now : Int) (r : Redis) (id : String) :
    Option BffSession × Redis :=
  let destroyed := destroyRecord r now id
  match destroyed.1 with
  | none => (none, destroyed.2.srem now (.sub sub) id)
  | some record => (some record, destroyed.2)

/-- The members are processed in turn: their calls overlap in the source, but they are about
different records and different members, so no order of them shows in the result. -/
def revokeMembers (sub : String) (now : Int) : Redis → List String → List BffSession × Redis
  | r, [] => ([], r)
  | r, id :: ids =>
    let revoked := revokeMember sub now r id
    let rest := revokeMembers sub now revoked.2 ids
    (revoked.1.toList ++ rest.1, rest.2)

def revokeBySubject (r : Redis) (now : Int) (sub : String) : List BffSession × Redis :=
  revokeMembers sub now r (r.smembers now (.sub sub))

end ValkeySessionStore

/-! ## What each call changes -/

/-- The key a command is about. -/
def Cmd.key : Cmd → Key
  | .set key _ _ => key
  | .del key => key
  | .sadd key _ => key
  | .srem key _ => key
  | .expire key _ => key

namespace Redis

variable {r : Redis} {now : Int} {k : Key}

theorem apply_entries_of_ne (r : Redis) (now : Int) {c : Cmd} (h : k ≠ c.key) :
    (r.apply now c).entries k = r.entries k := by
  cases c with
  | set key value ex =>
    replace h : k ≠ key := h
    simp [apply, set, ExpiringMap.put_of_ne _ _ _ h]
  | del key =>
    replace h : k ≠ key := h
    simp [apply, del, ExpiringMap.erase_of_ne _ h]
  | sadd key member => rfl
  | srem key member =>
    simp only [apply, srem]
    split
    · rfl
    · split <;> rfl
  | expire key seconds =>
    replace h : k ≠ key := h
    cases hal : r.entries.alive now key with
    | none => simp [apply, expire, hal]
    | some entry => simp [apply, expire, hal, ExpiringMap.put_of_ne _ _ _ h]

theorem apply_sets_of_ne (r : Redis) (now : Int) {c : Cmd} (h : k ≠ c.key) :
    (r.apply now c).sets k = r.sets k := by
  cases c with
  | set key value ex => simp [apply, set]
  | del key =>
    replace h : k ≠ key := h
    simp [apply, del, ExpiringMap.erase_of_ne _ h]
  | sadd key member =>
    replace h : k ≠ key := h
    simp [apply, sadd, ExpiringMap.put_of_ne _ _ _ h]
  | srem key member =>
    replace h : k ≠ key := h
    simp only [apply, srem]
    split
    · rfl
    · split
      · exact ExpiringMap.erase_of_ne _ h
      · exact ExpiringMap.put_of_ne _ _ _ h
  | expire key seconds =>
    replace h : k ≠ key := h
    cases hal : r.sets.alive now key with
    | none => simp [apply, expire, hal]
    | some entry => simp [apply, expire, hal, ExpiringMap.put_of_ne _ _ _ h]

theorem applyAll_entries_of_ne {cmds : List Cmd} (h : ∀ c ∈ cmds, k ≠ c.key) :
    (r.applyAll now cmds).entries k = r.entries k := by
  induction cmds generalizing r with
  | nil => rfl
  | cons c cmds ih =>
    rw [applyAll_cons, ih (fun c' hc => h c' (List.mem_cons_of_mem _ hc)),
      apply_entries_of_ne _ _ (h c List.mem_cons_self)]

theorem set_sets (r : Redis) (now : Int) (key : Key) (value : Value) (ex : Option Int)
    (nx : Bool) : (r.set now key value ex nx).2.sets = r.sets := by
  unfold set
  split <;> rfl

theorem smembers_congr {r' : Redis} (h : r'.sets k = r.sets k) :
    r'.smembers now k = r.smembers now k := by
  simp [smembers, ExpiringMap.lookup, ExpiringMap.alive, h]

theorem fetch_congr {r' : Redis} {id : String}
    (h : r'.entries (.session id) = r.entries (.session id)) :
    r'.fetch now id = r.fetch now id := by
  simp [fetch, get, ExpiringMap.lookup, ExpiringMap.alive, h]

theorem fetch_eq_some_iff {id : String} {record : BffSession} :
    r.fetch now id = some record ↔
      ∃ e, r.entries (.session id) = some e ∧ e.isAlive now = true ∧
        e.value = .json record := by
  constructor
  · intro h
    obtain ⟨v, hv, hp⟩ := Option.bind_eq_some_iff.mp h
    obtain ⟨e, he, ha, rfl⟩ := ExpiringMap.lookup_eq_some_iff.mp hv
    refine ⟨e, he, ha, ?_⟩
    cases hval : e.value with
    | json record' => simpa [hval, Value.parse] using hp
    | text s => simp [hval, Value.parse] at hp
  · rintro ⟨e, he, ha, hv⟩
    refine Option.bind_eq_some_iff.mpr ⟨.json record, ?_, rfl⟩
    exact ExpiringMap.lookup_eq_some_iff.mpr ⟨e, he, ha, hv⟩

theorem fetch_of_entries_none {id : String} (h : r.entries (.session id) = none) :
    r.fetch now id = none := by
  simp [fetch, get, ExpiringMap.lookup, ExpiringMap.alive, h]

/-- `member` is in the set at `k`, which lapses at `until_`. -/
def HasMember (r : Redis) (k : Key) (member : String) (until_ : Int) : Prop :=
  ∃ s, r.sets k = some s ∧ s.expiresAt = some until_ ∧ member ∈ s.value

theorem HasMember.congr {r' : Redis} {member : String} {until_ : Int}
    (h : r.HasMember k member until_) (hs : r'.sets k = r.sets k) :
    r'.HasMember k member until_ := by
  obtain ⟨s, hk, he, hm⟩ := h
  exact ⟨s, hs.trans hk, he, hm⟩

theorem HasMember.mem_smembers {member : String} {until_ : Int}
    (h : r.HasMember k member until_) (hlt : now < until_) : member ∈ r.smembers now k := by
  obtain ⟨s, hk, he, hm⟩ := h
  have ha : s.isAlive now = true := by simpa [Expiring.isAlive, he] using hlt
  have hl : r.sets.lookup now k = some s.value :=
    ExpiringMap.lookup_eq_some_iff.mpr ⟨s, hk, ha, rfl⟩
  simpa [smembers, hl] using hm

/-- Removing another member keeps the set, this member and the expiry. -/
theorem HasMember.srem {member other : String} {until_ : Int} {key : Key}
    (h : r.HasMember k member until_) (hne : member ≠ other) :
    (r.srem now key other).HasMember k member until_ := by
  by_cases hk : k = key
  · subst hk
    obtain ⟨s, hs, he, hm⟩ := h
    simp only [Redis.srem]
    split
    · exact ⟨s, hs, he, hm⟩
    · rename_i entry halive
      obtain ⟨hs', -⟩ := ExpiringMap.alive_eq_some_iff.mp halive
      cases hs.symm.trans hs'
      have hmem : member ∈ s.value.filter (· ≠ other) := by simp [hm, hne]
      have hnonempty : ¬ (s.value.filter (· ≠ other)).isEmpty = true := by
        intro hnil
        rw [List.isEmpty_iff.mp hnil] at hmem
        simp at hmem
      rw [if_neg hnonempty]
      exact ⟨_, ExpiringMap.put_self _ _ _ _, he, hmem⟩
  · exact h.congr (apply_sets_of_ne _ _ (c := .srem key other) hk)

def insertMember (members : List String) (member : String) : List String :=
  if member ∈ members then members else members ++ [member]

theorem mem_insertMember {members : List String} {x member : String} :
    x ∈ insertMember members member ↔ x ∈ members ∨ x = member := by
  unfold insertMember
  split
  · rename_i hm
    constructor
    · exact Or.inl
    · rintro (h | rfl)
      · exact h
      · exact hm
  · simp

theorem nodup_insertMember {members : List String} (member : String) (h : members.Nodup) :
    (insertMember members member).Nodup := by
  unfold insertMember
  split
  · exact h
  · rename_i hm
    simp only [List.nodup_append, List.nodup_singleton, List.mem_singleton, true_and, h]
    rintro a ha _ rfl rfl
    exact hm ha

/-- `SADD` followed by `EXPIRE`: the live members, the new one, and a fresh expiry. -/
theorem sadd_expire_sets (r : Redis) (now : Int) (key : Key) (member : String) (seconds : Int) :
    ((r.sadd now key member).expire now key seconds).sets key =
      some ⟨insertMember (r.smembers now key) member, some (now + seconds * MS_PER_SECOND)⟩ := by
  cases hal : r.sets.alive now key with
  | none =>
    have hsm : r.smembers now key = [] := by simp [smembers, ExpiringMap.lookup, hal]
    have hset : (r.sadd now key member).sets.alive now key = some ⟨[member], none⟩ := by
      refine ExpiringMap.alive_eq_some_iff.mpr ⟨?_, rfl⟩
      simp [sadd, hal]
    simp [expire, hset, hsm, insertMember]
  | some e =>
    obtain ⟨hk, ha⟩ := ExpiringMap.alive_eq_some_iff.mp hal
    have hsm : r.smembers now key = e.value := by simp [smembers, ExpiringMap.lookup, hal]
    have hset : (r.sadd now key member).sets.alive now key =
        some ⟨insertMember e.value member, e.expiresAt⟩ := by
      refine ExpiringMap.alive_eq_some_iff.mpr ⟨?_, ?_⟩
      · simp [sadd, hal, insertMember]
      · simpa [Expiring.isAlive] using ha
    simp [expire, hset, hsm]

end Redis

namespace ValkeySessionStore

variable {r : Redis} {now : Int}

/-- Of `writeCommands`, only the first touches a session record. -/
theorem writeCommands_session (st : ValkeySessionStore) (id : String) (record : BffSession)
    (id' : String) :
    (r.applyAll now (st.writeCommands id record)).entries (.session id') =
      if id' = id then
        some ⟨.json record, some (now + st.ttlSeconds * MS_PER_SECOND)⟩
      else r.entries (.session id') := by
  unfold writeCommands
  rw [List.cons_append, Redis.applyAll_cons, Redis.applyAll_entries_of_ne]
  · by_cases h : id' = id
    · subst h
      simp [Redis.apply, Redis.set, Redis.expiry]
    · rw [if_neg h]
      exact Redis.apply_entries_of_ne _ _ (by simpa [Cmd.key] using h)
  · cases record.sid <;> simp [Cmd.key]

/-- A write refreshes the subject's index and adds the id to it; the others are untouched. -/
theorem writeCommands_sub (st : ValkeySessionStore) (id : String) (record : BffSession)
    (sub : String) :
    (r.applyAll now (st.writeCommands id record)).sets (.sub sub) =
      if sub = record.user.sub then
        some ⟨Redis.insertMember (r.smembers now (.sub sub)) id,
          some (now + st.ttlSeconds * MS_PER_SECOND)⟩
      else r.sets (.sub sub) := by
  obtain ⟨r', hcmds, hsets⟩ : ∃ r' : Redis, r.applyAll now (st.writeCommands id record) =
      (r'.sadd now (.sub record.user.sub) id).expire now (.sub record.user.sub) st.ttlSeconds ∧
      r'.sets = r.sets := by
    unfold writeCommands
    cases record.sid with
    | none => exact ⟨_, rfl, Redis.set_sets ..⟩
    | some sid => exact ⟨_, rfl, (Redis.set_sets ..).trans (Redis.set_sets ..)⟩
  rw [hcmds]
  by_cases h : sub = record.user.sub
  · subst h
    rw [if_pos rfl, Redis.sadd_expire_sets, Redis.smembers_congr (congrFun hsets _)]
  · have hk : Key.sub sub ≠ Key.sub record.user.sub := by simpa using h
    have hexpire := Redis.apply_sets_of_ne (r'.sadd now (.sub record.user.sub) id) now
      (c := .expire (.sub record.user.sub) st.ttlSeconds) hk
    have hsadd := Redis.apply_sets_of_ne r' now
      (c := .sadd (.sub record.user.sub) id) hk
    rw [if_neg h]
    exact hexpire.trans (hsadd.trans (by rw [hsets]))

/-- `destroyRecord` removes exactly the record at `id`. -/
theorem destroyRecord_session (r : Redis) (now : Int) (id id' : String) :
    (destroyRecord r now id).2.entries (.session id') =
      if id' = id then none else r.entries (.session id') := by
  simp only [destroyRecord, destroyCommands]
  rw [Redis.applyAll_cons, Redis.applyAll_entries_of_ne]
  · by_cases h : id' = id
    · subst h
      simp [Redis.apply, Redis.del]
    · rw [if_neg h]
      exact Redis.apply_entries_of_ne _ _ (by simpa [Cmd.key] using h)
  · cases r.fetch now id with
    | none => simp
    | some record => cases hs : record.sid <;> simp [Cmd.key, hs]

end ValkeySessionStore

end Wallow.Bff
