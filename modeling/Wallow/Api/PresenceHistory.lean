import Wallow.Api.Presence
import Wallow.Lib.Transition

/-!
# Presence over time

A history of calls of the presence service with time passing between them, beside what it was told:
which connections are tracked, under which tenant and user.
-/

namespace Wallow.Api

open Transition PresenceRedis

structure PresenceHistory where
  redis : PresenceRedis
  now : Int
  /-- The last `TrackConnection` of a connection that was not removed since. -/
  tracked : String → Option (TenantId × String)

inductive PresenceCall
  | trackConnection (tenantId : TenantId) (userId connectionId : String)
  | removeConnection (connectionId : String)
  | setPageContext (tenantId : TenantId) (connectionId pageContext : String)
  | tick (milliseconds : Nat)

namespace PresenceHistory

def step (s : PresenceHistory) : PresenceCall → Option PresenceHistory
  | .trackConnection tenantId userId connectionId => some
    { s with
      redis := s.redis.trackConnection s.now tenantId userId connectionId
      tracked := Function.update s.tracked connectionId (some (tenantId, userId)) }
  | .removeConnection connectionId => some
    { s with
      redis := s.redis.removeConnection s.now connectionId
      tracked := Function.update s.tracked connectionId none }
  | .setPageContext tenantId connectionId pageContext => some
    { s with redis := s.redis.setPageContext s.now tenantId connectionId pageContext }
  | .tick milliseconds => some { s with now := s.now + milliseconds }

def initial : PresenceHistory where
  redis := .empty
  now := 0
  tracked := fun _ => none

def isUserOnline (s : PresenceHistory) (tenantId : TenantId) (userId : String) : Bool :=
  s.redis.isUserOnline s.now tenantId userId

/-- What the service answers agrees with what it was told. -/
structure Truthful (s : PresenceHistory) : Prop where
  removed : ∀ connectionId, s.tracked connectionId = none → ∀ tenantId userId,
    ¬ Reports (s.redis.getOnlineUsers s.now tenantId) userId connectionId ∧
      ∀ pageContext,
        ¬ Reports (s.redis.getUsersOnPage s.now tenantId pageContext) userId connectionId
  online : ∀ connectionId tenantId userId,
    s.tracked connectionId = some (tenantId, userId) → s.isUserOnline tenantId userId = true
  agree : ∀ tenantId userId, s.isUserOnline tenantId userId = true ↔
    ∃ user ∈ s.redis.getOnlineUsers s.now tenantId, user.userId = userId

/-! ## The condition -/

/-- The tenant's hash has another connection of the user. -/
def hasOther (s : PresenceHistory) (tenantId : TenantId) (userId connectionId : String) : Bool :=
  s.redis.hashes.entries.any fun entry =>
    entry.key = .connectionToUser tenantId && entry.name ≠ connectionId && entry.value = userId

/-- The key that names the tenant of a removed connection is still there, the removal is not
stopped by an empty user, no other hash has the connection, and its user's set is not left with
stale members only. -/
def cleans (s : PresenceHistory) (connectionId : String) (tenantId : TenantId)
    (userId : String) : Bool :=
  (s.redis.stringGet s.now (.connectionTenant connectionId)).isSome && userId ≠ "" &&
    s.redis.hashes.entries.all (fun entry =>
      entry.name ≠ connectionId || entry.key = .connectionToUser tenantId) &&
    (s.hasOther tenantId userId connectionId ||
      (s.redis.setMembers s.now (.userConnections tenantId userId)).all (· = connectionId))

/-- A connection that the tenant's hash gives to another user is not that user's only one. -/
def movesFreely (s : PresenceHistory) (tenantId : TenantId) (userId connectionId : String) :
    Bool :=
  s.redis.hashes.entries.all fun entry =>
    entry.field ≠ (.connectionToUser tenantId, connectionId) || entry.value = userId ||
      s.hasOther tenantId entry.value connectionId

/-- No user's set lapses while the user has a connection. -/
def outlasts (s : PresenceHistory) (later : Int) : Bool :=
  s.redis.hashes.entries.all fun entry =>
    match entry.key with
    | .connectionToUser tenantId =>
      entry.name ∈ s.redis.setMembers later (.userConnections tenantId entry.value)
    | _ => true

def keepsPresence (s : PresenceHistory) : PresenceCall → Bool
  | .trackConnection tenantId userId connectionId => s.movesFreely tenantId userId connectionId
  | .removeConnection connectionId =>
    (s.tracked connectionId).all fun (tenantId, userId) => s.cleans connectionId tenantId userId
  | .setPageContext .. => true
  | .tick milliseconds => s.outlasts (s.now + milliseconds)

end PresenceHistory

/-! ## What each call leaves -/

namespace PresenceRedis

variable {r : PresenceRedis} {now : Int} {key : PresenceKey} {tenantId : TenantId}
  {userId connectionId member : String} {entry : HashEntry}

@[simp] theorem hashes_setAdd : (r.setAdd now key member).hashes = r.hashes := rfl

@[simp] theorem strings_setAdd : (r.setAdd now key member).strings = r.strings := rfl

@[simp] theorem hashes_keyExpire {ttl : Int} : (r.keyExpire now key ttl).hashes = r.hashes := by
  unfold keyExpire
  split <;> rfl

@[simp] theorem strings_keyExpire {ttl : Int} :
    (r.keyExpire now key ttl).strings = r.strings := by
  unfold keyExpire
  split <;> rfl

@[simp] theorem hashes_setRemove : (r.setRemove now key member).hashes = r.hashes := by
  unfold setRemove
  split
  · rfl
  · dsimp only
    split <;> rfl

@[simp] theorem strings_setRemove : (r.setRemove now key member).strings = r.strings := by
  unfold setRemove
  split
  · rfl
  · dsimp only
    split <;> rfl

theorem ttl_pos : 0 < connectionTtl := by decide

theorem mem_entries_trackConnection :
    entry ∈ (r.trackConnection now tenantId userId connectionId).hashes.entries ↔
      entry = ⟨.connectionToUser tenantId, connectionId, userId⟩ ∨
        entry ∈ r.hashes.entries ∧ entry.field ≠ (.connectionToUser tenantId, connectionId) := by
  simp only [trackConnection, stringSet, hashes_keyExpire, hashes_setAdd, hashSet]
  exact Hashes.mem_set

theorem mem_setMembers_trackConnection :
    member ∈ (r.trackConnection now tenantId userId connectionId).setMembers now key ↔
      member ∈ r.setMembers now key ∨
        (key = .userConnections tenantId userId ∧ member = connectionId) := by
  show member ∈ (((r.hashSet _ _ _).setAdd now _ _).keyExpire now _ _).setMembers now key ↔ _
  rw [setMembers_keyExpire ttl_pos, mem_setAdd]
  exact Iff.rfl

theorem stringGet_stringSet_self {value : String} {ttl : Int} (httl : 0 < ttl) :
    (r.stringSet now key value ttl).stringGet now key = some value := by
  refine ExpiringMap.lookup_eq_some_iff.mpr ⟨_, ExpiringMap.put_self _ _ _ _, ?_, rfl⟩
  simpa [Expiring.isAlive] using httl

theorem stringGet_stringSet_of_ne {key' : PresenceKey} {value : String} {ttl : Int}
    (h : key' ≠ key) : (r.stringSet now key value ttl).stringGet now key' = r.stringGet now key' :=
  ExpiringMap.lookup_put_of_ne _ _ _ _ h

theorem stringGet_keyDelete_self : (r.keyDelete key).stringGet now key = none :=
  ExpiringMap.lookup_erase_self _ _ _

theorem stringGet_keyDelete_of_ne {key' : PresenceKey} (h : key' ≠ key) :
    (r.keyDelete key).stringGet now key' = r.stringGet now key' :=
  ExpiringMap.lookup_erase_of_ne _ _ h

theorem stringGet_congr {r' : PresenceRedis} (h : r'.strings = r.strings) :
    r'.stringGet now key = r.stringGet now key := by
  rw [stringGet, h, stringGet]

theorem stringGet_trackConnection (other : String) :
    (r.trackConnection now tenantId userId connectionId).stringGet now (.connectionTenant other) =
      if other = connectionId then some tenantId.toString
      else r.stringGet now (.connectionTenant other) := by
  unfold trackConnection
  by_cases hother : other = connectionId
  · subst hother
    rw [if_pos rfl]
    exact stringGet_stringSet_self ttl_pos
  · have hkey : PresenceKey.connectionTenant other ≠ .connectionTenant connectionId := by
      simpa using hother
    rw [if_neg hother]
    refine (stringGet_stringSet_of_ne hkey).trans (stringGet_congr ?_)
    rw [strings_keyExpire, strings_setAdd, hashSet]

theorem toString_ne_empty (tenantId : TenantId) : tenantId.toString ≠ "" := by
  intro h
  have hlength := congrArg (·.toList.length) h
  simp at hlength

theorem parseTenant_toString (tenantId : TenantId) :
    parseTenant tenantId.toString = some tenantId := by
  rw [parseTenant, toList_toString, tryParse_chars]

/-- A connection whose tenant is not known any more is left alone. -/
theorem removeConnection_of_lapsed (h : r.stringGet now (.connectionTenant connectionId) = none) :
    r.removeConnection now connectionId = r := by
  simp only [removeConnection, h]

theorem removeConnection_of_emptyUser
    (htenant : r.stringGet now (.connectionTenant connectionId) = some tenantId.toString)
    (huser : r.hashGet (.connectionToUser tenantId) connectionId = some "") :
    r.removeConnection now connectionId = r := by
  simp only [removeConnection, htenant, toString_ne_empty, parseTenant_toString, huser, if_true,
    if_false]

theorem setMembers_setRemove_congr {r' : PresenceRedis} {key' : PresenceKey}
    (h : r'.sets = r.sets) :
    (r'.setRemove now key member).setMembers now key' =
      (r.setRemove now key member).setMembers now key' := by
  unfold setRemove setMembers
  rw [h]
  split
  · rw [h]
  · dsimp only
    split <;> rfl

section Removal

variable (htenant : r.stringGet now (.connectionTenant connectionId) = some tenantId.toString)
  (huser : r.hashGet (.connectionToUser tenantId) connectionId = some userId)
  (hne : userId ≠ "")

include htenant huser hne

/-- What a removal leaves, whether or not the connection was on a page. -/
theorem removeConnection_eq : ∃ r' : PresenceRedis,
    r.removeConnection now connectionId = r'.keyDelete (.connectionTenant connectionId) ∧
    r'.hashes = r.hashes.delete (.connectionToUser tenantId) connectionId ∧
    r'.strings = r.strings.erase (.connectionPage connectionId) ∧
    ∀ tenant user, r'.setMembers now (.userConnections tenant user) =
      (r.setRemove now (.userConnections tenantId userId) connectionId).setMembers now
        (.userConnections tenant user) := by
  simp only [removeConnection, htenant, toString_ne_empty, parseTenant_toString, huser, hne,
    if_false]
  refine ⟨_, rfl, ?_, ?_, fun tenant user => ?_⟩
  · split
    · exact hashes_setRemove
    · rw [hashes_setRemove]
      exact hashes_setRemove
  · split
    · simp only [keyDelete, strings_setRemove, hashDelete]
    · rw [strings_setRemove]
      simp only [keyDelete, strings_setRemove, hashDelete]
  · have hcommute : (((r.hashDelete (.connectionToUser tenantId) connectionId).setRemove now
          (.userConnections tenantId userId) connectionId).keyDelete
          (.connectionPage connectionId)).setMembers now (.userConnections tenant user) =
        (r.setRemove now (.userConnections tenantId userId) connectionId).setMembers now
          (.userConnections tenant user) := by
      show ((r.hashDelete _ _).setRemove now _ _).setMembers now _ = _
      exact setMembers_setRemove_congr rfl
    split
    · exact hcommute
    · rw [setMembers_setRemove_of_ne (by simp), hcommute]

theorem mem_entries_removeConnection :
    entry ∈ (r.removeConnection now connectionId).hashes.entries ↔
      entry ∈ r.hashes.entries ∧ entry.field ≠ (.connectionToUser tenantId, connectionId) := by
  obtain ⟨r', heq, hhashes, -, -⟩ := removeConnection_eq htenant huser hne
  rw [heq, keyDelete, hhashes, Hashes.mem_delete]

theorem mem_setMembers_removeConnection (tenant : TenantId) (user : String) :
    member ∈ (r.removeConnection now connectionId).setMembers now (.userConnections tenant user) ↔
      member ∈ r.setMembers now (.userConnections tenant user) ∧
        ¬ ((tenant = tenantId ∧ user = userId) ∧ member = connectionId) := by
  obtain ⟨r', heq, -, -, hmembers⟩ := removeConnection_eq htenant huser hne
  have hsame : (r'.keyDelete (.connectionTenant connectionId)).setMembers now
      (.userConnections tenant user) = r'.setMembers now (.userConnections tenant user) := rfl
  rw [heq, hsame, hmembers, mem_setRemove, PresenceKey.userConnections.injEq]

theorem stringGet_removeConnection (other : String) :
    (r.removeConnection now connectionId).stringGet now (.connectionTenant other) =
      if other = connectionId then none else r.stringGet now (.connectionTenant other) := by
  obtain ⟨r', heq, -, hstrings, -⟩ := removeConnection_eq htenant huser hne
  rw [heq]
  by_cases hother : other = connectionId
  · subst hother
    rw [if_pos rfl, stringGet_keyDelete_self]
  · rw [if_neg hother, stringGet_keyDelete_of_ne (by simpa using hother), stringGet, hstrings]
    exact ExpiringMap.lookup_erase_of_ne _ _ (by simp)

end Removal

/-- A page context concerns neither the hashes nor the users' sets. -/
theorem setPageContext_frame (pageContext : String) :
    (r.setPageContext now tenantId connectionId pageContext).hashes = r.hashes ∧
    (∀ tenant user,
      (r.setPageContext now tenantId connectionId pageContext).setMembers now
          (.userConnections tenant user) = r.setMembers now (.userConnections tenant user)) ∧
    ∀ other, (r.setPageContext now tenantId connectionId pageContext).stringGet now
        (.connectionTenant other) = r.stringGet now (.connectionTenant other) := by
  -- the old page is left first, where there is one
  have hleft : ∃ r' : PresenceRedis, (r.setPageContext now tenantId connectionId pageContext) =
      ((r'.stringSet now (.connectionPage connectionId) pageContext connectionTtl).setAdd now
        (.pageViewers tenantId pageContext) connectionId).keyExpire now
          (.pageViewers tenantId pageContext) connectionTtl ∧
      r'.hashes = r.hashes ∧ r'.strings = r.strings ∧
      ∀ tenant user, r'.setMembers now (.userConnections tenant user) =
        r.setMembers now (.userConnections tenant user) := by
    refine ⟨_, rfl, ?_, ?_, fun tenant user => ?_⟩
    · split
      · rfl
      · exact hashes_setRemove
    · split
      · rfl
      · exact strings_setRemove
    · split
      · rfl
      · exact setMembers_setRemove_of_ne (by simp)
  obtain ⟨r', heq, hhashes, hstrings, hmembers⟩ := hleft
  rw [heq]
  refine ⟨?_, fun tenant user => ?_, fun other => ?_⟩
  · rw [hashes_keyExpire, hashes_setAdd, stringSet, hhashes]
  · rw [setMembers_keyExpire ttl_pos, setAdd, setMembers_put_of_ne (by simp)]
    exact hmembers tenant user
  · have hget : (((r'.stringSet now (.connectionPage connectionId) pageContext
        connectionTtl).setAdd now (.pageViewers tenantId pageContext) connectionId).keyExpire now
          (.pageViewers tenantId pageContext) connectionTtl).stringGet now
            (.connectionTenant other) =
        (r'.stringSet now (.connectionPage connectionId) pageContext connectionTtl).stringGet now
          (.connectionTenant other) :=
      stringGet_congr (by rw [strings_keyExpire, strings_setAdd])
    rw [hget, stringGet_stringSet_of_ne (by simp)]
    exact stringGet_congr hstrings

end PresenceRedis

namespace PresenceHistory

variable {s s' : PresenceHistory}

/-- The entry of a connection in a tenant's hash. -/
abbrev Holds (s : PresenceHistory) (tenantId : TenantId) (userId connectionId : String) : Prop :=
  ⟨.connectionToUser tenantId, connectionId, userId⟩ ∈ s.redis.hashes.entries

abbrev members (s : PresenceHistory) (tenantId : TenantId) (userId : String) : List String :=
  s.redis.setMembers s.now (.userConnections tenantId userId)

/-- The keys of the service agree with each other and with what it was told. -/
structure Linked (s : PresenceHistory) : Prop where
  keys : ∀ entry ∈ s.redis.hashes.entries, ∃ tenantId, entry.key = .connectionToUser tenantId
  member : ∀ tenantId userId connectionId, s.Holds tenantId userId connectionId →
    connectionId ∈ s.members tenantId userId
  listed : ∀ tenantId userId connectionId, connectionId ∈ s.members tenantId userId →
    ∃ other, s.Holds tenantId userId other
  tracked : ∀ connectionId tenantId userId, s.tracked connectionId = some (tenantId, userId) →
    s.Holds tenantId userId connectionId
  untracked : ∀ connectionId, s.tracked connectionId = none → ∀ tenantId userId,
    ¬ s.Holds tenantId userId connectionId
  tenant : ∀ connectionId value,
    s.redis.stringGet s.now (.connectionTenant connectionId) = some value →
    ∃ tenantId userId, s.tracked connectionId = some (tenantId, userId) ∧
      value = tenantId.toString

theorem truthful_iff : Truthful s ↔
    (∀ connectionId, s.tracked connectionId = none → ∀ tenantId userId,
      ¬ s.Holds tenantId userId connectionId) ∧
    (∀ connectionId tenantId userId, s.tracked connectionId = some (tenantId, userId) →
      ∃ other, other ∈ s.members tenantId userId) ∧
    ∀ tenantId userId, (∃ other, other ∈ s.members tenantId userId) ↔
      ∃ other, s.Holds tenantId userId other := by
  constructor
  · intro h
    refine ⟨fun c hc tenantId userId hholds => ?_, fun c tenantId userId hc => ?_,
      fun tenantId userId => ?_⟩
    · exact (h.removed c hc tenantId userId).1 (reports_getOnlineUsers.mpr hholds)
    · exact isUserOnline_iff.mp (h.online c tenantId userId hc)
    · rw [← isUserOnline_iff, ← online_iff]
      exact h.agree tenantId userId
  · rintro ⟨hremoved, honline, hagree⟩
    refine ⟨fun c hc tenantId userId => ⟨fun hreports => ?_, fun pageContext hreports => ?_⟩,
      fun c tenantId userId hc => ?_, fun tenantId userId => ?_⟩
    · exact hremoved c hc tenantId userId (reports_getOnlineUsers.mp hreports)
    · exact hremoved c hc tenantId userId (reports_getUsersOnPage hreports)
    · exact isUserOnline_iff.mpr (honline c tenantId userId hc)
    · rw [isUserOnline, isUserOnline_iff, online_iff]
      exact hagree tenantId userId

theorem Linked.truthful (h : Linked s) : Truthful s := by
  refine truthful_iff.mpr ⟨h.untracked, fun c tenantId userId hc => ?_, fun tenantId userId => ?_⟩
  · exact ⟨c, h.member _ _ _ (h.tracked c tenantId userId hc)⟩
  · constructor
    · rintro ⟨c, hc⟩
      exact h.listed _ _ c hc
    · rintro ⟨c, hc⟩
      exact ⟨c, h.member _ _ c hc⟩

theorem linked_initial : Linked initial where
  keys := nofun
  member := nofun
  listed := nofun
  tracked := nofun
  untracked := nofun
  tenant := nofun

theorem hasOther_iff {tenantId : TenantId} {userId connectionId : String} :
    s.hasOther tenantId userId connectionId = true ↔
      ∃ other, other ≠ connectionId ∧ s.Holds tenantId userId other := by
  simp only [hasOther, List.any_eq_true, Bool.and_eq_true, decide_eq_true_eq]
  constructor
  · rintro ⟨⟨key, name, value⟩, hmem, ⟨hkey, hname⟩, hvalue⟩
    dsimp only at hkey hname hvalue
    subst hkey hvalue
    exact ⟨name, hname, hmem⟩
  · rintro ⟨other, hother, hholds⟩
    exact ⟨_, hholds, ⟨rfl, hother⟩, rfl⟩

theorem movesFreely_iff {tenantId : TenantId} {userId connectionId : String} :
    s.movesFreely tenantId userId connectionId = true ↔
      ∀ user, s.Holds tenantId user connectionId →
        user = userId ∨ ∃ other, other ≠ connectionId ∧ s.Holds tenantId user other := by
  simp only [movesFreely, List.all_eq_true, Bool.or_eq_true, decide_eq_true_eq, hasOther_iff]
  constructor
  · intro h user hholds
    rcases h _ hholds with (hfield | huser) | hother
    · exact absurd rfl hfield
    · exact Or.inl huser
    · exact Or.inr hother
  · rintro h ⟨key, name, value⟩ hmem
    by_cases hfield : (⟨key, name, value⟩ : HashEntry).field =
        (.connectionToUser tenantId, connectionId)
    · cases hfield
      cases h value hmem with
      | inl huser => exact Or.inl (Or.inr huser)
      | inr hother => exact Or.inr hother
    · exact Or.inl (Or.inl hfield)

theorem cleans_iff (h : Linked s) {tenantId : TenantId} {userId connectionId : String} :
    s.cleans connectionId tenantId userId = true ↔
      (s.redis.stringGet s.now (.connectionTenant connectionId)).isSome = true ∧ userId ≠ "" ∧
      (∀ tenant user, s.Holds tenant user connectionId → tenant = tenantId) ∧
      ((∃ other, other ≠ connectionId ∧ s.Holds tenantId userId other) ∨
        ∀ other ∈ s.members tenantId userId, other = connectionId) := by
  have hentries : (∀ entry ∈ s.redis.hashes.entries, entry.name ≠ connectionId ∨
      entry.key = .connectionToUser tenantId) ↔
      ∀ tenant user, s.Holds tenant user connectionId → tenant = tenantId := by
    constructor
    · intro hall tenant user hholds
      cases hall _ hholds with
      | inl hname => exact absurd rfl hname
      | inr hkey => exact PresenceKey.connectionToUser.inj hkey
    · rintro hall ⟨key, name, value⟩ hmem
      obtain ⟨tenant, rfl⟩ := h.keys _ hmem
      by_cases hname : name = connectionId
      · subst hname
        exact Or.inr (congrArg _ (hall tenant value hmem))
      · exact Or.inl hname
  simp only [cleans, Bool.and_eq_true, Bool.or_eq_true, List.all_eq_true, decide_eq_true_eq,
    hasOther_iff, hentries, and_assoc]

theorem outlasts_iff (h : Linked s) {later : Int} : s.outlasts later = true ↔
    ∀ tenantId userId connectionId, s.Holds tenantId userId connectionId →
      connectionId ∈ s.redis.setMembers later (.userConnections tenantId userId) := by
  simp only [outlasts, List.all_eq_true]
  constructor
  · intro hall tenantId userId connectionId hholds
    simpa using hall _ hholds
  · rintro hall ⟨key, name, value⟩ hmem
    obtain ⟨tenantId, rfl⟩ := h.keys _ hmem
    simpa using hall tenantId value name hmem

/-! ## Steps -/

/-- From a linked state, the check decides whether the service stays truthful, and with it the
keys stay linked. -/
structure Decides (s' : PresenceHistory) (check : Bool) : Prop where
  kept : check = true → Linked s'
  needed : Truthful s' → check = true

theorem Decides.truthful_iff {check : Bool} (h : Decides s' check) :
    Truthful s' ↔ check = true :=
  ⟨h.needed, fun hcheck => (h.kept hcheck).truthful⟩

theorem Linked.trackConnection (h : Linked s) {tenantId : TenantId} {userId connectionId : String}
    (hs : step s (.trackConnection tenantId userId connectionId) = some s') :
    Decides s' (s.movesFreely tenantId userId connectionId) := by
  cases hs
  have hholds : ∀ tenant user other,
      (⟨.connectionToUser tenant, other, user⟩ : HashEntry) ∈
        (s.redis.trackConnection s.now tenantId userId connectionId).hashes.entries ↔
      (tenant = tenantId ∧ other = connectionId ∧ user = userId) ∨
        s.Holds tenant user other ∧ ¬ (tenant = tenantId ∧ other = connectionId) := by
    intro tenant user other
    rw [mem_entries_trackConnection]
    simp only [HashEntry.mk.injEq, PresenceKey.connectionToUser.injEq, HashEntry.field, ne_eq,
      Prod.mk.injEq]
  have hmembers : ∀ tenant user other,
      other ∈ (s.redis.trackConnection s.now tenantId userId connectionId).setMembers s.now
        (.userConnections tenant user) ↔
      other ∈ s.members tenant user ∨
        ((tenant = tenantId ∧ user = userId) ∧ other = connectionId) := by
    intro tenant user other
    rw [mem_setMembers_trackConnection, PresenceKey.userConnections.injEq]
  have hnew : (⟨.connectionToUser tenantId, connectionId, userId⟩ : HashEntry) ∈
      (s.redis.trackConnection s.now tenantId userId connectionId).hashes.entries :=
    (hholds tenantId userId connectionId).mpr (Or.inl ⟨rfl, rfl, rfl⟩)
  refine ⟨fun hcheck => ?_, fun htruthful => movesFreely_iff.mpr fun user hold => ?_⟩
  · have hmoves := movesFreely_iff.mp hcheck
    constructor
    case keys =>
      intro entry hentry
      rcases mem_entries_trackConnection.mp hentry with rfl | ⟨hmem, -⟩
      · exact ⟨tenantId, rfl⟩
      · exact h.keys entry hmem
    case member =>
      intro tenant user other hentry
      refine (hmembers tenant user other).mpr ?_
      rcases (hholds tenant user other).mp hentry with ⟨rfl, rfl, rfl⟩ | ⟨hmem, -⟩
      · exact Or.inr ⟨⟨rfl, rfl⟩, rfl⟩
      · exact Or.inl (h.member tenant user other hmem)
    case listed =>
      intro tenant user other hmem
      rcases (hmembers tenant user other).mp hmem with hold | ⟨⟨rfl, rfl⟩, rfl⟩
      · obtain ⟨old, hentry⟩ := h.listed tenant user other hold
        by_cases hsame : tenant = tenantId ∧ old = connectionId
        · obtain ⟨rfl, rfl⟩ := hsame
          -- the connection may have been the user's, who then has another
          rcases hmoves user hentry with rfl | ⟨another, hne, hanother⟩
          · exact ⟨_, hnew⟩
          · exact ⟨another, (hholds _ _ _).mpr (Or.inr ⟨hanother, fun heq => hne heq.2⟩)⟩
        · exact ⟨old, (hholds _ _ _).mpr (Or.inr ⟨hentry, hsame⟩)⟩
      · exact ⟨_, hnew⟩
    case tracked =>
      intro other tenant user htracked
      dsimp only at htracked
      by_cases hother : other = connectionId
      · subst hother
        rw [Function.update_self] at htracked
        cases htracked
        exact hnew
      · rw [Function.update_of_ne hother] at htracked
        exact (hholds _ _ _).mpr
          (Or.inr ⟨h.tracked other tenant user htracked, fun heq => hother heq.2⟩)
    case untracked =>
      intro other huntracked tenant user hentry
      dsimp only at huntracked
      have hother : other ≠ connectionId := by
        rintro rfl
        rw [Function.update_self] at huntracked
        cases huntracked
      rw [Function.update_of_ne hother] at huntracked
      rcases (hholds tenant user other).mp hentry with ⟨-, heq, -⟩ | ⟨hmem, -⟩
      · exact hother heq
      · exact h.untracked other huntracked tenant user hmem
    case tenant =>
      intro other value hget
      rw [stringGet_trackConnection] at hget
      by_cases hother : other = connectionId
      · subst hother
        rw [if_pos rfl] at hget
        cases hget
        exact ⟨tenantId, userId, Function.update_self _ _ _, rfl⟩
      · rw [if_neg hother] at hget
        obtain ⟨tenant, user, htracked, hvalue⟩ := h.tenant other value hget
        exact ⟨tenant, user, (Function.update_of_ne hother _ _).trans htracked, hvalue⟩
  · -- the user it was taken from is still online
    have honline := ((truthful_iff.mp htruthful).2.2 tenantId user).mp
      ⟨connectionId, (hmembers _ _ _).mpr (Or.inl (h.member _ _ _ hold))⟩
    obtain ⟨other, hother⟩ := honline
    rcases (hholds tenantId user other).mp hother with ⟨-, -, rfl⟩ | ⟨hmem, hne⟩
    · exact Or.inl rfl
    · exact Or.inr ⟨other, fun heq => hne ⟨rfl, heq⟩, hmem⟩

/-- A removal that leaves the keys alone leaves a tracked connection behind. -/
theorem Linked.left_behind (h : Linked s) {tenantId : TenantId} {userId connectionId : String}
    (htracked : s.tracked connectionId = some (tenantId, userId)) :
    ¬ Truthful { s with tracked := Function.update s.tracked connectionId none } := by
  intro htruthful
  exact (truthful_iff.mp htruthful).1 connectionId (Function.update_self _ _ _) tenantId userId
    (h.tracked _ _ _ htracked)

theorem Linked.cleaned (h : Linked s) {tenantId : TenantId} {userId connectionId : String}
    (htracked : s.tracked connectionId = some (tenantId, userId))
    (htenant : s.redis.stringGet s.now (.connectionTenant connectionId) =
      some tenantId.toString) (hne : userId ≠ "") :
    Decides
      { s with
        redis := s.redis.removeConnection s.now connectionId
        tracked := Function.update s.tracked connectionId none }
      (s.cleans connectionId tenantId userId) := by
  have huser : s.redis.hashGet (.connectionToUser tenantId) connectionId = some userId :=
    hashGet_eq_some_iff.mpr (h.tracked _ _ _ htracked)
  have hholds : ∀ tenant user other,
      (⟨.connectionToUser tenant, other, user⟩ : HashEntry) ∈
        (s.redis.removeConnection s.now connectionId).hashes.entries ↔
      s.Holds tenant user other ∧ ¬ (tenant = tenantId ∧ other = connectionId) := by
    intro tenant user other
    rw [mem_entries_removeConnection htenant huser hne]
    simp only [HashEntry.field, ne_eq, Prod.mk.injEq, PresenceKey.connectionToUser.injEq]
  have hmembers := fun tenant user other =>
    @mem_setMembers_removeConnection s.redis s.now tenantId userId connectionId other htenant huser
      hne tenant user
  refine ⟨fun hcheck => ?_, fun htruthful => ?_⟩
  · obtain ⟨-, -, hone, hstale⟩ := (cleans_iff h).mp hcheck
    -- no hash has the connection any more
    have hgone : ∀ tenant user other,
        (⟨.connectionToUser tenant, other, user⟩ : HashEntry) ∈
          (s.redis.removeConnection s.now connectionId).hashes.entries ↔
        s.Holds tenant user other ∧ other ≠ connectionId := by
      intro tenant user other
      rw [hholds]
      refine and_congr_right fun hmem => ⟨fun hnot heq => ?_, fun hnot heq => hnot heq.2⟩
      subst heq
      exact hnot ⟨hone tenant user hmem, rfl⟩
    constructor
    case keys =>
      intro entry hentry
      exact h.keys entry ((mem_entries_removeConnection htenant huser hne).mp hentry).1
    case member =>
      intro tenant user other hentry
      obtain ⟨hmem, hother⟩ := (hgone tenant user other).mp hentry
      exact (hmembers tenant user other).mpr ⟨h.member tenant user other hmem,
        fun heq => hother heq.2⟩
    case listed =>
      intro tenant user other hmem
      obtain ⟨hold, hkept⟩ := (hmembers tenant user other).mp hmem
      obtain ⟨old, hentry⟩ := h.listed tenant user other hold
      by_cases hold' : old = connectionId
      · subst hold'
        -- the user whose connection is removed
        have htenant' := hone tenant user hentry
        subst htenant'
        have huser' : user = userId :=
          Hashes.value_eq hentry (h.tracked _ _ _ htracked)
        subst huser'
        rcases hstale with ⟨another, hanother, hentry'⟩ | hall
        · exact ⟨another, (hgone _ _ _).mpr ⟨hentry', hanother⟩⟩
        · exact absurd ⟨⟨rfl, rfl⟩, hall other hold⟩ hkept
      · exact ⟨old, (hgone _ _ _).mpr ⟨hentry, hold'⟩⟩
    case tracked =>
      intro other tenant user hother
      dsimp only at hother
      have hne' : other ≠ connectionId := by
        rintro rfl
        rw [Function.update_self] at hother
        cases hother
      rw [Function.update_of_ne hne'] at hother
      exact (hgone _ _ _).mpr ⟨h.tracked other tenant user hother, hne'⟩
    case untracked =>
      intro other huntracked tenant user hentry
      dsimp only at huntracked
      obtain ⟨hmem, hne'⟩ := (hgone tenant user other).mp hentry
      rw [Function.update_of_ne hne'] at huntracked
      exact h.untracked other huntracked tenant user hmem
    case tenant =>
      intro other value hget
      rw [stringGet_removeConnection htenant huser hne] at hget
      by_cases hother : other = connectionId
      · rw [if_pos hother] at hget
        cases hget
      · rw [if_neg hother] at hget
        obtain ⟨tenant, user, hother', hvalue⟩ := h.tenant other value hget
        exact ⟨tenant, user, (Function.update_of_ne hother _ _).trans hother', hvalue⟩
  · obtain ⟨hremoved, -, hagree⟩ := truthful_iff.mp htruthful
    refine (cleans_iff h).mpr ⟨by rw [htenant]; rfl, hne, fun tenant user hentry => ?_, ?_⟩
    · by_contra hother
      exact hremoved connectionId (Function.update_self _ _ _) tenant user
        ((hholds _ _ _).mpr ⟨hentry, fun heq => hother heq.1⟩)
    · by_cases hall : ∀ other ∈ s.members tenantId userId, other = connectionId
      · exact Or.inr hall
      · refine Or.inl ?_
        -- a member is left, so the user must still be listed
        have hleft : ∃ other ∈ s.members tenantId userId, other ≠ connectionId := by
          simpa only [not_forall, exists_prop] using hall
        obtain ⟨other, hmem, hother⟩ := hleft
        obtain ⟨another, hanother⟩ := (hagree tenantId userId).mp
          ⟨other, (hmembers _ _ _).mpr ⟨hmem, fun heq => hother heq.2⟩⟩
        obtain ⟨hentry, hne'⟩ := (hholds _ _ _).mp hanother
        exact ⟨another, fun heq => hne' ⟨rfl, heq⟩, hentry⟩

theorem Linked.removeConnection (h : Linked s) {connectionId : String}
    (hs : step s (.removeConnection connectionId) = some s') :
    Decides s' ((s.tracked connectionId).all fun (tenantId, userId) =>
      s.cleans connectionId tenantId userId) := by
  cases hs
  cases htracked : s.tracked connectionId with
  | none =>
    have hlapsed : s.redis.stringGet s.now (.connectionTenant connectionId) = none := by
      cases hget : s.redis.stringGet s.now (.connectionTenant connectionId) with
      | none => rfl
      | some value =>
        obtain ⟨_, _, hother, -⟩ := h.tenant connectionId value hget
        rw [htracked] at hother
        cases hother
    have hsame : ({ s with
        redis := s.redis.removeConnection s.now connectionId
        tracked := Function.update s.tracked connectionId none } : PresenceHistory) = s := by
      rw [removeConnection_of_lapsed hlapsed, ← htracked, Function.update_eq_self]
    rw [hsame]
    exact ⟨fun _ => h, fun _ => rfl⟩
  | some tracked =>
    obtain ⟨tenantId, userId⟩ := tracked
    rw [Option.all_some]
    cases hget : s.redis.stringGet s.now (.connectionTenant connectionId) with
    | none =>
      rw [removeConnection_of_lapsed hget]
      refine ⟨fun hcheck => ?_, fun htruthful => absurd htruthful (h.left_behind htracked)⟩
      have hsome := ((cleans_iff h).mp hcheck).1
      rw [hget] at hsome
      cases hsome
    | some value =>
      obtain ⟨tenant, user, hother, rfl⟩ := h.tenant connectionId value hget
      rw [htracked] at hother
      cases hother
      by_cases hempty : userId = ""
      · subst hempty
        rw [removeConnection_of_emptyUser hget
          (hashGet_eq_some_iff.mpr (h.tracked _ _ _ htracked))]
        refine ⟨fun hcheck => ?_, fun htruthful => absurd htruthful (h.left_behind htracked)⟩
        exact absurd rfl ((cleans_iff h).mp hcheck).2.1
      · exact h.cleaned htracked hget hempty

theorem Linked.setPageContext (h : Linked s) {tenantId : TenantId}
    {connectionId pageContext : String}
    (hs : step s (.setPageContext tenantId connectionId pageContext) = some s') : Linked s' := by
  cases hs
  obtain ⟨hhashes, hmembers, hget⟩ := @setPageContext_frame s.redis s.now tenantId connectionId
    pageContext
  have hholds : ∀ tenant user other, (⟨.connectionToUser tenant, other, user⟩ : HashEntry) ∈
      (s.redis.setPageContext s.now tenantId connectionId pageContext).hashes.entries ↔
      s.Holds tenant user other := by
    intro tenant user other
    rw [hhashes]
  have hsets : ∀ tenant user other, other ∈ (s.redis.setPageContext s.now tenantId connectionId
      pageContext).setMembers s.now (.userConnections tenant user) ↔
      other ∈ s.members tenant user := by
    intro tenant user other
    rw [hmembers]
  constructor
  case keys =>
    intro entry hentry
    exact h.keys entry (hhashes ▸ hentry)
  case member =>
    intro tenant user other hentry
    exact (hsets _ _ _).mpr (h.member tenant user other ((hholds _ _ _).mp hentry))
  case listed =>
    intro tenant user other hmem
    obtain ⟨old, hold⟩ := h.listed tenant user other ((hsets _ _ _).mp hmem)
    exact ⟨old, (hholds _ _ _).mpr hold⟩
  case tracked =>
    intro other tenant user htracked
    exact (hholds _ _ _).mpr (h.tracked other tenant user htracked)
  case untracked =>
    intro other huntracked tenant user hentry
    exact h.untracked other huntracked tenant user ((hholds _ _ _).mp hentry)
  case tenant =>
    intro other value hvalue
    exact h.tenant other value ((hget other).symm.trans hvalue)

/-- A set that still has a member has not lapsed. -/
theorem setMembers_later {r : PresenceRedis} {now later : Int} {key : PresenceKey}
    {member member' : String} (h : member ∈ r.setMembers later key)
    (hnow : member' ∈ r.setMembers now key) : member' ∈ r.setMembers later key := by
  obtain ⟨entry, hentry, halive, -⟩ := mem_setMembers.mp h
  obtain ⟨entry', hentry', -, hmem⟩ := mem_setMembers.mp hnow
  rw [hentry] at hentry'
  cases hentry'
  exact mem_setMembers.mpr ⟨entry, hentry, halive, hmem⟩

theorem Linked.tick (h : Linked s) {milliseconds : Nat}
    (hs : step s (.tick milliseconds) = some s') :
    Decides s' (s.outlasts (s.now + milliseconds)) := by
  cases hs
  have hle : s.now ≤ s.now + milliseconds := by omega
  refine ⟨fun hcheck => ?_, fun htruthful => (outlasts_iff h).mpr ?_⟩
  · exact
    { keys := h.keys
      member := (outlasts_iff h).mp hcheck
      listed := fun tenant user other hmem =>
        h.listed tenant user other (mem_setMembers_of_later hle hmem)
      tracked := h.tracked
      untracked := h.untracked
      tenant := fun other value hget =>
        h.tenant other value (ExpiringMap.lookup_of_later hle hget) }
  · intro tenant user other hentry
    obtain ⟨left, hleft⟩ := ((truthful_iff.mp htruthful).2.2 tenant user).mpr ⟨other, hentry⟩
    exact setMembers_later hleft (h.member tenant user other hentry)

theorem Linked.decides (h : Linked s) {call : PresenceCall} (hs : step s call = some s') :
    Decides s' (s.keepsPresence call) := by
  cases call with
  | trackConnection tenantId userId connectionId => exact h.trackConnection hs
  | removeConnection connectionId => exact h.removeConnection hs
  | setPageContext tenantId connectionId pageContext =>
    exact ⟨fun _ => h.setPageContext hs, fun _ => rfl⟩
  | tick milliseconds => exact h.tick hs

/-! ## Histories -/

/-- Throughout a history the service answers what it was told exactly when every removal cleans
up, no user's set lapses before the user's connections go, and no connection is moved off its
user. -/
theorem truthful_throughout_iff (calls : List PresenceCall) (s : PresenceHistory)
    (h : follow step initial calls = some s) :
    Throughout step Truthful initial calls ↔ run step keepsPresence initial calls = some s :=
  run_iff_throughout linked_initial linked_initial.truthful
    (fun _ _ _ hlinked hcheck hs => (hlinked.decides hs).kept hcheck)
    (fun _ _ _ hlinked hs => (hlinked.decides hs).truthful_iff) h

/-! ## A connection that outlives its keys -/

/-- Ann comes, looks at a page and leaves within half an hour. -/
def shortVisit : List PresenceCall :=
  [.trackConnection 7 "ann" "c1", .setPageContext 7 "c1" "/inbox", .tick 600000,
    .removeConnection "c1"]

theorem truthful_throughout_iff_shortVisit :
    Throughout step Truthful initial shortVisit := by
  have hrun : (run step keepsPresence initial shortVisit).isSome := by decide +kernel
  exact (truthful_throughout_iff shortVisit _
    (follow_of_run (Option.some_get hrun).symm)).mpr (Option.some_get hrun).symm

/-- Half an hour after it was tracked, a connected user is listed but not online, and the removal
of the connection does not take it off the list. -/
theorem removed_connection_still_listed :
    (∃ s, Reachable step initial s ∧ s.tracked "c1" = some (7, "ann") ∧
      s.isUserOnline 7 "ann" = false ∧
      (s.redis.getOnlineUsers s.now 7).map (·.userId) = ["ann"]) ∧
    ∃ s, Reachable step initial s ∧ s.tracked "c1" = none ∧
      (s.redis.getOnlineUsers s.now 7).map (·.connectionIds) = [["c1"]] := by
  have hlapsed : (follow step initial [.trackConnection 7 "ann" "c1", .tick 1800000]).any
      (fun s => decide (s.tracked "c1" = some (7, "ann") ∧ s.isUserOnline 7 "ann" = false ∧
        (s.redis.getOnlineUsers s.now 7).map (·.userId) = ["ann"])) = true := by
    decide +kernel
  have hremoved : (follow step initial
      [.trackConnection 7 "ann" "c1", .tick 1800000, .removeConnection "c1"]).any
      (fun s => decide (s.tracked "c1" = none ∧
        (s.redis.getOnlineUsers s.now 7).map (·.connectionIds) = [["c1"]])) = true := by
    decide +kernel
  constructor
  · obtain ⟨s, hreach, hs⟩ := exists_reaches_of_run (fun _ _ _ => trivial) hlapsed
    exact ⟨s, hreach, of_decide_eq_true hs⟩
  · obtain ⟨s, hreach, hs⟩ := exists_reaches_of_run (fun _ _ _ => trivial) hremoved
    exact ⟨s, hreach, of_decide_eq_true hs⟩

end PresenceHistory

end Wallow.Api
