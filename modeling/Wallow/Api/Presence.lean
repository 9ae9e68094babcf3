import Wallow.Api.GuidText
import Wallow.Lib.Expiring
import Mathlib.Data.List.Induction
import Mathlib.Data.List.Nodup

/-!
# Who is online

`RedisPresenceService.cs` over the Redis commands it issues.  The keys are kept apart by their
constructor; `PresenceKey.injective_render` is the reason this loses nothing.
-/

namespace Wallow.Api

/-! ## Keys and commands -/

inductive PresenceKey
  | connectionToUser (tenantId : TenantId)
  | userConnections (tenantId : TenantId) (userId : String)
  | pageViewers (tenantId : TenantId) (pageContext : String)
  | connectionPage (connectionId : String)
  | connectionTenant (connectionId : String)
  deriving DecidableEq

def ConnectionPagePrefix : String := "presence:connpage:"
def ConnectionTenantPrefix : String := "presence:conn:tenant:"

def connectionToUserKey (tenantId : TenantId) : String :=
  "presence:" ++ tenantId.toString ++ ":conn2user"

def userConnectionsKey (tenantId : TenantId) (userId : String) : String :=
  "presence:" ++ tenantId.toString ++ ":user:" ++ userId

def pageViewersKey (tenantId : TenantId) (pageContext : String) : String :=
  "presence:" ++ tenantId.toString ++ ":page:" ++ pageContext

def PresenceKey.render : PresenceKey → String
  | .connectionToUser tenantId => connectionToUserKey tenantId
  | .userConnections tenantId userId => userConnectionsKey tenantId userId
  | .pageViewers tenantId pageContext => pageViewersKey tenantId pageContext
  | .connectionPage connectionId => ConnectionPagePrefix ++ connectionId
  | .connectionTenant connectionId => ConnectionTenantPrefix ++ connectionId

/-- `_connectionTtl`, in milliseconds. -/
def connectionTtl : Int := 30 * 60 * 1000

/-- A field of a hash. -/
structure HashEntry where
  key : PresenceKey
  name : String
  value : String
  deriving DecidableEq

def HashEntry.field (entry : HashEntry) : PresenceKey × String := (entry.key, entry.name)

/-- The fields of all hashes, each with one value. -/
structure Hashes where
  entries : List HashEntry
  fields_nodup : (entries.map HashEntry.field).Nodup

namespace Hashes

def empty : Hashes := ⟨[], List.nodup_nil⟩

def delete (h : Hashes) (key : PresenceKey) (name : String) : Hashes where
  entries := h.entries.filter (·.field ≠ (key, name))
  fields_nodup := h.fields_nodup.sublist (List.filter_sublist.map _)

def set (h : Hashes) (key : PresenceKey) (name value : String) : Hashes where
  entries := ⟨key, name, value⟩ :: (h.delete key name).entries
  fields_nodup := by
    refine List.nodup_cons.mpr ⟨fun hmem => ?_, (h.delete key name).fields_nodup⟩
    obtain ⟨entry, hentry, hfield⟩ := List.mem_map.mp hmem
    exact of_decide_eq_true (List.mem_filter.mp hentry).2 hfield

variable {h : Hashes} {key : PresenceKey} {name value : String} {entry : HashEntry}

theorem mem_delete :
    entry ∈ (h.delete key name).entries ↔ entry ∈ h.entries ∧ entry.field ≠ (key, name) := by
  rw [delete, List.mem_filter, decide_eq_true_eq]

theorem mem_set : entry ∈ (h.set key name value).entries ↔
    entry = ⟨key, name, value⟩ ∨ entry ∈ h.entries ∧ entry.field ≠ (key, name) := by
  rw [set, List.mem_cons, mem_delete]

/-- A field has one value. -/
theorem value_eq {value' : String} (hmem : ⟨key, name, value⟩ ∈ h.entries)
    (hmem' : ⟨key, name, value'⟩ ∈ h.entries) : value = value' := by
  have heq := List.inj_on_of_nodup_map h.fields_nodup hmem hmem' rfl
  exact congrArg HashEntry.value heq

end Hashes

/-- Strings, sets and hashes.  No command gives a hash an expiry. -/
structure PresenceRedis where
  strings : ExpiringMap PresenceKey String
  sets : ExpiringMap PresenceKey (List String)
  hashes : Hashes

namespace PresenceRedis

def empty : PresenceRedis := ⟨.empty, .empty, .empty⟩

def stringGet (r : PresenceRedis) (now : Int) (key : PresenceKey) : Option String :=
  r.strings.lookup now key

def stringSet (r : PresenceRedis) (now : Int) (key : PresenceKey) (value : String) (ttl : Int) :
    PresenceRedis :=
  { r with strings := r.strings.put key value (some (now + ttl)) }

/-- `DEL` of a string. -/
def keyDelete (r : PresenceRedis) (key : PresenceKey) : PresenceRedis :=
  { r with strings := r.strings.erase key }

def setMembers (r : PresenceRedis) (now : Int) (key : PresenceKey) : List String :=
  (r.sets.lookup now key).getD []

def setLength (r : PresenceRedis) (now : Int) (key : PresenceKey) : Nat :=
  (r.setMembers now key).length

/-- Adds to the live set, or to a new one without an expiry. -/
def setAdd (r : PresenceRedis) (now : Int) (key : PresenceKey) (member : String) :
    PresenceRedis :=
  let entry := (r.sets.alive now key).getD ⟨[], none⟩
  let members := if member ∈ entry.value then entry.value else entry.value ++ [member]
  { r with sets := r.sets.put key members entry.expiresAt }

/-- A set with no members left is deleted. -/
def setRemove (r : PresenceRedis) (now : Int) (key : PresenceKey) (member : String) :
    PresenceRedis :=
  match r.sets.alive now key with
  | none => r
  | some entry =>
    let members := entry.value.filter (· ≠ member)
    if members.isEmpty then { r with sets := r.sets.erase key }
    else { r with sets := r.sets.put key members entry.expiresAt }

/-- `EXPIRE` of a set. -/
def keyExpire (r : PresenceRedis) (now : Int) (key : PresenceKey) (ttl : Int) : PresenceRedis :=
  match r.sets.alive now key with
  | none => r
  | some entry => { r with sets := r.sets.put key entry.value (some (now + ttl)) }

def hashGetAll (r : PresenceRedis) (key : PresenceKey) : List HashEntry :=
  r.hashes.entries.filter (·.key = key)

def hashGet (r : PresenceRedis) (key : PresenceKey) (name : String) : Option String :=
  (r.hashes.entries.find? (·.field = (key, name))).map (·.value)

def hashDelete (r : PresenceRedis) (key : PresenceKey) (name : String) : PresenceRedis :=
  { r with hashes := r.hashes.delete key name }

def hashSet (r : PresenceRedis) (key : PresenceKey) (name value : String) : PresenceRedis :=
  { r with hashes := r.hashes.set key name value }

/-! ## The service -/

/-- `RedisValue.IsNullOrEmpty`. -/
def isNullOrEmpty (value : Option String) : Bool :=
  value.getD "" = ""

def trackConnection (r : PresenceRedis) (now : Int) (tenantId : TenantId)
    (userId connectionId : String) : PresenceRedis :=
  let r := r.hashSet (.connectionToUser tenantId) connectionId userId
  let userKey := .userConnections tenantId userId
  let r := r.setAdd now userKey connectionId
  let r := r.keyExpire now userKey connectionTtl
  r.stringSet now (.connectionTenant connectionId) tenantId.toString connectionTtl

/-- `Guid.Parse` of the stored tenant; `none` where it throws. -/
def parseTenant (value : String) : Option TenantId :=
  tryParse value.toList

def removeConnection (r : PresenceRedis) (now : Int) (connectionId : String) : PresenceRedis :=
  match r.stringGet now (.connectionTenant connectionId) with
  | none => r
  | some tenantValue =>
    if tenantValue = "" then r
    else match parseTenant tenantValue with
      | none => r
      | some tenantId =>
        match r.hashGet (.connectionToUser tenantId) connectionId with
        | none => r
        | some userId =>
          if userId = "" then r
          else
            -- read before the deletions: the page names the set the connection is to leave
            let pageContext := r.stringGet now (.connectionPage connectionId)
            let r := r.hashDelete (.connectionToUser tenantId) connectionId
            let r := r.setRemove now (.userConnections tenantId userId) connectionId
            let r := r.keyDelete (.connectionPage connectionId)
            let r :=
              if isNullOrEmpty pageContext then r
              else r.setRemove now (.pageViewers tenantId (pageContext.getD "")) connectionId
            r.keyDelete (.connectionTenant connectionId)

def setPageContext (r : PresenceRedis) (now : Int) (tenantId : TenantId)
    (connectionId pageContext : String) : PresenceRedis :=
  let oldPage := r.stringGet now (.connectionPage connectionId)
  let r :=
    if isNullOrEmpty oldPage then r
    else r.setRemove now (.pageViewers tenantId (oldPage.getD "")) connectionId
  let r := r.stringSet now (.connectionPage connectionId) pageContext connectionTtl
  let pageKey := .pageViewers tenantId pageContext
  let r := r.setAdd now pageKey connectionId
  r.keyExpire now pageKey connectionTtl

end PresenceRedis

structure UserPresence where
  userId : String
  displayName : Option String
  connectionIds : List String
  currentPages : List String
  deriving DecidableEq

/-- Adds a connection to its user's list in the dictionary. -/
def addConnection : List (String × List String) → String × String → List (String × List String)
  | [], (userId, connId) => [(userId, [connId])]
  | (user, ids) :: rest, (userId, connId) =>
    if user = userId then (user, ids ++ [connId]) :: rest
    else (user, ids) :: addConnection rest (userId, connId)

/-- `userConnections`, filled from pairs of a user and a connection. -/
def userConnections (pairs : List (String × String)) : List (String × List String) :=
  pairs.foldl addConnection []

namespace PresenceRedis

def getOnlineUsers (r : PresenceRedis) (now : Int) (tenantId : TenantId) : List UserPresence :=
  let pairs := (r.hashGetAll (.connectionToUser tenantId)).map fun entry =>
    (entry.value, entry.name)
  (userConnections pairs).map fun (userId, connectionIds) =>
    let pages := connectionIds.filterMap fun connId =>
      (r.stringGet now (.connectionPage connId)).filter (· ≠ "")
    { userId, displayName := none, connectionIds, currentPages := pages.eraseDups }

def getUsersOnPage (r : PresenceRedis) (now : Int) (tenantId : TenantId) (pageContext : String) :
    List UserPresence :=
  let pairs := (r.setMembers now (.pageViewers tenantId pageContext)).filterMap fun connId =>
    ((r.hashGet (.connectionToUser tenantId) connId).filter (· ≠ "")).map fun userId =>
      (userId, connId)
  (userConnections pairs).map fun (userId, connectionIds) =>
    { userId, displayName := none, connectionIds, currentPages := [pageContext] }

def isUserOnline (r : PresenceRedis) (now : Int) (tenantId : TenantId) (userId : String) : Bool :=
  r.setLength now (.userConnections tenantId userId) > 0

end PresenceRedis

/-! ## What the keys spell -/

/-- The key string after `presence:`. -/
def PresenceKey.tail : PresenceKey → List Char
  | .connectionToUser tenantId => tenantId.chars ++ ":conn2user".toList
  | .userConnections tenantId userId => tenantId.chars ++ (":user:".toList ++ userId.toList)
  | .pageViewers tenantId pageContext =>
    tenantId.chars ++ (":page:".toList ++ pageContext.toList)
  | .connectionPage connectionId => 'c' :: 'o' :: ("nnpage:".toList ++ connectionId.toList)
  | .connectionTenant connectionId => 'c' :: 'o' :: ("nn:tenant:".toList ++ connectionId.toList)

theorem PresenceKey.toList_render (key : PresenceKey) :
    key.render.toList = "presence:".toList ++ key.tail := by
  cases key with
  | connectionToUser tenantId =>
    simp only [render, connectionToUserKey, toList_toString, String.toList_append,
      List.append_assoc, tail]
  | userConnections tenantId userId =>
    simp only [render, userConnectionsKey, toList_toString, String.toList_append,
      List.append_assoc, tail]
  | pageViewers tenantId pageContext =>
    simp only [render, pageViewersKey, toList_toString, String.toList_append,
      List.append_assoc, tail]
  | connectionPage connectionId => simp [render, ConnectionPagePrefix, tail]
  | connectionTenant connectionId => simp [render, ConnectionTenantPrefix, tail]

/-- A tail that starts with a tenant's id has a digit or a dash where the others have an `o`. -/
theorem chars_append_ne {tenantId : TenantId} {rest other : List Char} {c : Char} :
    tenantId.chars ++ rest ≠ c :: 'o' :: other := by
  intro h
  have hsecond : (tenantId.chars ++ rest)[1]? = some 'o' := by
    rw [h]
    rfl
  rw [List.getElem?_append_left (by rw [chars_length]; decide)] at hsecond
  -- the second character of a Guid's text is a hexadecimal digit
  have hguid : IsGuidChar 'o' := mem_chars (List.mem_of_getElem? hsecond)
  exact absurd hguid.toNat (by decide)

theorem PresenceKey.tail_injective : Function.Injective PresenceKey.tail := by
  -- a tenant's text has one length, so it ends where the other one's does
  have htenant : ∀ {a b : TenantId} {xs ys : List Char}, a.chars ++ xs = b.chars ++ ys →
      a = b ∧ xs = ys := by
    intro a b xs ys h
    have hparts := List.append_inj h (by rw [chars_length, chars_length])
    exact ⟨chars_injective hparts.1, hparts.2⟩
  have htext : ∀ {xs : List Char} {a b : String}, xs ++ a.toList = xs ++ b.toList → a = b :=
    fun h => String.toList_injective (List.append_cancel_left h)
  have htail : ∀ {c d : Char} {xs ys : List Char}, c :: d :: xs = c :: d :: ys → xs = ys := by
    intro c d xs ys h
    exact (List.cons.inj (List.cons.inj h).2).2
  intro a b h
  cases a <;> cases b <;> rw [tail, tail] at h
  case connectionToUser.connectionToUser => rw [(htenant h).1]
  case userConnections.userConnections => rw [(htenant h).1, htext (htenant h).2]
  case pageViewers.pageViewers => rw [(htenant h).1, htext (htenant h).2]
  case connectionPage.connectionPage => rw [htext (htail h)]
  case connectionTenant.connectionTenant => rw [htext (htail h)]
  case connectionPage.connectionTenant | connectionTenant.connectionPage =>
    have hrest := htail h
    simp at hrest
  case connectionToUser.connectionPage | connectionToUser.connectionTenant |
      userConnections.connectionPage | userConnections.connectionTenant |
      pageViewers.connectionPage | pageViewers.connectionTenant =>
    exact absurd h chars_append_ne
  case connectionPage.connectionToUser | connectionTenant.connectionToUser |
      connectionPage.userConnections | connectionTenant.userConnections |
      connectionPage.pageViewers | connectionTenant.pageViewers =>
    exact absurd h.symm chars_append_ne
  all_goals
    have hrest := (htenant h).2
    simp at hrest

/-- Two keys share a key string only if they are the same key. -/
theorem PresenceKey.injective_render : Function.Injective PresenceKey.render := by
  intro a b h
  have htext := congrArg String.toList h
  rw [toList_render, toList_render] at htext
  exact tail_injective (List.append_cancel_left htext)

/-! ## Members after each command -/

namespace PresenceRedis

variable {r : PresenceRedis} {now : Int} {key key' : PresenceKey} {member member' : String}

theorem mem_setMembers : member ∈ r.setMembers now key ↔
    ∃ entry, r.sets key = some entry ∧ entry.isAlive now = true ∧ member ∈ entry.value := by
  unfold setMembers
  cases hlookup : r.sets.lookup now key with
  | none =>
    refine iff_of_false (List.not_mem_nil) ?_
    rintro ⟨entry, hentry, halive, -⟩
    have hsome := ExpiringMap.lookup_eq_some_iff.mpr ⟨entry, hentry, halive, rfl⟩
    rw [hlookup] at hsome
    cases hsome
  | some members =>
    obtain ⟨entry, hentry, halive, hvalue⟩ := ExpiringMap.lookup_eq_some_iff.mp hlookup
    rw [Option.getD_some, ← hvalue]
    constructor
    · exact fun hmem => ⟨entry, hentry, halive, hmem⟩
    · rintro ⟨entry', hentry', -, hmem⟩
      rw [hentry] at hentry'
      cases hentry'
      exact hmem

/-- A set rewritten with the members and the expiry it has while it lives. -/
theorem setMembers_put_of_ne {members : List String} {expiresAt : Option Int} (h : key' ≠ key) :
    ({ r with sets := r.sets.put key members expiresAt } : PresenceRedis).setMembers now key' =
      r.setMembers now key' := by
  rw [setMembers, setMembers, ExpiringMap.lookup_put_of_ne _ _ _ _ h]

theorem setMembers_put_self {members : List String} {expiresAt : Option Int}
    (h : (⟨members, expiresAt⟩ : Expiring (List String)).isAlive now = true) :
    ({ r with sets := r.sets.put key members expiresAt } : PresenceRedis).setMembers now key =
      members := by
  have hlookup : (r.sets.put key members expiresAt).lookup now key = some members :=
    ExpiringMap.lookup_eq_some_iff.mpr ⟨_, ExpiringMap.put_self _ _ _ _, h, rfl⟩
  rw [setMembers, hlookup, Option.getD_some]

theorem setMembers_of_alive {entry : Expiring (List String)}
    (h : r.sets.alive now key = some entry) : r.setMembers now key = entry.value := by
  rw [setMembers, ExpiringMap.lookup, h]
  rfl

theorem setMembers_of_lapsed (h : r.sets.alive now key = none) : r.setMembers now key = [] := by
  rw [setMembers, ExpiringMap.lookup, h]
  rfl

theorem mem_setAdd : member' ∈ (r.setAdd now key member).setMembers now key' ↔
    member' ∈ r.setMembers now key' ∨ (key' = key ∧ member' = member) := by
  by_cases hkey : key' = key
  · subst hkey
    have hsame : ((r.setAdd now key' member).setMembers now key') =
        if member ∈ r.setMembers now key' then r.setMembers now key'
        else r.setMembers now key' ++ [member] := by
      cases halive : r.sets.alive now key' with
      | none =>
        simp only [setAdd, halive, setMembers_of_lapsed halive, Option.getD_none]
        exact setMembers_put_self rfl
      | some entry =>
        simp only [setAdd, halive, setMembers_of_alive halive, Option.getD_some]
        exact setMembers_put_self (ExpiringMap.alive_eq_some_iff.mp halive).2
    rw [hsame]
    split
    · rename_i hmem
      refine ⟨Or.inl, fun h => ?_⟩
      rcases h with h | ⟨-, rfl⟩
      · exact h
      · exact hmem
    · simp only [List.mem_append, List.mem_singleton, true_and]
  · rw [setAdd, setMembers_put_of_ne hkey]
    exact ⟨Or.inl, fun h => h.resolve_right fun h => hkey h.1⟩

theorem setMembers_setRemove_of_ne (h : key' ≠ key) :
    (r.setRemove now key member).setMembers now key' = r.setMembers now key' := by
  unfold setRemove
  split
  · rfl
  · dsimp only
    split
    · rw [setMembers, setMembers, ExpiringMap.lookup_erase_of_ne _ _ h]
    · exact setMembers_put_of_ne h

theorem mem_setRemove : member' ∈ (r.setRemove now key member).setMembers now key' ↔
    member' ∈ r.setMembers now key' ∧ ¬ (key' = key ∧ member' = member) := by
  by_cases hkey : key' = key
  · subst hkey
    have hsame : (r.setRemove now key' member).setMembers now key' =
        (r.setMembers now key').filter (· ≠ member) := by
      cases halive : r.sets.alive now key' with
      | none => simp only [setRemove, halive, setMembers_of_lapsed halive, List.filter_nil]
      | some entry =>
        simp only [setRemove, halive, setMembers_of_alive halive]
        split
        · rename_i hempty
          rw [List.isEmpty_iff.mp hempty, setMembers, ExpiringMap.lookup_erase_self]
          rfl
        · exact setMembers_put_self (ExpiringMap.alive_eq_some_iff.mp halive).2
    rw [hsame, List.mem_filter, decide_eq_true_eq]
    simp only [true_and, ne_eq]
  · rw [setMembers_setRemove_of_ne hkey]
    exact ⟨fun h => ⟨h, fun heq => hkey heq.1⟩, fun h => h.1⟩

@[simp] theorem setMembers_keyExpire {ttl : Int} (httl : 0 < ttl) :
    (r.keyExpire now key ttl).setMembers now key' = r.setMembers now key' := by
  unfold keyExpire
  cases halive : r.sets.alive now key with
  | none => rfl
  | some entry =>
    by_cases hkey : key' = key
    · subst hkey
      rw [setMembers_of_alive halive]
      refine setMembers_put_self ?_
      simpa [Expiring.isAlive] using httl
    · exact setMembers_put_of_ne hkey

theorem mem_setMembers_of_later {later : Int} (hle : now ≤ later)
    (h : member ∈ r.setMembers later key) : member ∈ r.setMembers now key := by
  obtain ⟨entry, hentry, halive, hmem⟩ := mem_setMembers.mp h
  exact mem_setMembers.mpr ⟨entry, hentry, Expiring.isAlive_anti hle halive, hmem⟩

theorem hashGet_eq_some_iff {name value : String} :
    r.hashGet key name = some value ↔ ⟨key, name, value⟩ ∈ r.hashes.entries := by
  unfold hashGet
  rw [Option.map_eq_some_iff]
  constructor
  · rintro ⟨entry, hfind, rfl⟩
    have hfield : entry.field = (key, name) := by simpa using List.find?_some hfind
    have hmem := List.mem_of_find?_eq_some hfind
    obtain ⟨k, n, v⟩ := entry
    cases hfield
    exact hmem
  · intro hmem
    cases hfind : r.hashes.entries.find? (·.field = (key, name)) with
    | none =>
      have hnot := List.find?_eq_none.mp hfind _ hmem
      simp [HashEntry.field] at hnot
    | some entry =>
      have hfield : entry.field = (key, name) := by simpa using List.find?_some hfind
      have hentry := List.mem_of_find?_eq_some hfind
      obtain ⟨k, n, v⟩ := entry
      cases hfield
      exact ⟨_, rfl, Hashes.value_eq hentry hmem⟩

end PresenceRedis

/-! ## The lists of users -/

/-- The user is listed with the connection. -/
def Lists (users : List (String × List String)) (userId connectionId : String) : Prop :=
  ∃ user ∈ users, user.1 = userId ∧ connectionId ∈ user.2

theorem lists_addConnection {users : List (String × List String)} {u c u0 c0 : String} :
    Lists (addConnection users (u0, c0)) u c ↔ Lists users u c ∨ (u = u0 ∧ c = c0) := by
  induction users with
  | nil =>
    simp [addConnection, Lists, eq_comm]
  | cons user rest ih =>
    obtain ⟨user, ids⟩ := user
    unfold addConnection
    split
    · rename_i huser
      subst huser
      simp only [Lists, List.mem_cons, exists_eq_or_imp, List.mem_append, List.not_mem_nil,
        or_false]
      constructor
      · rintro (⟨rfl, hmem | rfl⟩ | hrest)
        · exact Or.inl (Or.inl ⟨rfl, hmem⟩)
        · exact Or.inr ⟨rfl, rfl⟩
        · exact Or.inl (Or.inr hrest)
      · rintro ((⟨rfl, hmem⟩ | hrest) | ⟨rfl, rfl⟩)
        · exact Or.inl ⟨rfl, Or.inl hmem⟩
        · exact Or.inr hrest
        · exact Or.inl ⟨rfl, Or.inr rfl⟩
    · unfold Lists at ih ⊢
      simp only [List.mem_cons, exists_eq_or_imp]
      rw [ih, or_assoc]

theorem lists_userConnections {pairs : List (String × String)} {u c : String} :
    Lists (userConnections pairs) u c ↔ (u, c) ∈ pairs := by
  -- the dictionary is filled from the left: the last pair goes into the one filled so far
  induction pairs using List.reverseRecOn with
  | nil => simp [userConnections, Lists]
  | append_singleton pairs pair ih =>
    obtain ⟨u0, c0⟩ := pair
    rw [userConnections, List.foldl_append, List.foldl_cons, List.foldl_nil, lists_addConnection,
      ← userConnections, ih, List.mem_append, List.mem_singleton, Prod.mk.injEq]

theorem listed_addConnection {users : List (String × List String)} {u u0 c0 : String} :
    (∃ user ∈ addConnection users (u0, c0), user.1 = u) ↔
      (∃ user ∈ users, user.1 = u) ∨ u = u0 := by
  induction users with
  | nil => simp [addConnection, eq_comm]
  | cons user rest ih =>
    obtain ⟨user, ids⟩ := user
    unfold addConnection
    split
    · rename_i huser
      subst huser
      simp only [List.mem_cons, exists_eq_or_imp]
      constructor
      · exact Or.inl
      · exact fun h => h.elim id fun hu => Or.inl hu.symm
    · simp only [List.mem_cons, exists_eq_or_imp]
      rw [ih, or_assoc]

/-- Nobody is listed without a connection. -/
theorem listed_iff {pairs : List (String × String)} {u : String} :
    (∃ user ∈ userConnections pairs, user.1 = u) ↔ ∃ c, (u, c) ∈ pairs := by
  induction pairs using List.reverseRecOn with
  | nil => simp [userConnections]
  | append_singleton pairs pair ih =>
    obtain ⟨u0, c0⟩ := pair
    rw [userConnections, List.foldl_append, List.foldl_cons, List.foldl_nil,
      listed_addConnection, ← userConnections, ih]
    simp only [List.mem_append, List.mem_singleton, Prod.mk.injEq, exists_or, exists_and_left,
      exists_eq, and_true]

/-- A report names the user on account of the connection. -/
def Reports (users : List UserPresence) (userId connectionId : String) : Prop :=
  ∃ user ∈ users, user.userId = userId ∧ connectionId ∈ user.connectionIds

namespace PresenceRedis

variable {r : PresenceRedis} {now : Int} {tenantId : TenantId} {u c pageContext : String}

theorem mem_hashGetAll {key : PresenceKey} {name value : String} :
    ⟨key, name, value⟩ ∈ r.hashGetAll key ↔ ⟨key, name, value⟩ ∈ r.hashes.entries := by
  rw [hashGetAll, List.mem_filter]
  exact ⟨fun h => h.1, fun h => ⟨h, decide_eq_true rfl⟩⟩

theorem mem_connectionPairs :
    (u, c) ∈ ((r.hashGetAll (.connectionToUser tenantId)).map fun entry =>
      (entry.value, entry.name)) ↔
      ⟨.connectionToUser tenantId, c, u⟩ ∈ r.hashes.entries := by
  rw [List.mem_map, ← mem_hashGetAll]
  constructor
  · rintro ⟨⟨k, n, v⟩, hmem, heq⟩
    cases heq
    have hkey := of_decide_eq_true (List.mem_filter.mp hmem).2
    cases hkey
    exact hmem
  · exact fun hmem => ⟨_, hmem, rfl⟩

/-- `GetOnlineUsers` lists what the tenant's hash holds. -/
theorem reports_getOnlineUsers : Reports (r.getOnlineUsers now tenantId) u c ↔
    ⟨.connectionToUser tenantId, c, u⟩ ∈ r.hashes.entries := by
  rw [← mem_connectionPairs, ← lists_userConnections]
  simp only [Reports, Lists, getOnlineUsers, List.mem_map, exists_exists_and_eq_and]

theorem online_iff : (∃ user ∈ r.getOnlineUsers now tenantId, user.userId = u) ↔
    ∃ c, ⟨.connectionToUser tenantId, c, u⟩ ∈ r.hashes.entries := by
  simp only [← mem_connectionPairs, ← listed_iff]
  simp only [getOnlineUsers, List.mem_map, exists_exists_and_eq_and]

/-- Nobody is on a page on account of a connection that the tenant's hash does not hold. -/
theorem reports_getUsersOnPage (h : Reports (r.getUsersOnPage now tenantId pageContext) u c) :
    ⟨.connectionToUser tenantId, c, u⟩ ∈ r.hashes.entries := by
  have hlists : Lists (userConnections
      ((r.setMembers now (.pageViewers tenantId pageContext)).filterMap fun connId =>
        ((r.hashGet (.connectionToUser tenantId) connId).filter (· ≠ "")).map fun userId =>
          (userId, connId))) u c := by
    simpa only [Reports, Lists, getUsersOnPage, List.mem_map, exists_exists_and_eq_and] using h
  obtain ⟨connId, -, hpair⟩ := List.mem_filterMap.mp (lists_userConnections.mp hlists)
  obtain ⟨userId, hget, heq⟩ := Option.map_eq_some_iff.mp hpair
  cases heq
  exact hashGet_eq_some_iff.mp (Option.filter_eq_some_iff.mp hget).1

theorem isUserOnline_iff :
    r.isUserOnline now tenantId u = true ↔
      ∃ c, c ∈ r.setMembers now (.userConnections tenantId u) := by
  rw [isUserOnline, decide_eq_true_eq, setLength]
  exact List.length_pos_iff_exists_mem

end PresenceRedis

end Wallow.Api
