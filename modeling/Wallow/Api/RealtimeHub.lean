import Wallow.Api.GuidText
import Wallow.Lib.Transition
import Mathlib.Data.List.TakeWhile

/-!
# Groups of the realtime hub

`RealtimeHub.cs` over the group memberships of all its connections.  A connection has the tenant,
the user and the roles it was authenticated with; what it calls the hub with is arbitrary text.
-/

namespace Wallow.Api

open Transition

/-! ## The caller -/

structure HubCaller where
  tenantId : TenantId
  userId : Option String
  roles : List String
  deriving DecidableEq

/-- `StringComparison.OrdinalIgnoreCase`, for a word of ASCII letters. -/
def equalsIgnoreCase (text word : String) : Bool :=
  text.toList.map Char.toLower = word.toList.map Char.toLower

def HubCaller.isStaffUser (caller : HubCaller) : Bool :=
  caller.roles.any fun role => equalsIgnoreCase role "admin" || equalsIgnoreCase role "manager"

/-! ## Group names -/

def tenantGroup (tenantId : TenantId) : String := "tenant:" ++ tenantId.toString

def staffGroup (tenantId : TenantId) : String := "tenant:" ++ tenantId.toString ++ ":staff"

def pageGroup (tenantId : TenantId) (pageContext : String) : String :=
  "page:" ++ tenantId.toString ++ ":" ++ pageContext

def userGroup (userId : String) : String := "user:" ++ userId

/-- `StringComparison.Ordinal`. -/
def startsWith (text start : String) : Bool :=
  start.toList.isPrefixOf text.toList

def allowedGroupPrefixes : List String := ["tenant:", "user:", "page:"]

def hasAllowedPrefix (groupId : String) : Bool :=
  allowedGroupPrefixes.any fun start => startsWith groupId start

/-- The text up to the next colon. -/
def segment (text : List Char) : List Char := text.takeWhile (· ≠ ':')

def validateTenantGroup (tenantId : TenantId) (groupId : String) : Except String Unit :=
  if !startsWith groupId "tenant:" then .ok ()
  else match tryParse (segment (groupId.toList.drop 7)) with
    | none => .error "Invalid tenant group format."
    | some groupTenantId =>
      if groupTenantId ≠ tenantId then .error "Access denied: tenant mismatch." else .ok ()

/-! ## The hub -/

structure Hub where
  /-- Pairs of a connection and a group it is in. -/
  groups : List (Nat × String)
  /-- `Context.Items["CurrentPageGroup"]` of a connection. -/
  currentPageGroup : Nat → Option String

namespace Hub

def initial : Hub := ⟨[], fun _ => none⟩

def addToGroup (s : Hub) (connection : Nat) (groupName : String) : Hub :=
  { s with groups := s.groups.insert (connection, groupName) }

def removeFromGroup (s : Hub) (connection : Nat) (groupName : String) : Hub :=
  { s with groups := s.groups.filter (· ≠ (connection, groupName)) }

def onConnected (s : Hub) (connection : Nat) (caller : HubCaller) : Hub :=
  match caller.userId with
  | none => s
  | some _ =>
    let s := s.addToGroup connection (tenantGroup caller.tenantId)
    if caller.isStaffUser then s.addToGroup connection (staffGroup caller.tenantId) else s

def checkGroup (caller : HubCaller) (groupId : String) : Except String Unit :=
  if hasAllowedPrefix groupId then validateTenantGroup caller.tenantId groupId
  else .error "Invalid group name."

def joinGroup (s : Hub) (connection : Nat) (caller : HubCaller) (groupId : String) :
    Except String Hub := do
  checkGroup caller groupId
  return s.addToGroup connection groupId

def leaveGroup (s : Hub) (connection : Nat) (caller : HubCaller) (groupId : String) :
    Except String Hub := do
  checkGroup caller groupId
  return s.removeFromGroup connection groupId

def updatePageContext (s : Hub) (connection : Nat) (caller : HubCaller) (pageContext : String) :
    Hub :=
  match caller.userId with
  | none => s
  | some _ =>
    let newPageGroup := pageGroup caller.tenantId pageContext
    let s := match s.currentPageGroup connection with
      | none => s
      | some oldPageGroup => s.removeFromGroup connection oldPageGroup
    let s := { s with
      currentPageGroup := Function.update s.currentPageGroup connection (some newPageGroup) }
    s.addToGroup connection newPageGroup

end Hub

inductive HubCall
  | onConnected (connection : Nat)
  | joinGroup (connection : Nat) (groupId : String)
  | leaveGroup (connection : Nat) (groupId : String)
  | updatePageContext (connection : Nat) (pageContext : String)

namespace Hub

/-- An invocation that throws leaves the hub alone. -/
def step (callers : Nat → HubCaller) (s : Hub) : HubCall → Option Hub
  | .onConnected connection => some (s.onConnected connection (callers connection))
  | .joinGroup connection groupId =>
    some ((s.joinGroup connection (callers connection) groupId).toOption.getD s)
  | .leaveGroup connection groupId =>
    some ((s.leaveGroup connection (callers connection) groupId).toOption.getD s)
  | .updatePageContext connection pageContext =>
    some (s.updatePageContext connection (callers connection) pageContext)

end Hub

/-! ## Whose group it is -/

/-- The tenant that a `tenant:` or `page:` name spells. -/
def groupTenant (groupId : String) : Option TenantId :=
  if startsWith groupId "tenant:" then tryParse (segment (groupId.toList.drop 7))
  else if startsWith groupId "page:" then tryParse (segment (groupId.toList.drop 5))
  else none

/-- The privileged subgroup of a tenant. -/
def isStaffGroup (groupId : String) : Bool :=
  startsWith groupId "tenant:" &&
    (groupId.toList.drop 7).dropWhile (· ≠ ':') = ":staff".toList

/-- A group of the caller's tenant, the privileged one for staff only, or the caller's own. -/
def Entitled (caller : HubCaller) (groupId : String) : Prop :=
  (groupTenant groupId = some caller.tenantId ∧
    (isStaffGroup groupId = true → caller.isStaffUser = true)) ∨
  caller.userId.map userGroup = some groupId

instance (caller : HubCaller) (groupId : String) : Decidable (Entitled caller groupId) :=
  inferInstanceAs (Decidable (_ ∨ _))

namespace Hub

/-- Every connection is in groups it is entitled to only, and no two tenants share one. -/
structure Isolated (callers : Nat → HubCaller) (s : Hub) : Prop where
  entitled : ∀ connection groupId, (connection, groupId) ∈ s.groups →
    Entitled (callers connection) groupId
  apart : ∀ connection other groupId, (connection, groupId) ∈ s.groups →
    (other, groupId) ∈ s.groups → (callers other).tenantId = (callers connection).tenantId

/-- Nobody of another tenant is in the group. -/
def freeOfOthers (callers : Nat → HubCaller) (s : Hub) (tenantId : TenantId)
    (groupId : String) : Bool :=
  s.groups.all fun (other, group) => group ≠ groupId || (callers other).tenantId = tenantId

/-- A join that the hub lets through is one to a group the caller is entitled to. -/
def joinsOwn (callers : Nat → HubCaller) (s : Hub) : HubCall → Bool
  | .joinGroup connection groupId =>
    (checkGroup (callers connection) groupId).toOption.isNone ||
      (Entitled (callers connection) groupId &&
        s.freeOfOthers callers (callers connection).tenantId groupId)
  | _ => true

end Hub

/-! ## The names the hub builds -/

theorem startsWith_of_toList {text start : String} {rest : List Char}
    (h : text.toList = start.toList ++ rest) : startsWith text start = true := by
  rw [startsWith, h, List.isPrefixOf_iff_prefix]
  exact List.prefix_append _ _

/-- The segment of a name that goes on after the tenant's id, or ends with it. -/
theorem segment_chars (tenantId : TenantId) {rest : List Char}
    (h : rest.takeWhile (· ≠ ':') = []) : segment (tenantId.chars ++ rest) = tenantId.chars := by
  have hnot : ∀ c ∈ tenantId.chars, decide (c ≠ ':') = true := by
    intro c hc
    rw [decide_eq_true_eq]
    rintro rfl
    exact (mem_chars hc).toNat.2.2 rfl
  rw [segment, List.takeWhile_append_of_pos hnot, h, List.append_nil]

theorem groupTenant_of_tenant {groupId : String} {rest : List Char}
    (h : groupId.toList = "tenant:".toList ++ rest) :
    groupTenant groupId = tryParse (segment rest) := by
  rw [groupTenant, if_pos (startsWith_of_toList h), h]
  rfl

theorem groupTenant_of_page {groupId : String} {rest : List Char}
    (h : groupId.toList = "page:".toList ++ rest) :
    groupTenant groupId = tryParse (segment rest) := by
  have hpage : startsWith groupId "tenant:" = false := by
    rw [startsWith, h]
    simp [List.isPrefixOf]
  rw [groupTenant, hpage, if_neg Bool.false_ne_true, if_pos (startsWith_of_toList h), h]
  rfl

theorem toList_tenantGroup (tenantId : TenantId) :
    (tenantGroup tenantId).toList = "tenant:".toList ++ (tenantId.chars ++ []) := by
  rw [tenantGroup, String.toList_append, toList_toString, List.append_nil]

theorem toList_staffGroup (tenantId : TenantId) : (staffGroup tenantId).toList =
    "tenant:".toList ++ (tenantId.chars ++ ":staff".toList) := by
  rw [staffGroup, String.toList_append, String.toList_append, toList_toString,
    List.append_assoc]

theorem toList_pageGroup (tenantId : TenantId) (pageContext : String) :
    (pageGroup tenantId pageContext).toList =
      "page:".toList ++ (tenantId.chars ++ (":".toList ++ pageContext.toList)) := by
  rw [pageGroup, String.toList_append, String.toList_append, String.toList_append,
    toList_toString, List.append_assoc, List.append_assoc]

@[simp] theorem groupTenant_tenantGroup (tenantId : TenantId) :
    groupTenant (tenantGroup tenantId) = some tenantId := by
  rw [groupTenant_of_tenant (toList_tenantGroup tenantId), segment_chars tenantId rfl,
    tryParse_chars]

@[simp] theorem groupTenant_staffGroup (tenantId : TenantId) :
    groupTenant (staffGroup tenantId) = some tenantId := by
  rw [groupTenant_of_tenant (toList_staffGroup tenantId), segment_chars tenantId (by decide),
    tryParse_chars]

@[simp] theorem groupTenant_pageGroup (tenantId : TenantId) (pageContext : String) :
    groupTenant (pageGroup tenantId pageContext) = some tenantId := by
  rw [groupTenant_of_page (toList_pageGroup tenantId pageContext),
    segment_chars tenantId (by simp), tryParse_chars]

@[simp] theorem groupTenant_userGroup (userId : String) :
    groupTenant (userGroup userId) = none := by
  have htenant : startsWith (userGroup userId) "tenant:" = false := by
    simp [startsWith, userGroup, List.isPrefixOf]
  have hpage : startsWith (userGroup userId) "page:" = false := by
    simp [startsWith, userGroup, List.isPrefixOf]
  rw [groupTenant, htenant, hpage]
  rfl

@[simp] theorem isStaffGroup_tenantGroup (tenantId : TenantId) :
    isStaffGroup (tenantGroup tenantId) = false := by
  have hnot : ∀ c ∈ tenantId.chars, decide (c ≠ ':') = true := by
    intro c hc
    rw [decide_eq_true_eq]
    rintro rfl
    exact (mem_chars hc).toNat.2.2 rfl
  have hnone : ((tenantGroup tenantId).toList.drop 7).dropWhile (· ≠ ':') = [] := by
    rw [toList_tenantGroup, List.append_nil]
    exact List.dropWhile_eq_nil_iff.mpr hnot
  rw [isStaffGroup, hnone, Bool.and_eq_false_iff]
  exact Or.inr (by decide)

@[simp] theorem isStaffGroup_pageGroup (tenantId : TenantId) (pageContext : String) :
    isStaffGroup (pageGroup tenantId pageContext) = false := by
  have hpage : startsWith (pageGroup tenantId pageContext) "tenant:" = false := by
    rw [startsWith, toList_pageGroup]
    simp [List.isPrefixOf]
  rw [isStaffGroup, hpage, Bool.false_and]

namespace Hub

variable {callers : Nat → HubCaller} {s s' : Hub}

/-! ## Steps -/

@[simp] theorem mem_addToGroup {connection other : Nat} {groupName group : String} :
    (other, group) ∈ (s.addToGroup connection groupName).groups ↔
      (other = connection ∧ group = groupName) ∨ (other, group) ∈ s.groups := by
  rw [addToGroup, List.mem_insert_iff, Prod.mk.injEq]

theorem mem_removeFromGroup {connection other : Nat} {groupName group : String}
    (h : (other, group) ∈ (s.removeFromGroup connection groupName).groups) :
    (other, group) ∈ s.groups :=
  (List.mem_filter.mp h).1

/-- Two callers entitled to one group are of one tenant, or are one user. -/
theorem Isolated.eq_tenant (h : Isolated callers s) {other : Nat} {groupId : String}
    (hother : (other, groupId) ∈ s.groups) {tenantId : TenantId}
    (htenant : groupTenant groupId = some tenantId) : (callers other).tenantId = tenantId := by
  -- a group with a tenant in its name is no user's group
  cases h.entitled other groupId hother with
  | inl hown => exact Option.some.inj (hown.1.symm.trans htenant)
  | inr huser =>
    obtain ⟨userId, -, rfl⟩ := Option.map_eq_some_iff.mp huser
    rw [groupTenant_userGroup] at htenant
    cases htenant

theorem Isolated.addToGroup_iff (h : Isolated callers s) {connection : Nat} {groupId : String} :
    Isolated callers (s.addToGroup connection groupId) ↔
      Entitled (callers connection) groupId ∧
        s.freeOfOthers callers (callers connection).tenantId groupId = true := by
  have hfree : s.freeOfOthers callers (callers connection).tenantId groupId = true ↔
      ∀ other, (other, groupId) ∈ s.groups →
        (callers other).tenantId = (callers connection).tenantId := by
    simp only [freeOfOthers, List.all_eq_true, Bool.or_eq_true, decide_eq_true_eq]
    constructor
    · intro hall other hother
      exact (hall _ hother).resolve_left fun hne => hne rfl
    · rintro hall ⟨other, group⟩ hmem
      by_cases hgroup : group = groupId
      · subst hgroup
        exact Or.inr (hall other hmem)
      · exact Or.inl hgroup
  rw [hfree]
  -- a newcomer must be entitled and meet nobody of another tenant; nobody else changes
  constructor
  · intro hall
    have hnew : (connection, groupId) ∈ (s.addToGroup connection groupId).groups :=
      mem_addToGroup.mpr (Or.inl ⟨rfl, rfl⟩)
    exact ⟨hall.entitled _ _ hnew, fun other hother =>
      hall.apart connection other groupId hnew (mem_addToGroup.mpr (Or.inr hother))⟩
  · rintro ⟨hentitled, hothers⟩
    refine ⟨fun c g hmem => ?_, fun c c' g hmem hmem' => ?_⟩
    · rcases mem_addToGroup.mp hmem with ⟨rfl, rfl⟩ | hold
      · exact hentitled
      · exact h.entitled c g hold
    · rcases mem_addToGroup.mp hmem with ⟨rfl, rfl⟩ | hold
      · rcases mem_addToGroup.mp hmem' with ⟨rfl, -⟩ | hold'
        · rfl
        · exact hothers c' hold'
      · rcases mem_addToGroup.mp hmem' with ⟨rfl, rfl⟩ | hold'
        · exact (hothers c hold).symm
        · exact h.apart c c' g hold hold'

/-- A group that spells the caller's tenant has nobody of another. -/
theorem Isolated.addToGroup (h : Isolated callers s) {connection : Nat} {groupId : String}
    (htenant : groupTenant groupId = some (callers connection).tenantId)
    (hstaff : isStaffGroup groupId = true → (callers connection).isStaffUser = true) :
    Isolated callers (s.addToGroup connection groupId) := by
  refine h.addToGroup_iff.mpr ⟨Or.inl ⟨htenant, hstaff⟩, ?_⟩
  simp only [freeOfOthers, List.all_eq_true, Bool.or_eq_true, decide_eq_true_eq]
  rintro ⟨other, group⟩ hmem
  by_cases hgroup : group = groupId
  · subst hgroup
    exact Or.inr (h.eq_tenant hmem htenant)
  · exact Or.inl hgroup

theorem Isolated.removeFromGroup (h : Isolated callers s) (connection : Nat) (groupId : String) :
    Isolated callers (s.removeFromGroup connection groupId) where
  entitled := fun c g hmem => h.entitled c g (mem_removeFromGroup hmem)
  apart := fun c c' g hmem hmem' =>
    h.apart c c' g (mem_removeFromGroup hmem) (mem_removeFromGroup hmem')

theorem Isolated.onConnected (h : Isolated callers s) (connection : Nat) :
    Isolated callers (s.onConnected connection (callers connection)) := by
  unfold Hub.onConnected
  split
  · exact h
  · have htenant := h.addToGroup (groupTenant_tenantGroup (callers connection).tenantId)
      fun hstaff => by simp at hstaff
    dsimp only
    split
    · rename_i hstaff
      exact htenant.addToGroup (groupTenant_staffGroup (callers connection).tenantId)
        fun _ => hstaff
    · exact htenant

theorem Isolated.updatePageContext (h : Isolated callers s) (connection : Nat)
    (pageContext : String) :
    Isolated callers (s.updatePageContext connection (callers connection) pageContext) := by
  unfold Hub.updatePageContext
  split
  · exact h
  · dsimp only
    refine Isolated.addToGroup ?_ (groupTenant_pageGroup (callers connection).tenantId pageContext)
      fun hstaff => by simp at hstaff
    split
    · exact ⟨h.entitled, h.apart⟩
    · rename_i oldPageGroup _
      have hleft := h.removeFromGroup connection oldPageGroup
      exact ⟨hleft.entitled, hleft.apart⟩

theorem joinGroup_eq (s : Hub) (connection : Nat) (caller : HubCaller) (groupId : String) :
    (s.joinGroup connection caller groupId).toOption.getD s =
      if (checkGroup caller groupId).toOption.isNone then s
      else s.addToGroup connection groupId := by
  unfold joinGroup
  cases checkGroup caller groupId <;> rfl

theorem Isolated.leaveGroup (h : Isolated callers s) (connection : Nat) (groupId : String) :
    Isolated callers
      ((s.leaveGroup connection (callers connection) groupId).toOption.getD s) := by
  unfold Hub.leaveGroup
  cases checkGroup (callers connection) groupId with
  | error message => exact h
  | ok _ => exact h.removeFromGroup connection groupId

/-- From an isolated hub, a call leaves the hub isolated exactly when a join it lets through is the
caller's to make. -/
theorem Isolated.step_iff (h : Isolated callers s) {call : HubCall}
    (hs : step callers s call = some s') :
    Isolated callers s' ↔ s.joinsOwn callers call = true := by
  cases call with
  | onConnected connection =>
    cases hs
    exact iff_of_true (h.onConnected connection) rfl
  | leaveGroup connection groupId =>
    cases hs
    exact iff_of_true (h.leaveGroup connection groupId) rfl
  | updatePageContext connection pageContext =>
    cases hs
    exact iff_of_true (h.updatePageContext connection pageContext) rfl
  | joinGroup connection groupId =>
    cases hs
    rw [joinGroup_eq]
    cases hrefused : (checkGroup (callers connection) groupId).toOption.isNone with
    | true => exact iff_of_true h (by simp [joinsOwn, hrefused])
    | false =>
      rw [if_neg Bool.false_ne_true, h.addToGroup_iff]
      simp [joinsOwn, hrefused]

theorem isolated_initial (callers : Nat → HubCaller) : Isolated callers initial := ⟨nofun, nofun⟩

/-! ## Sequences of invocations -/

/-- Connection 0 is an admin of tenant 1, every other one a plain user of tenant 2. -/
def twoTenants : Nat → HubCaller
  | 0 => ⟨1, some "ann", ["Admin"]⟩
  | _ => ⟨2, some "bob", []⟩

end Hub

end Wallow.Api
