import Wallow.Lib.Memo
import Wallow.Lib.SplitText
import Wallow.Identity.PermissionExpansion
import Mathlib.Data.List.Forall2

/-!
# Permissions asked for one after another

The calls of `RolePermissionMapping.GetPermissions` in one process, over the cache they share: its
key is the text of the sorted names with `|` between them, and an entry stays for good.
-/

namespace Wallow.Identity

open Wallow.Shared SplitText

variable (casing : OrdinalCasing)

/-- The answers of calls that follow each other. -/
def rolePermissionAnswers : RoleCache → List (List String) → List (List String)
  | _, [] => []
  | cache, roles :: later =>
    let (permissions, cache) := getRolePermissions casing cache roles
    permissions :: rolePermissionAnswers cache later

/-- A known role of this name has the permission. -/
def Grants (role permission : String) : Prop :=
  ∃ known ∈ rolePermissions, casing.equals known.1 role = true ∧ permission ∈ known.2

/-- The union of the known roles' permissions, without regard to order. -/
def IsUnion (roles permissions : List String) : Prop :=
  ∀ permission, permission ∈ permissions ↔ ∃ role ∈ roles, Grants casing role permission

/-- The names in their order, each cut at every `|`. -/
def namePieces (roles : List String) : List (List Char) :=
  (casing.orderBy roles).flatMap fun role => role.toList.splitOn '|'

variable {casing}

/-! ## One call -/

theorem find?_of_unique {α : Type} {entries : List α} {p : α → Bool} {a : α} (ha : a ∈ entries)
    (hp : p a = true) (h : ∀ b ∈ entries, p b = true → b = a) : entries.find? p = some a := by
  cases hfind : entries.find? p with
  | none => exact absurd hp (List.find?_eq_none.mp hfind a ha)
  | some b => rw [h b (List.mem_of_find?_eq_some hfind) (List.find?_some hfind)]

/-- The known names differ without regard to case. -/
theorem known_unique {known other : String × List String} {role : String}
    (hknown : known ∈ rolePermissions) (hother : other ∈ rolePermissions)
    (h : casing.equals known.1 role = true) (h' : casing.equals other.1 role = true) :
    other = known := by
  have hsame : casing.equals known.1 other.1 = true := by
    unfold OrdinalCasing.equals at h h' ⊢
    rw [decide_eq_true_eq] at h h' ⊢
    rw [h, h']
  have hascii : ∀ entry ∈ rolePermissions, casing.upperText entry.1 =
      entry.1.toList.map Char.toUpper := by
    intro entry hentry
    refine List.map_congr_left fun c hc => casing.upper_ascii c ?_
    have hall : (rolePermissions.all fun entry => entry.1.toList.all fun c => c.toNat < 128) =
        true := by decide +kernel
    exact of_decide_eq_true (List.all_eq_true.mp (List.all_eq_true.mp hall entry hentry) c hc)
  unfold OrdinalCasing.equals at hsame
  rw [decide_eq_true_eq, hascii known hknown, hascii other hother] at hsame
  have hall : ∀ known ∈ rolePermissions, ∀ other ∈ rolePermissions,
      known.1.toList.map Char.toUpper = other.1.toList.map Char.toUpper → other = known := by
    decide +kernel
  exact hall known hknown other hother hsame

theorem isUnion_permissionsOfRoles (roles : List String) :
    IsUnion casing roles (permissionsOfRoles casing roles) := by
  intro permission
  unfold permissionsOfRoles Grants
  rw [List.mem_eraseDups, List.mem_flatMap]
  constructor
  · intro ⟨role, hrole, hmem⟩
    cases hfind : rolePermissions.find? fun entry => casing.equals entry.1 role with
    | none =>
      rw [hfind] at hmem
      cases hmem
    | some known =>
      rw [hfind] at hmem
      have hequals := List.find?_some hfind
      exact ⟨role, hrole, known, List.mem_of_find?_eq_some hfind, hequals, hmem⟩
  · intro ⟨role, hrole, known, hknown, hequals, hmem⟩
    refine ⟨role, hrole, ?_⟩
    rw [find?_of_unique hknown hequals fun other hother h => known_unique hknown hother hequals h]
    exact hmem

/-! ## What the key tells -/

theorem orderBy_perm (roles : List String) : (casing.orderBy roles).Perm roles :=
  List.mergeSort_perm roles _

theorem orderBy_nil : casing.orderBy [] = [] := by
  apply List.eq_nil_of_length_eq_zero
  rw [(orderBy_perm []).length_eq]
  rfl

theorem roleCacheKey_nil : roleCacheKey casing [] = "" := by
  rw [roleCacheKey, orderBy_nil]
  rfl

theorem splitOn_roleCacheKey {roles : List String} (h : roles ≠ []) :
    (roleCacheKey casing roles).toList.splitOn '|' = namePieces casing roles := by
  have hsorted : (casing.orderBy roles).map String.toList ≠ [] := by
    intro hnil
    have hlength := (@orderBy_perm casing roles).length_eq
    rw [List.map_eq_nil_iff] at hnil
    rw [hnil] at hlength
    exact h (List.length_eq_zero_iff.mp hlength.symm)
  unfold roleCacheKey namePieces
  rw [String.toList_ofList, splitOn_intercalate_eq hsorted, List.flatMap_map]

/-- The key of no role is that of an empty name, for which there is no permission either. -/
theorem not_granted_of_key_empty {roles : List String} (h : roleCacheKey casing roles = "") :
    ∀ role ∈ roles, ∀ permission, ¬Grants casing role permission := by
  intro role hrole permission ⟨known, hknown, hequals, _⟩
  have hempty : role = "" := by
    have hkey : (['|'].intercalate ((casing.orderBy roles).map String.toList)) = [] := by
      have htext := congrArg String.toList h
      rw [roleCacheKey, String.toList_ofList] at htext
      exact htext
    have hmem : role.toList ∈ (casing.orderBy roles).map String.toList :=
      List.mem_map_of_mem ((orderBy_perm roles).mem_iff.mpr hrole)
    have hinfix : role.toList <:+: ['|'].intercalate _ := infix_intercalate_of_mem hmem
    rw [hkey] at hinfix
    exact String.toList_eq_nil_iff.mp (List.infix_nil.mp hinfix)
  subst hempty
  have hlength : ∀ known ∈ rolePermissions, 0 < known.1.toList.length := by decide
  unfold OrdinalCasing.equals OrdinalCasing.upperText at hequals
  rw [decide_eq_true_eq] at hequals
  have hnone := congrArg List.length hequals
  rw [List.length_map, List.length_map] at hnone
  have hsome := hlength known hknown
  rw [hnone] at hsome
  exact absurd hsome (by decide)

/-- Lists with one key have the same pieces, or neither is granted anything. -/
theorem roleCacheKey_cases {roles others : List String}
    (h : roleCacheKey casing roles = roleCacheKey casing others) :
    namePieces casing roles = namePieces casing others ∨
      ∀ permission, ¬(∃ role ∈ roles, Grants casing role permission) ∧
        ¬∃ role ∈ others, Grants casing role permission := by
  by_cases hroles : roles = []
  · subst hroles
    have hkey : roleCacheKey casing [] = "" := roleCacheKey_nil
    right
    intro permission
    constructor
    · intro ⟨role, hrole, _⟩
      cases hrole
    · intro ⟨role, hrole, hgrants⟩
      exact not_granted_of_key_empty (h.symm.trans hkey) role hrole permission hgrants
  · by_cases hothers : others = []
    · subst hothers
      have hkey : roleCacheKey casing [] = "" := roleCacheKey_nil
      right
      intro permission
      constructor
      · intro ⟨role, hrole, hgrants⟩
        exact not_granted_of_key_empty (h.trans hkey) role hrole permission hgrants
      · intro ⟨role, hrole, _⟩
        cases hrole
    · left
      rw [← splitOn_roleCacheKey hroles, h, splitOn_roleCacheKey hothers]

theorem roleCacheKey_eq_of_pieces {roles others : List String}
    (h : namePieces casing roles = namePieces casing others) :
    roleCacheKey casing roles = roleCacheKey casing others := by
  have hjoined : ∀ roles, (['|'].intercalate (namePieces casing roles)) =
      (roleCacheKey casing roles).toList := by
    intro roles
    by_cases hroles : roles = []
    · subst hroles
      rw [roleCacheKey_nil, namePieces, orderBy_nil]
      rfl
    · rw [← splitOn_roleCacheKey hroles, List.intercalate_splitOn]
  apply String.toList_inj.mp
  rw [← hjoined, ← hjoined, h]

/-! ## Calls after each other -/

/-- The cache as a function of its key. -/
abbrev RoleCache.entry (cache : RoleCache) (key : String) : Option (List String) := cache.lookup key

/-- What a call answers and leaves: what is kept, or else the permissions of its own roles. -/
theorem getRolePermissions_cases (cache : RoleCache) (roles : List String) :
    let key := roleCacheKey casing roles
    let after := getRolePermissions casing cache roles
    (∃ permissions, cache.lookup key = some permissions ∧ after = (permissions, cache)) ∨
      (cache.lookup key = none ∧ after.1 = permissionsOfRoles casing roles ∧
        after.2.entry = Function.update cache.entry key
          (some (permissionsOfRoles casing roles))) := by
  intro key after
  cases hlookup : cache.lookup key with
  | some permissions =>
    left
    refine ⟨permissions, rfl, ?_⟩
    show getRolePermissions casing cache roles = _
    rw [getRolePermissions, hlookup]
  | none =>
    right
    have hafter : after = (permissionsOfRoles casing roles,
        (key, permissionsOfRoles casing roles) :: cache) := by
      show getRolePermissions casing cache roles = _
      rw [getRolePermissions, hlookup]
    rw [hafter]
    refine ⟨rfl, rfl, ?_⟩
    funext k
    show List.lookup k (_ :: cache) = _
    rw [List.lookup_cons]
    by_cases hk : k = key
    · subst hk
      rw [beq_self_eq_true, Function.update_self]
    · rw [beq_false_of_ne hk, Function.update_of_ne hk]

/-- The answer of a call is the one kept for its key from then on. -/
theorem lookup_getRolePermissions (cache : RoleCache) (roles : List String) :
    (getRolePermissions casing cache roles).2.lookup (roleCacheKey casing roles) =
      some (getRolePermissions casing cache roles).1 := by
  cases @getRolePermissions_cases casing cache roles with
  | inl h =>
    have ⟨permissions, hlookup, hafter⟩ := h
    rw [hafter]
    exact hlookup
  | inr h =>
    have ⟨_, hanswer, hcache⟩ := h
    show (getRolePermissions casing cache roles).2.entry _ = _
    rw [hcache, hanswer, Function.update_self]

/-- The answer is the permissions of a list that was asked, whose key is that of this one. -/
theorem kept_getRolePermissions {asked : List (List String)} {cache : RoleCache}
    (h : Memo.Kept (roleCacheKey casing) (permissionsOfRoles casing) asked cache.entry)
    {roles : List String} (hroles : roles ∈ asked) :
    Memo.Kept (roleCacheKey casing) (permissionsOfRoles casing) asked
        (getRolePermissions casing cache roles).2.entry ∧
      ∃ others ∈ asked, roleCacheKey casing others = roleCacheKey casing roles ∧
        (getRolePermissions casing cache roles).1 = permissionsOfRoles casing others := by
  cases @getRolePermissions_cases casing cache roles with
  | inl hhit =>
    have ⟨permissions, hlookup, hafter⟩ := hhit
    rw [hafter]
    exact ⟨h, h _ _ hlookup⟩
  | inr hmiss =>
    have ⟨_, hanswer, hcache⟩ := hmiss
    rw [hcache, hanswer]
    exact ⟨h.put hroles, roles, hroles, rfl, rfl⟩

/-- What is kept under a key stays, and answers every later call of that key. -/
theorem answers_of_lookup {cache : RoleCache} {history : List (List String)} {key : String}
    {permissions : List String} (h : cache.lookup key = some permissions) :
    List.Forall₂ (fun roles answer => roleCacheKey casing roles = key → answer = permissions)
      history (rolePermissionAnswers casing cache history) := by
  induction history generalizing cache with
  | nil => exact .nil
  | cons roles later ih =>
    have hgrow := (@getRolePermissions_repeats casing roles cache).1
    refine .cons (fun hkey => ?_) (ih (hgrow key permissions h))
    have hanswer := @lookup_getRolePermissions casing cache roles
    rw [hkey, hgrow key permissions h, Option.some.injEq] at hanswer
    exact hanswer.symm

/-- The calls whose lists have the key of one another get one answer. -/
theorem answers_of_key (cache : RoleCache) (history : List (List String)) (key : String) :
    ∃ permissions, List.Forall₂
      (fun roles answer => roleCacheKey casing roles = key → answer = permissions)
      history (rolePermissionAnswers casing cache history) := by
  induction history generalizing cache with
  | nil => exact ⟨[], .nil⟩
  | cons roles later ih =>
    by_cases hkey : roleCacheKey casing roles = key
    · have hanswer := @lookup_getRolePermissions casing cache roles
      rw [hkey] at hanswer
      exact ⟨_, .cons (fun _ => rfl) (answers_of_lookup hanswer)⟩
    · have ⟨permissions, hlater⟩ := ih (getRolePermissions casing cache roles).2
      exact ⟨permissions, .cons (fun h => absurd h hkey) hlater⟩

/-- Lists of one cut are granted the same, wherever both are asked for. -/
def PiecesTell (casing : OrdinalCasing) (history : List (List String)) : Prop :=
  ∀ roles ∈ history, ∀ others ∈ history, namePieces casing roles = namePieces casing others →
    ∀ permission, (∃ role ∈ roles, Grants casing role permission) ↔
      ∃ role ∈ others, Grants casing role permission

theorem PiecesTell.key {history : List (List String)} (h : PiecesTell casing history)
    {roles others : List String} (hroles : roles ∈ history) (hothers : others ∈ history)
    (hkey : roleCacheKey casing roles = roleCacheKey casing others) (permission : String) :
    (∃ role ∈ roles, Grants casing role permission) ↔
      ∃ role ∈ others, Grants casing role permission := by
  cases roleCacheKey_cases hkey with
  | inl hpieces => exact h roles hroles others hothers hpieces permission
  | inr hnone => exact iff_of_false (hnone permission).1 (hnone permission).2

theorem answered_of_piecesTell {history : List (List String)} (h : PiecesTell casing history) :
    List.Forall₂ (IsUnion casing) history (rolePermissionAnswers casing [] history) := by
  -- over the calls still to come, all of them calls of the history
  have hrun : ∀ calls cache, (∀ roles ∈ calls, roles ∈ history) →
      Memo.Kept (roleCacheKey casing) (permissionsOfRoles casing) history
        cache.entry →
      List.Forall₂ (IsUnion casing) calls (rolePermissionAnswers casing cache calls) := by
    intro calls
    induction calls with
    | nil => exact fun _ _ _ => .nil
    | cons roles later ih =>
      intro cache hcalls hkept
      have hroles := hcalls roles List.mem_cons_self
      have ⟨hafter, others, hothers, hkey, hanswer⟩ := kept_getRolePermissions hkept hroles
      have hunion : IsUnion casing roles (getRolePermissions casing cache roles).1 := by
        intro permission
        rw [hanswer, isUnion_permissionsOfRoles others permission]
        exact h.key hothers hroles hkey permission
      exact .cons hunion
        (ih _ (fun called hmem => hcalls called (List.mem_cons_of_mem _ hmem)) hafter)
  exact hrun history [] (fun _ h => h) Memo.Kept.empty

theorem exists_of_forall₂ {α β : Type} {P Q : α → β → Prop} {xs : List α} {ys : List β}
    (hP : List.Forall₂ P xs ys) (hQ : List.Forall₂ Q xs ys) {x : α} (hx : x ∈ xs) :
    ∃ y, P x y ∧ Q x y := by
  induction hP with
  | nil => cases hx
  | cons hp _ ih =>
    cases hQ with
    | cons hq hrest =>
      cases List.mem_cons.mp hx with
      | inl heq => exact ⟨_, heq ▸ hp, heq ▸ hq⟩
      | inr hmem => exact ih hrest hmem

theorem piecesTell_of_answered {history : List (List String)}
    (h : List.Forall₂ (IsUnion casing) history (rolePermissionAnswers casing [] history)) :
    PiecesTell casing history := by
  intro roles hroles others hothers hpieces permission
  have hkey := roleCacheKey_eq_of_pieces hpieces
  have ⟨permissions, hsame⟩ :=
    @answers_of_key casing [] history (roleCacheKey casing others)
  have hunion : ∀ list ∈ history, roleCacheKey casing list = roleCacheKey casing others →
      IsUnion casing list permissions := by
    intro list hlist hlistKey
    have ⟨answer, hright, hkept⟩ := exists_of_forall₂ h hsame hlist
    rw [← hkept hlistKey]
    exact hright
  rw [← hunion roles hroles hkey permission, ← hunion others hothers rfl permission]

/-- Every call of a history gets the union of its roles' permissions exactly if no two of its lists
have names that give the same pieces when cut at `|`, and roles that grant different ones. -/
theorem every_call_gets_its_union_iff (casing : OrdinalCasing) (history : List (List String)) :
    List.Forall₂ (IsUnion casing) history (rolePermissionAnswers casing [] history) ↔
      ∀ roles ∈ history, ∀ others ∈ history,
        namePieces casing roles = namePieces casing others →
        ∀ permission, (∃ role ∈ roles, Grants casing role permission) ↔
          ∃ role ∈ others, Grants casing role permission :=
  ⟨piecesTell_of_answered, answered_of_piecesTell⟩

/-- One name with a `|` in it gets the place of two roles, and their permissions. -/
theorem joined_name_takes_the_place : ¬∀ casing history,
    List.Forall₂ (IsUnion casing) history (rolePermissionAnswers casing [] history) := by
  intro h
  have hone : roleCacheKey .ascii ["admin|user"] = "admin|user" := by
    rw [roleCacheKey, OrdinalCasing.orderBy, List.mergeSort_of_pairwise (by decide +kernel)]
    decide +kernel
  have hsorted : roleCacheKey .ascii ["admin", "user"] = "admin|user" := by
    rw [roleCacheKey, OrdinalCasing.orderBy, List.mergeSort_of_pairwise (by decide +kernel)]
    decide +kernel
  have hnone : permissionsOfRoles .ascii ["admin|user"] = [] := by decide +kernel
  have htwo : rolePermissionAnswers .ascii [] [["admin|user"], ["admin", "user"]] = [[], []] := by
    simp only [rolePermissionAnswers, getRolePermissions, hone, hsorted, hnone]
    decide +kernel
  have hright := h .ascii [["admin|user"], ["admin", "user"]]
  rw [htwo] at hright
  cases hright with
  | cons _ hlater =>
    cases hlater with
    | cons hunion _ =>
      have hgranted : ∃ role ∈ ["admin", "user"], Grants .ascii role "UsersRead" := by
        unfold Grants
        decide +kernel
      have hmem := (hunion "UsersRead").mpr hgranted
      cases hmem

end Wallow.Identity
