import Wallow.Shared.Principals
import Wallow.Shared.TenantScopes

/-!
# The tenant of a request and its permissions

`TenantResolutionMiddleware.cs` and `PermissionExpansionMiddleware.cs`, which read the tenant the
first one resolved from a request item and compare it, as text, with the organization of the token.
-/

namespace Wallow.Identity

open Wallow.Shared Wallow.Api

/-! ## Tenant resolution -/

/-- What an endpoint's metadata says about organizations. -/
structure EndpointMetadata where
  allowAnonymous : Bool
  allowWithoutOrganization : Bool
  deriving DecidableEq

/-- A request as it reaches the tenant resolution, with the tenant context it finds. -/
structure TenantRequest where
  user : ClaimsPrincipal
  /-- The values of `X-Tenant-Id`. -/
  tenantIdHeader : List String
  /-- The values of `X-Tenant-Region`. -/
  tenantRegionHeader : List String
  endpoint : Option EndpointMetadata
  tenant : TenantContext
  deriving DecidableEq

/-- What the later middlewares see. -/
structure RequestContext where
  user : ClaimsPrincipal
  tenant : TenantContext
  /-- The item `TenantId`. -/
  tenantItem : Option String
  deriving DecidableEq

inductive ResolutionResult
  /-- `403`: the token carries no organization. -/
  | organizationRequired
  | next (context : RequestContext)
  deriving DecidableEq

def APPLICATION_SCHEME : String := "Identity.Application"

/-- `RequiresOrganization`. -/
def requiresOrganization (request : TenantRequest) : Bool :=
  if request.user.authenticationType = some APPLICATION_SCHEME then false
  else match request.endpoint with
    | none => false
    | some metadata => !metadata.allowAnonymous && !metadata.allowWithoutOrganization

section Source

variable (casing : OrdinalCasing)

/-- The organization the token names, where its text is that of a `Guid`. -/
def tokenOrganization (user : ClaimsPrincipal) : Option TenantId :=
  (user.getTenantId casing).bind fun orgIdStr => tryParse orgIdStr.toList

/-- The tenant an administrator or operator selects. -/
def tenantOverride (request : TenantRequest) : Option TenantId :=
  match request.tenantIdHeader.head? with
  | none => none
  | some headerTenantId =>
    if headerTenantId = "" then none
    else match tryParseExactD (trim headerTenantId.toList) with
      | none => none
      | some overrideId =>
        if request.user.isGlobalAdmin casing || request.user.isOperator casing then
          some (Fin.ofNat (2 ^ 128) overrideId)
        else none

/-- The resolved tenant and its name. -/
def resolvedTenant (request : TenantRequest) : Option (TenantId × String) :=
  match tenantOverride casing request with
  | some overrideId => some (overrideId, "")
  | none => (tokenOrganization casing request.user).map fun orgId =>
    (orgId, (request.user.getTenantName casing).getD "")

/-- The claim, else the header, else the primary region. -/
def resolvedRegion (request : TenantRequest) : String :=
  let region := (request.user.getTenantRegion casing).filter (· ≠ "")
  ((region.or request.tenantRegionHeader.head?).filter (· ≠ "")).getD PrimaryRegion

/-- `TenantResolutionMiddleware.InvokeAsync`. -/
def resolveTenant (request : TenantRequest) : ResolutionResult :=
  let context : RequestContext := ⟨request.user, request.tenant, none⟩
  if request.user.isAuthenticated then
    match resolvedTenant casing request with
    | some (tenantId, name) =>
      .next { context with
        tenant := ⟨tenantId.val, name, resolvedRegion casing request, true⟩
        tenantItem := some tenantId.toString }
    | none => if requiresOrganization request then .organizationRequired else .next context
  else .next context

/-! ## Permissions -/

/-- `RolePermissionMapping`. -/
def rolePermissions : List (String × List String) := [
  ("admin", ["UsersRead", "UsersCreate", "UsersUpdate", "UsersDelete", "RolesRead", "RolesCreate",
    "RolesUpdate", "RolesDelete", "OrganizationsRead", "OrganizationsUpdate",
    "OrganizationsDelete", "OrganizationsManageMembers", "OrganizationClientsManage",
    "ApiKeysRead", "ApiKeysCreate", "ApiKeysUpdate", "ApiKeysDelete", "NotificationRead",
    "NotificationsWrite", "WebhooksManage", "AdminAccess", "SystemSettings", "ConfigurationRead",
    "ConfigurationManage", "EmailPreferenceManage", "StorageRead", "StorageWrite", "ApiKeyManage",
    "ScopeRead", "PushRead", "PushConfigWrite", "InquiriesRead", "InquiriesWrite"]),
  ("manager", ["UsersRead", "OrganizationsRead", "OrganizationsManageMembers",
    "OrganizationClientsManage", "ScopeRead", "ApiKeysRead", "ApiKeysCreate", "ApiKeysUpdate",
    "ApiKeysDelete", "ConfigurationManage", "InquiriesRead"]),
  ("user", ["OrganizationsRead", "NotificationRead", "EmailPreferenceManage", "StorageRead",
    "StorageWrite", "ApiKeysRead", "ApiKeysCreate", "InquiriesWrite"])]

/-- `ScopePermissionMapper`. -/
def scopePermissions : List (String × String) := [
  ("users.read", "UsersRead"), ("users.write", "UsersUpdate"), ("users.manage", "UsersDelete"),
  ("roles.read", "RolesRead"), ("roles.write", "RolesUpdate"), ("roles.manage", "RolesDelete"),
  ("organizations.read", "OrganizationsRead"), ("organizations.write", "OrganizationsUpdate"),
  ("organizations.manage", "OrganizationsManageMembers"),
  ("apikeys.read", "ApiKeysRead"), ("apikeys.write", "ApiKeysUpdate"),
  ("apikeys.manage", "ApiKeyManage"),
  ("storage.read", "StorageRead"), ("storage.write", "StorageWrite"),
  ("notifications.read", "NotificationRead"), ("notifications.write", "NotificationsWrite"),
  ("configuration.read", "ConfigurationRead"), ("configuration.manage", "ConfigurationManage"),
  ("inquiries.read", "InquiriesRead"), ("inquiries.write", "InquiriesWrite"),
  ("webhooks.manage", "WebhooksManage")]

def mapScopeToPermission (scope : String) : Option String := scopePermissions.lookup scope

/-- The cache of `RolePermissionMapping`, for all requests of the process. -/
abbrev RoleCache := List (String × List String)

def roleCacheKey (roles : List String) : String :=
  String.ofList (['|'].intercalate ((casing.orderBy roles).map String.toList))

def permissionsOfRoles (roles : List String) : List String :=
  (roles.flatMap fun role =>
    ((rolePermissions.find? fun entry => casing.equals entry.1 role).map
      Prod.snd).getD []).eraseDups

/-- `RolePermissionMapping.GetPermissions`. -/
def getRolePermissions (cache : RoleCache) (roles : List String) : List String × RoleCache :=
  let cacheKey := roleCacheKey casing roles
  match cache.lookup cacheKey with
  | some permissions => (permissions, cache)
  | none =>
    let permissions := permissionsOfRoles casing roles
    (permissions, (cacheKey, permissions) :: cache)

/-- `IsCrossTenantRequest`. -/
def isCrossTenantRequest (context : RequestContext) : Bool :=
  match (context.user.getTenantId casing).filter (· ≠ "") with
  | none => true
  | some ownTenantId =>
    match context.tenantItem.filter (· ≠ "") with
    | none => false
    | some resolvedTenantId => !casing.equals ownTenantId resolvedTenantId

/-- Adds the permissions that are not there yet, one by one. -/
def addMissing (user : ClaimsPrincipal) (permissions : List String) : ClaimsPrincipal :=
  permissions.foldl (fun user permission =>
    if permission ∈ user.getPermissions casing then user else user.addPermission permission) user

def expandUserRoles (context : RequestContext) (cache : RoleCache) : RequestContext × RoleCache :=
  if isCrossTenantRequest casing context then (context, cache)
  else
    let roles := context.user.getRoles casing
    if roles.length > 0 then
      let (permissions, cache) := getRolePermissions casing cache roles
      ({ context with user := context.user.addPermissions permissions }, cache)
    else (context, cache)

def expandUserScopes (context : RequestContext) : RequestContext :=
  if isCrossTenantRequest casing context then context
  else { context with
    user := addMissing casing context.user
      ((context.user.getScopes casing).filterMap mapScopeToPermission) }

def expandServiceAccountScopes (context : RequestContext) : RequestContext :=
  if isCrossTenantRequest casing context then context
  else { context with
    user := context.user.addPermissions
      ((context.user.getScopes casing).filterMap mapScopeToPermission) }

def isServiceAccountClient (clientId : Option String) : Bool :=
  match clientId with
  | none => false
  | some clientId =>
    "sa-".toList.isPrefixOf clientId.toList || "app-".toList.isPrefixOf clientId.toList

/-- What the roles and scopes of the caller's organization grant. -/
def expandTenantGrants (context : RequestContext) (cache : RoleCache) :
    RequestContext × RoleCache :=
  if isServiceAccountClient (context.user.getClientId casing) then
    (expandServiceAccountScopes casing context, cache)
  else if context.user.getAuthMethod casing = some "api_key" then
    (expandServiceAccountScopes casing context, cache)
  else
    let (context, cache) := expandUserRoles casing context cache
    (expandUserScopes casing context, cache)

def expandGlobalAdmin (context : RequestContext) (cache : RoleCache) :
    RequestContext × RoleCache :=
  if context.user.isGlobalAdmin casing then
    let (permissions, cache) := getRolePermissions casing cache ["admin"]
    ({ context with user := addMissing casing context.user permissions }, cache)
  else (context, cache)

/-- `PermissionExpansionMiddleware.InvokeAsync`. -/
def expandPermissions (context : RequestContext) (cache : RoleCache) :
    RequestContext × RoleCache :=
  if context.user.isAuthenticated then
    let (context, cache) := expandTenantGrants casing context cache
    expandGlobalAdmin casing context cache
  else (context, cache)

/-- Both middlewares: what the rest of the pipeline gets. -/
def serveRequest (request : TenantRequest) (cache : RoleCache) : ResolutionResult × RoleCache :=
  match resolveTenant casing request with
  | .organizationRequired => (.organizationRequired, cache)
  | .next context =>
    let (context, cache) := expandPermissions casing context cache
    (.next context, cache)

end Source

/-! ## Caches that only grow -/

/-- What the one cache knows, the other one knows too. -/
def RoleCache.Extends (cache other : RoleCache) : Prop :=
  ∀ key permissions, cache.lookup key = some permissions → other.lookup key = some permissions

namespace RoleCache.Extends

theorem refl (cache : RoleCache) : cache.Extends cache := fun _ _ h => h

theorem trans {first second third : RoleCache} (h : first.Extends second)
    (h' : second.Extends third) : first.Extends third := fun key permissions hkey =>
  h' key permissions (h key permissions hkey)

end RoleCache.Extends

section Grants

variable {casing : OrdinalCasing}

/-- A run that only grows the cache, and that any larger cache repeats. -/
def Repeats {α : Type} (run : RoleCache → α × RoleCache) : Prop :=
  ∀ cache, cache.Extends (run cache).2 ∧
    ∀ other, (run cache).2.Extends other → run other = ((run cache).1, other)

theorem Repeats.pure {α : Type} (value : α) : Repeats fun cache => (value, cache) :=
  fun cache => ⟨.refl cache, fun _ _ => rfl⟩

theorem Repeats.bind {α β : Type} {run : RoleCache → α × RoleCache}
    {next : α → RoleCache → β × RoleCache} (hrun : Repeats run)
    (hnext : ∀ value, Repeats (next value)) :
    Repeats fun cache => next (run cache).1 (run cache).2 := by
  intro cache
  obtain ⟨hgrow, hrepeat⟩ := hrun cache
  obtain ⟨hgrow', hrepeat'⟩ := hnext (run cache).1 (run cache).2
  refine ⟨hgrow.trans hgrow', fun other hother => ?_⟩
  have hfirst : run other = ((run cache).1, other) := hrepeat other (hgrow'.trans hother)
  dsimp only
  rw [hfirst]
  exact hrepeat' other hother

theorem Repeats.map {α β : Type} {run : RoleCache → α × RoleCache} (hrun : Repeats run)
    (f : α → β) : Repeats fun cache => (f (run cache).1, (run cache).2) :=
  hrun.bind fun value => .pure (f value)

theorem getRolePermissions_repeats (roles : List String) :
    Repeats fun cache => getRolePermissions casing cache roles := by
  intro cache
  dsimp only
  cases hlookup : cache.lookup (roleCacheKey casing roles) with
  | some permissions =>
    have hrun : getRolePermissions casing cache roles = (permissions, cache) := by
      rw [getRolePermissions, hlookup]
    rw [hrun]
    refine ⟨.refl cache, fun other hother => ?_⟩
    rw [getRolePermissions, hother _ _ hlookup]
  | none =>
    have hrun : getRolePermissions casing cache roles = (permissionsOfRoles casing roles,
        (roleCacheKey casing roles, permissionsOfRoles casing roles) :: cache) := by
      rw [getRolePermissions, hlookup]
    rw [hrun]
    refine ⟨fun key permissions hkey => ?_, fun other hother => ?_⟩
    · rw [List.lookup_cons]
      split
      · rename_i heq
        rw [eq_of_beq heq, hlookup] at hkey
        cases hkey
      · exact hkey
    · have hknown := hother (roleCacheKey casing roles) (permissionsOfRoles casing roles)
        List.lookup_cons_self
      rw [getRolePermissions, hknown]

theorem expandUserRoles_repeats (context : RequestContext) :
    Repeats (expandUserRoles casing context) := by
  unfold expandUserRoles
  split
  · exact .pure context
  · dsimp only
    split
    · exact (getRolePermissions_repeats _).map fun permissions =>
        { context with user := context.user.addPermissions permissions }
    · exact .pure context

theorem expandTenantGrants_repeats (context : RequestContext) :
    Repeats (expandTenantGrants casing context) := by
  unfold expandTenantGrants
  split
  · exact .pure _
  · split
    · exact .pure _
    · exact (expandUserRoles_repeats context).bind fun context => .pure _

theorem expandGlobalAdmin_repeats (context : RequestContext) :
    Repeats (expandGlobalAdmin casing context) := by
  unfold expandGlobalAdmin
  split
  · exact (getRolePermissions_repeats _).map fun permissions =>
      { context with user := addMissing casing context.user permissions }
  · exact .pure context

theorem expandPermissions_repeats (context : RequestContext) :
    Repeats (expandPermissions casing context) := by
  unfold expandPermissions
  split
  · exact (expandTenantGrants_repeats context).bind expandGlobalAdmin_repeats
  · exact .pure context

theorem serveRequest_repeats (request : TenantRequest) : Repeats (serveRequest casing request) := by
  unfold serveRequest
  split
  · exact .pure _
  · exact (expandPermissions_repeats _).bind fun context => .pure _

/-! ## The header of a caller who may not select a tenant -/

theorem tenantOverride_eq_none {request : TenantRequest}
    (hadmin : request.user.isGlobalAdmin casing = false)
    (hoperator : request.user.isOperator casing = false) :
    tenantOverride casing request = none := by
  unfold tenantOverride
  split
  · rfl
  · split
    · rfl
    · split
      · rfl
      · rw [hadmin, hoperator]
        rfl

theorem resolveTenant_header {request : TenantRequest}
    (hadmin : request.user.isGlobalAdmin casing = false)
    (hoperator : request.user.isOperator casing = false) (header : List String) :
    resolveTenant casing { request with tenantIdHeader := header } =
      resolveTenant casing request := by
  have hresolved : resolvedTenant casing { request with tenantIdHeader := header } =
      resolvedTenant casing request := by
    have hheader : tenantOverride casing { request with tenantIdHeader := header } = none :=
      tenantOverride_eq_none hadmin hoperator
    rw [resolvedTenant, resolvedTenant, tenantOverride_eq_none hadmin hoperator, hheader]
  rw [resolveTenant, resolveTenant, hresolved]
  rfl

/-! ## What the token's organization grants -/

theorem expandTenantGrants_of_cross {context : RequestContext} {cache : RoleCache}
    (hcross : isCrossTenantRequest casing context = true) :
    (expandTenantGrants casing context cache).1 = context := by
  have hscopes : expandServiceAccountScopes casing context = context := by
    rw [expandServiceAccountScopes, if_pos hcross]
  have hroles : expandUserRoles casing context cache = (context, cache) := by
    rw [expandUserRoles, if_pos hcross]
  have huser : expandUserScopes casing context = context := by
    rw [expandUserScopes, if_pos hcross]
  unfold expandTenantGrants
  rw [hscopes, hroles]
  split
  · rfl
  · split
    · rfl
    · exact huser

theorem not_cross {context : RequestContext} (h : isCrossTenantRequest casing context = false) :
    ∃ ownTenantId, context.user.getTenantId casing = some ownTenantId ∧
      ∀ resolvedTenantId, context.tenantItem = some resolvedTenantId → resolvedTenantId ≠ "" →
        casing.equals ownTenantId resolvedTenantId = true := by
  unfold isCrossTenantRequest at h
  split at h
  · cases h
  · rename_i ownTenantId hown
    refine ⟨ownTenantId, (Option.filter_eq_some_iff.mp hown).1,
      fun resolvedTenantId hitem hne => ?_⟩
    rw [hitem, Option.filter_some_pos (by simpa using hne)] at h
    exact (Bool.not_eq_false' _).mp h

/-- Where the token's organization is in force, or no organization at all. -/
def TenantAtHome (casing : OrdinalCasing) (request : TenantRequest) (context : RequestContext) :
    Prop :=
  (∃ organization, tokenOrganization casing request.user = some organization ∧
    context.tenant.isResolved = true ∧ context.tenant.tenantId = organization.val) ∨
  ((∃ ownTenantId, request.user.getTenantId casing = some ownTenantId) ∧
    tokenOrganization casing request.user = none ∧ context.tenantItem = none ∧
    context.tenant = request.tenant)

theorem toString_ne_empty (id : TenantId) : id.toString ≠ "" := by
  intro h
  have hlength : id.toString.toList.length = 36 := by rw [toList_toString, chars_length]
  rw [h] at hlength
  cases hlength

theorem tenantAtHome_of_not_cross {request : TenantRequest} {context : RequestContext}
    (hauth : request.user.isAuthenticated = true)
    (hnext : resolveTenant casing request = .next context)
    (hcross : isCrossTenantRequest casing context = false) :
    TenantAtHome casing request context := by
  obtain ⟨ownTenantId, hown, hequal⟩ := not_cross hcross
  rw [resolveTenant, if_pos hauth] at hnext
  split at hnext
  · rename_i tenantId name hresolved
    obtain rfl := ResolutionResult.next.inj hnext
    refine .inl ⟨tenantId, ?_, rfl, rfl⟩
    have hsame := hequal tenantId.toString rfl (toString_ne_empty tenantId)
    have hown' : request.user.getTenantId casing = some ownTenantId := hown
    rw [tokenOrganization, hown']
    exact OrdinalCasing.tryParse_of_equals hsame
  · rename_i hresolved
    split at hnext
    · cases hnext
    · obtain rfl := ResolutionResult.next.inj hnext
      refine .inr ⟨⟨ownTenantId, hown⟩, ?_, rfl, rfl⟩
      unfold resolvedTenant at hresolved
      split at hresolved
      · cases hresolved
      · exact Option.map_eq_none_iff.mp hresolved

end Grants

/-- A caller who may not select a tenant gets the same tenant and permissions whatever the header
says, now or once the cache has grown; and roles and scopes grant where the token's organization is
in force, or, where its text is not that of a `Guid`, where no organization is. -/
theorem header_changes_nothing_and_grants_stay_home (casing : OrdinalCasing)
    (request : TenantRequest) (cache : RoleCache) :
    (request.user.isGlobalAdmin casing = false → request.user.isOperator casing = false →
      ∀ header other, other = cache ∨ (serveRequest casing request cache).2.Extends other →
        (serveRequest casing { request with tenantIdHeader := header } other).1 =
          (serveRequest casing request cache).1) ∧
    (request.user.isAuthenticated = true → ∀ context,
      resolveTenant casing request = .next context →
      (expandTenantGrants casing context cache).1 ≠ context →
      TenantAtHome casing request context) := by
  refine ⟨fun hadmin hoperator header other hother => ?_, fun hauth context hnext hgrants => ?_⟩
  · have hserve : serveRequest casing { request with tenantIdHeader := header } other =
        serveRequest casing request other := by
      rw [serveRequest, serveRequest, resolveTenant_header hadmin hoperator header]
    rw [hserve]
    rcases hother with rfl | hextends
    · rfl
    · rw [(serveRequest_repeats request cache).2 other hextends]
  · cases hcross : isCrossTenantRequest casing context with
    | true => exact absurd (expandTenantGrants_of_cross hcross) hgrants
    | false => exact tenantAtHome_of_not_cross hauth hnext hcross

/-- A role is granted without an organization in force, as that of the token is no `Guid`. -/
theorem grants_without_organization :
    let request : TenantRequest :=
      { user :=
          { authenticationType := some "Bearer"
            claims := [⟨"org_id", "acme"⟩, ⟨"role", "user"⟩]
            otherClaims := [] }
        tenantIdHeader := []
        tenantRegionHeader := []
        endpoint := some ⟨false, true⟩
        tenant := Tenancy.initial.context }
    ∃ context, resolveTenant .ascii request = .next context ∧
      (expandTenantGrants .ascii context []).1.user.getPermissions .ascii ≠
        context.user.getPermissions .ascii ∧
      context.tenant.isResolved = false := by
  refine ⟨⟨⟨some "Bearer", [⟨"org_id", "acme"⟩, ⟨"role", "user"⟩], []⟩,
    Tenancy.initial.context, none⟩, ?_, ?_, rfl⟩
  · decide +kernel
  · decide +kernel

end Wallow.Identity
