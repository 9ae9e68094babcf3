import Wallow.Api.GuidText
import Mathlib.Data.List.Sort
import Mathlib.Data.List.Nodup

/-!
# The settings of a module

The registered settings with their defaults, the rows that tenants and users have stored over them,
and the merge of the three.
-/

namespace Wallow.Shared

open Api (TenantId)

abbrev UserId := TenantId

/-- `defaultValue` is the default as `Convert.ToString` writes it. -/
structure SettingMetadata where
  displayName : String
  description : String
  defaultValue : String
  deriving DecidableEq

/-- The dictionary `Metadata` in the order it is enumerated in. -/
structure SettingRegistry where
  moduleName : String
  metadata : List (String × SettingMetadata)
  keys_nodup : (metadata.map Prod.fst).Nodup

def SettingRegistry.isCodeDefinedKey (registry : SettingRegistry) (key : String) : Bool :=
  registry.metadata.any (·.1 = key)

namespace SettingKeyValidator

def CustomPrefix : String := "custom."
def SystemPrefix : String := "system."
def MaxCustomKeysPerTenant : Nat := 100

def isCustomKey (key : String) : Bool := CustomPrefix.toList.isPrefixOf key.toList
def isSystemKey (key : String) : Bool := SystemPrefix.toList.isPrefixOf key.toList

inductive SettingKeyValidationResult
  | codeDefined | custom | system | unknown
  deriving DecidableEq

def validate (registry : SettingRegistry) (key : String) : SettingKeyValidationResult :=
  if isCustomKey key then .custom
  else if isSystemKey key then .system
  else if registry.isCodeDefinedKey key then .codeDefined
  else .unknown

end SettingKeyValidator

/-! ## Stored rows -/

/-- A row of `tenant_settings` or of `user_settings`, with whom it belongs to. -/
structure SettingEntity (ω : Type) where
  owner : ω
  moduleKey : String
  settingKey : String
  value : String
  deriving DecidableEq

abbrev TenantSettingEntity := SettingEntity TenantId
abbrev UserSettingEntity := SettingEntity (TenantId × UserId)

structure SettingUpdate where
  key : String
  value : String
  deriving DecidableEq

inductive SettingsError
  /-- The `ArgumentException` of `ValidateKey`. -/
  | unknownKey (key : String)
  /-- The `InvalidOperationException` of `TenantSettingRepository.UpsertAsync`. -/
  | tooManyKeys
  /-- The database does not take the row. -/
  | refused
  deriving DecidableEq

def SettingsError.message : SettingsError → String
  | unknownKey key => "Unknown setting key: '" ++ key ++ "'."
  | tooManyKeys => "Tenant has reached the maximum of 100 setting keys."
  | refused => "An error occurred while saving the entity changes."

section Repository

variable {ω : Type} [DecidableEq ω]

def SettingEntity.isAt (e : SettingEntity ω) (owner : ω) (moduleKey settingKey : String) : Bool :=
  e.owner = owner && e.moduleKey = moduleKey && e.settingKey = settingKey

/-- `GetAllAsync`, ordered as the database orders the setting keys. -/
def getAll (collation : String → String → Bool) (rows : List (SettingEntity ω)) (owner : ω)
    (moduleKey : String) : List (SettingEntity ω) :=
  (rows.filter fun e => e.owner = owner && e.moduleKey = moduleKey).insertionSort
    fun a b => collation a.settingKey b.settingKey = true

/-- What `UpsertAsync` does in both repositories: `full` is asked before an insert only. -/
def upsert (storable : SettingEntity ω → Bool)
    (full : List (SettingEntity ω) → SettingEntity ω → Bool) (rows : List (SettingEntity ω))
    (entity : SettingEntity ω) : Except SettingsError (List (SettingEntity ω)) :=
  if rows.any (·.isAt entity.owner entity.moduleKey entity.settingKey) then
    if storable entity then
      .ok (rows.map fun e =>
        if e.isAt entity.owner entity.moduleKey entity.settingKey then
          { e with value := entity.value }
        else e)
    else .error .refused
  else if full rows entity then .error .tooManyKeys
  else if storable entity then .ok (rows ++ [entity])
  else .error .refused

def delete (rows : List (SettingEntity ω)) (owner : ω) (moduleKey settingKey : String) :
    List (SettingEntity ω) :=
  rows.filter fun e => !e.isAt owner moduleKey settingKey

end Repository

/-- The maximum is over the tenant's custom keys of every module. -/
def TenantSettingRepository.full (rows : List TenantSettingEntity) (entity : TenantSettingEntity) :
    Bool :=
  SettingKeyValidator.isCustomKey entity.settingKey &&
    SettingKeyValidator.MaxCustomKeysPerTenant ≤
      rows.countP fun e => e.owner = entity.owner && SettingKeyValidator.isCustomKey e.settingKey

def TenantSettingRepository.upsert (storable : TenantSettingEntity → Bool) :=
  Shared.upsert storable TenantSettingRepository.full

def UserSettingRepository.upsert (storable : UserSettingEntity → Bool) :=
  Shared.upsert storable fun _ _ => false

/-! ## The merge -/

inductive SettingSource
  | default | tenant | user
  deriving DecidableEq

structure ResolvedSetting where
  key : String
  value : String
  source : SettingSource
  displayName : Option String
  description : Option String
  defaultValue : Option String
  deriving DecidableEq

def findSetting {ω : Type} (settings : List (SettingEntity ω)) (key : String) :
    Option (SettingEntity ω) :=
  settings.find? (·.settingKey = key)

/-- A setting that is not in the registry. -/
def customSetting (key value : String) (source : SettingSource) : ResolvedSetting :=
  ⟨key, value, source, none, none, none⟩

/-- The loops that end a merge: what has no entry yet gets one. -/
def addMissing {ω : Type} (resolve : SettingEntity ω → ResolvedSetting)
    (result : List ResolvedSetting) (settings : List (SettingEntity ω)) : List ResolvedSetting :=
  settings.foldl
    (fun result entity =>
      if result.any (·.key = entity.settingKey) then result else result ++ [resolve entity])
    result

def mergeTenantWithDefaults (registry : SettingRegistry)
    (tenantSettings : List TenantSettingEntity) : List ResolvedSetting :=
  let result := registry.metadata.map fun (key, metadata) =>
    let (value, source) :=
      match findSetting tenantSettings key with
      | some tenantEntity => (tenantEntity.value, SettingSource.tenant)
      | none => (metadata.defaultValue, .default)
    { key, value, source, displayName := some metadata.displayName,
      description := some metadata.description, defaultValue := some metadata.defaultValue }
  addMissing (fun entity => customSetting entity.settingKey entity.value .tenant) result
    tenantSettings

def mergeAllWithDefaults (registry : SettingRegistry) (tenantSettings : List TenantSettingEntity)
    (userSettings : List UserSettingEntity) : List ResolvedSetting :=
  let result := registry.metadata.map fun (key, metadata) =>
    let (value, source) :=
      match findSetting userSettings key, findSetting tenantSettings key with
      | some userEntity, _ => (userEntity.value, SettingSource.user)
      | none, some tenantEntity => (tenantEntity.value, .tenant)
      | none, none => (metadata.defaultValue, .default)
    { key, value, source, displayName := some metadata.displayName,
      description := some metadata.description, defaultValue := some metadata.defaultValue }
  let result := addMissing
    (fun entity =>
      match findSetting userSettings entity.settingKey with
      | some userEntity => customSetting entity.settingKey userEntity.value .user
      | none => customSetting entity.settingKey entity.value .tenant)
    result tenantSettings
  addMissing (fun entity => customSetting entity.settingKey entity.value .user) result userSettings

/-- `ToDictionary`, which throws on a key that is there twice. -/
def toDictionary (settings : List ResolvedSetting) : Option (List (String × String)) :=
  if (settings.map (·.key)).Nodup then some (settings.map fun s => (s.key, s.value)) else none

/-! ## What a merge has an entry for -/

/-- One entry for each key, and one for each registered setting. -/
structure Complete (registry : SettingRegistry) (settings : List ResolvedSetting) : Prop where
  nodup : (settings.map (·.key)).Nodup
  registered : ∀ setting ∈ registry.metadata, setting.1 ∈ settings.map (·.key)

section

variable {registry : SettingRegistry}

theorem complete_registered {resolve : String × SettingMetadata → ResolvedSetting}
    (hkey : ∀ p, (resolve p).key = p.1) : Complete registry (registry.metadata.map resolve) := by
  have hkeys : (registry.metadata.map resolve).map (·.key) = registry.metadata.map Prod.fst := by
    rw [List.map_map]
    exact List.map_congr_left fun p _ => hkey p
  constructor <;> rw [hkeys]
  · exact registry.keys_nodup
  · exact fun setting hmem => List.mem_map_of_mem hmem

theorem Complete.addMissing {ω : Type} {resolve : SettingEntity ω → ResolvedSetting}
    (hkey : ∀ e, (resolve e).key = e.settingKey) {settings : List (SettingEntity ω)}
    {result : List ResolvedSetting} (h : Complete registry result) :
    Complete registry (addMissing resolve result settings) := by
  induction settings generalizing result with
  | nil => exact h
  | cons e settings ih =>
    rw [Shared.addMissing, List.foldl_cons]
    apply ih
    split
    · exact h
    · rename_i hnew
      have hkeys : (result ++ [resolve e]).map (·.key) = result.map (·.key) ++ [e.settingKey] := by
        simp [hkey]
      constructor <;> rw [hkeys]
      · rw [← List.concat_eq_append]
        exact h.nodup.concat (by simpa using hnew)
      · exact fun setting hmem => List.mem_append_left _ (h.registered setting hmem)

theorem complete_mergeTenantWithDefaults (tenantSettings : List TenantSettingEntity) :
    Complete registry (mergeTenantWithDefaults registry tenantSettings) :=
  (complete_registered fun _ => rfl).addMissing fun _ => rfl

theorem complete_mergeAllWithDefaults (tenantSettings : List TenantSettingEntity)
    (userSettings : List UserSettingEntity) :
    Complete registry (mergeAllWithDefaults registry tenantSettings userSettings) := by
  refine ((complete_registered fun _ => rfl).addMissing fun e => ?_).addMissing fun _ => rfl
  cases findSetting userSettings e.settingKey <;> rfl

end

end Wallow.Shared
