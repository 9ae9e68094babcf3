import Wallow.Shared.Settings
import Wallow.Lib.ReadThrough
import Wallow.Lib.Transition
import Wallow.Primitives

/-!
# The cached settings

`CachedSettingsService` over its rows and its cache.  A user's settings are cached merged, and a
change of the tenant's rows removes the tenant's entry and that of the user who made it.
-/

namespace Wallow.Shared

open Api (TenantId)
open Transition

/-- What is cached under one key: a tenant's settings, or those of one of its users. -/
inductive SettingsView
  | tenant (tenantId : TenantId)
  | user (tenantId : TenantId) (userId : UserId)
  deriving DecidableEq

def tenantCacheKey (moduleName : String) (tenantId : TenantId) : String :=
  "settings:" ++ moduleName ++ ":" ++ tenantId.toString

def userCacheKey (moduleName : String) (tenantId : TenantId) (userId : UserId) : String :=
  "settings:" ++ moduleName ++ ":" ++ tenantId.toString ++ ":" ++ userId.toString

def SettingsView.cacheKey (moduleName : String) : SettingsView → String
  | tenant tenantId => tenantCacheKey moduleName tenantId
  | user tenantId userId => userCacheKey moduleName tenantId userId

/-- A `Guid` has a fixed length, so no two views share a key. -/
theorem cacheKey_injective (moduleName : String) :
    Function.Injective (SettingsView.cacheKey moduleName) := by
  intro v w h
  have hchars := congrArg String.toList h
  cases v with
  | tenant t =>
    cases w with
    | tenant t' =>
      simp only [SettingsView.cacheKey, tenantCacheKey, String.toList_append, Api.toList_toString,
        List.append_cancel_left_eq] at hchars
      rw [Api.chars_injective hchars]
    | user t' u' =>
      simp only [SettingsView.cacheKey, tenantCacheKey, userCacheKey, String.toList_append,
        Api.toList_toString, List.append_assoc, List.append_cancel_left_eq] at hchars
      have hlength := congrArg List.length hchars
      simp only [List.length_append, Api.chars_length] at hlength
      omega
  | user t u =>
    cases w with
    | tenant t' =>
      simp only [SettingsView.cacheKey, tenantCacheKey, userCacheKey, String.toList_append,
        Api.toList_toString, List.append_assoc, List.append_cancel_left_eq] at hchars
      have hlength := congrArg List.length hchars
      simp only [List.length_append, Api.chars_length] at hlength
      omega
    | user t' u' =>
      simp only [SettingsView.cacheKey, userCacheKey, String.toList_append, Api.toList_toString,
        List.append_assoc, List.append_cancel_left_eq] at hchars
      obtain ⟨ht, hu⟩ := List.append_inj hchars (by rw [Api.chars_length, Api.chars_length])
      rw [List.append_cancel_left_eq] at hu
      rw [Api.chars_injective ht, Api.chars_injective hu]

/-- The service of one module, with the order of its database's text and what it takes. -/
structure SettingsService where
  registry : SettingRegistry
  collation : String → String → Bool
  tenantStorable : TenantSettingEntity → Bool
  userStorable : UserSettingEntity → Bool

/-- The rows. -/
structure SettingsRows where
  tenantSettings : List TenantSettingEntity
  userSettings : List UserSettingEntity
  deriving DecidableEq

namespace SettingsService

variable (service : SettingsService)

def moduleName : String := service.registry.moduleName

def tenantAll (rows : SettingsRows) (tenantId : TenantId) : List TenantSettingEntity :=
  getAll service.collation rows.tenantSettings tenantId service.moduleName

def userAll (rows : SettingsRows) (tenantId : TenantId) (userId : UserId) :
    List UserSettingEntity :=
  getAll service.collation rows.userSettings (tenantId, userId) service.moduleName

/-- The settings as the rows and the defaults give them. -/
def merged (rows : SettingsRows) : SettingsView → List ResolvedSetting
  | .tenant tenantId =>
    mergeTenantWithDefaults service.registry (service.tenantAll rows tenantId)
  | .user tenantId userId =>
    mergeAllWithDefaults service.registry (service.tenantAll rows tenantId)
      (service.userAll rows tenantId userId)

/-! ## Writes

A failing update has saved the rows before the one it failed at. -/

def updateTenantRows (tenantId : TenantId) (rows : SettingsRows) :
    List SettingUpdate → SettingsRows × Option SettingsError
  | [] => (rows, none)
  | update :: settings =>
    if SettingKeyValidator.validate service.registry update.key = .unknown then
      (rows, some (.unknownKey update.key))
    else
      match TenantSettingRepository.upsert service.tenantStorable rows.tenantSettings
          ⟨tenantId, service.moduleName, update.key, update.value⟩ with
      | .error e => (rows, some e)
      | .ok tenantSettings =>
        updateTenantRows tenantId { rows with tenantSettings := tenantSettings } settings

def updateUserRows (tenantId : TenantId) (userId : UserId) (rows : SettingsRows) :
    List SettingUpdate → SettingsRows × Option SettingsError
  | [] => (rows, none)
  | update :: settings =>
    if SettingKeyValidator.validate service.registry update.key = .unknown then
      (rows, some (.unknownKey update.key))
    else
      match UserSettingRepository.upsert service.userStorable rows.userSettings
          ⟨(tenantId, userId), service.moduleName, update.key, update.value⟩ with
      | .error e => (rows, some e)
      | .ok userSettings =>
        updateUserRows tenantId userId { rows with userSettings := userSettings } settings

def deleteTenantRows (tenantId : TenantId) (rows : SettingsRows) (keys : List String) :
    SettingsRows :=
  { rows with
    tenantSettings := keys.foldl (fun rows key => delete rows tenantId service.moduleName key)
      rows.tenantSettings }

def deleteUserRows (tenantId : TenantId) (userId : UserId) (rows : SettingsRows)
    (keys : List String) : SettingsRows :=
  { rows with
    userSettings := keys.foldl
      (fun rows key => delete rows (tenantId, userId) service.moduleName key) rows.userSettings }

end SettingsService

/-! ## Histories -/

structure SettingsStore where
  rows : SettingsRows
  cache : ExpiringMap String (List ResolvedSetting)
  now : Instant
  /-- What has been read so far. -/
  read : List SettingsView

inductive SettingsOp
  | getTenantSettings (tenantId : TenantId)
  | getUserSettings (tenantId : TenantId) (userId : UserId)
  | getConfig (tenantId : TenantId) (userId : UserId)
  | updateTenantSettings (tenantId : TenantId) (settings : List SettingUpdate) (updatedBy : UserId)
  | updateUserSettings (tenantId : TenantId) (userId : UserId) (settings : List SettingUpdate)
  | deleteTenantSettings (tenantId : TenantId) (keys : List String) (deletedBy : UserId)
  | deleteUserSettings (tenantId : TenantId) (userId : UserId) (keys : List String)
  /-- The handler of a `TenantSettingChangedEvent`. -/
  | tenantSettingChanged (tenantId : TenantId) (moduleId : String)
  /-- The handler of a `UserSettingChangedEvent`. -/
  | userSettingChanged (tenantId : TenantId) (userId : UserId) (moduleId : String)
  /-- The cache drops an entry on its own. -/
  | evict (key : String)
  | tick (ticks : Nat)

/-- `_cacheTtl`. -/
def settingsCacheTtl : Nat := 5 * 60 * TICKS_PER_SECOND

namespace SettingsStore

def start (rows : SettingsRows) (now : Instant) : SettingsStore :=
  ⟨rows, ExpiringMap.empty, now, []⟩

variable (service : SettingsService)

/-- What both reads do: the cached value, or else the merge, which is then cached. -/
def get (s : SettingsStore) (view : SettingsView) : List ResolvedSetting × SettingsStore :=
  let (settings, cache) := s.cache.readThrough s.now settingsCacheTtl
    (view.cacheKey service.moduleName) (service.merged s.rows view)
  (settings, { s with cache, read := view :: s.read })

def getTenantSettings (s : SettingsStore) (tenantId : TenantId) :
    List ResolvedSetting × SettingsStore :=
  s.get service (.tenant tenantId)

def getUserSettings (s : SettingsStore) (tenantId : TenantId) (userId : UserId) :
    List ResolvedSetting × SettingsStore :=
  s.get service (.user tenantId userId)

def getConfig (s : SettingsStore) (tenantId : TenantId) (userId : UserId) :
    Option (List (String × String)) × SettingsStore :=
  let (settings, s') := s.getUserSettings service tenantId userId
  (toDictionary settings, s')

def remove (s : SettingsStore) (key : String) : SettingsStore :=
  { s with cache := s.cache.erase key }

/-- The rows of a write, and the keys it removes when it has not failed. -/
def write (s : SettingsStore) (result : SettingsRows × Option SettingsError)
    (keys : List String) : SettingsStore :=
  let s' := { s with rows := result.1 }
  match result.2 with
  | some _ => s'
  | none => keys.foldl remove s'

def updateTenantSettings (s : SettingsStore) (tenantId : TenantId) (settings : List SettingUpdate)
    (updatedBy : UserId) : SettingsStore :=
  s.write (service.updateTenantRows tenantId s.rows settings)
    [tenantCacheKey service.moduleName tenantId,
      userCacheKey service.moduleName tenantId updatedBy]

def updateUserSettings (s : SettingsStore) (tenantId : TenantId) (userId : UserId)
    (settings : List SettingUpdate) : SettingsStore :=
  s.write (service.updateUserRows tenantId userId s.rows settings)
    [userCacheKey service.moduleName tenantId userId]

def deleteTenantSettings (s : SettingsStore) (tenantId : TenantId) (keys : List String)
    (deletedBy : UserId) : SettingsStore :=
  s.write (service.deleteTenantRows tenantId s.rows keys, none)
    [tenantCacheKey service.moduleName tenantId,
      userCacheKey service.moduleName tenantId deletedBy]

def deleteUserSettings (s : SettingsStore) (tenantId : TenantId) (userId : UserId)
    (keys : List String) : SettingsStore :=
  s.write (service.deleteUserRows tenantId userId s.rows keys, none)
    [userCacheKey service.moduleName tenantId userId]

def apply (s : SettingsStore) : SettingsOp → SettingsStore
  | .getTenantSettings tenantId => (s.getTenantSettings service tenantId).2
  | .getUserSettings tenantId userId => (s.getUserSettings service tenantId userId).2
  | .getConfig tenantId userId => (s.getConfig service tenantId userId).2
  | .updateTenantSettings tenantId settings updatedBy =>
    s.updateTenantSettings service tenantId settings updatedBy
  | .updateUserSettings tenantId userId settings =>
    s.updateUserSettings service tenantId userId settings
  | .deleteTenantSettings tenantId keys deletedBy =>
    s.deleteTenantSettings service tenantId keys deletedBy
  | .deleteUserSettings tenantId userId keys => s.deleteUserSettings service tenantId userId keys
  | .tenantSettingChanged tenantId moduleId => s.remove (tenantCacheKey moduleId tenantId)
  | .userSettingChanged tenantId userId moduleId =>
    s.remove (userCacheKey moduleId tenantId userId)
  | .evict key => s.remove key
  | .tick ticks => { s with now := s.now + ticks }

def step (s : SettingsStore) (op : SettingsOp) : Option SettingsStore :=
  some (s.apply service op)

/-- Every read made now returns the merge of the rows as they are. -/
def ReadsMerged (s : SettingsStore) : Prop :=
  (∀ tenantId,
    (s.getTenantSettings service tenantId).1 = service.merged s.rows (.tenant tenantId)) ∧
  (∀ tenantId userId,
    (s.getUserSettings service tenantId userId).1 =
      service.merged s.rows (.user tenantId userId)) ∧
  ∀ tenantId userId,
    (s.getConfig service tenantId userId).1 =
      toDictionary (service.merged s.rows (.user tenantId userId))

/-! ## When a write may leave an entry behind -/

def isCached (s : SettingsStore) (view : SettingsView) : Bool :=
  (s.cache.lookup s.now (view.cacheKey service.moduleName)).isSome

/-- No view that is cached, and is not among those removed, is changed by the rows of a write. -/
def sparesCached (s : SettingsStore) (result : SettingsRows × Option SettingsError)
    (removed : List SettingsView) : Bool :=
  s.read.all fun view =>
    !s.isCached service view || (result.2.isNone && removed.contains view) ||
      service.merged result.1 view = service.merged s.rows view

def allowed (s : SettingsStore) : SettingsOp → Bool
  | .updateTenantSettings tenantId settings updatedBy =>
    s.sparesCached service (service.updateTenantRows tenantId s.rows settings)
      [.tenant tenantId, .user tenantId updatedBy]
  | .updateUserSettings tenantId userId settings =>
    s.sparesCached service (service.updateUserRows tenantId userId s.rows settings)
      [.user tenantId userId]
  | .deleteTenantSettings tenantId keys deletedBy =>
    s.sparesCached service (service.deleteTenantRows tenantId s.rows keys, none)
      [.tenant tenantId, .user tenantId deletedBy]
  | .deleteUserSettings tenantId userId keys =>
    s.sparesCached service (service.deleteUserRows tenantId userId s.rows keys, none)
      [.user tenantId userId]
  | _ => true

/-! ## Coherence -/

/-- What is alive in the cache is the merge of the rows. -/
def Coherent (s : SettingsStore) : Prop :=
  s.cache.Agrees s.now (SettingsView.cacheKey service.moduleName) (service.merged s.rows)

/-- What is alive in the cache has been read. -/
def Tracked (s : SettingsStore) : Prop :=
  ∀ view, s.isCached service view = true → view ∈ s.read

structure Sound (s : SettingsStore) : Prop where
  coherent : s.Coherent service
  tracked : s.Tracked service

variable {service} {s : SettingsStore}

theorem readsMerged_iff : s.ReadsMerged service ↔ s.Coherent service := by
  rw [Coherent, ExpiringMap.agrees_iff_readThrough settingsCacheTtl]
  constructor
  · rintro ⟨htenant, huser, -⟩ view
    cases view with
    | tenant tenantId => exact htenant tenantId
    | user tenantId userId => exact huser tenantId userId
  · intro h
    refine ⟨fun tenantId => h (.tenant tenantId), fun tenantId userId => h (.user tenantId userId),
      fun tenantId userId => ?_⟩
    exact congrArg toDictionary (h (.user tenantId userId))

theorem coherent_start (rows : SettingsRows) (now : Instant) :
    (start rows now).Coherent service :=
  ExpiringMap.agrees_empty

theorem tracked_start (rows : SettingsRows) (now : Instant) : (start rows now).Tracked service := by
  intro view h
  cases h

theorem isCached_of_lookup {view : SettingsView} {v : List ResolvedSetting}
    (h : s.cache.lookup s.now (view.cacheKey service.moduleName) = some v) :
    s.isCached service view = true := by
  rw [isCached, h]
  rfl

/-! ### Reads, removals and time -/

theorem get_coherent (h : s.Coherent service) (view : SettingsView) :
    (s.get service view).2.Coherent service :=
  h.readThrough (cacheKey_injective service.moduleName) settingsCacheTtl view

theorem get_tracked (h : s.Tracked service) (view : SettingsView) :
    (s.get service view).2.Tracked service := by
  intro view' hcached
  by_cases hview : view' = view
  · exact List.mem_cons.mpr (.inl hview)
  · apply List.mem_cons_of_mem
    apply h view'
    have hkey : view'.cacheKey service.moduleName ≠ view.cacheKey service.moduleName :=
      fun heq => hview (cacheKey_injective service.moduleName heq)
    simp only [isCached, get, ExpiringMap.readThrough] at hcached ⊢
    cases hlookup : s.cache.lookup s.now (view.cacheKey service.moduleName) with
    | some v => simpa only [hlookup] using hcached
    | none =>
      simp only [hlookup] at hcached
      rwa [ExpiringMap.lookup_put_of_ne _ _ _ _ hkey] at hcached

theorem remove_coherent (h : s.Coherent service) (key : String) :
    (s.remove key).Coherent service :=
  h.erase key

theorem remove_tracked (h : s.Tracked service) (key : String) : (s.remove key).Tracked service := by
  intro view hcached
  apply h view
  by_cases hkey : view.cacheKey service.moduleName = key
  · rw [isCached, remove, hkey, ExpiringMap.lookup_erase_self] at hcached
    cases hcached
  · rw [isCached, remove, ExpiringMap.lookup_erase_of_ne _ _ hkey] at hcached
    exact hcached

theorem tick_coherent (h : s.Coherent service) (ticks : Nat) :
    ({ s with now := s.now + ticks } : SettingsStore).Coherent service :=
  h.later (Int.ofNat_le.mpr (Nat.le_add_right s.now ticks))

theorem tick_tracked (h : s.Tracked service) (ticks : Nat) :
    ({ s with now := s.now + ticks } : SettingsStore).Tracked service := by
  intro view hcached
  obtain ⟨v, hv⟩ := Option.isSome_iff_exists.mp hcached
  exact h view (isCached_of_lookup
    (ExpiringMap.lookup_of_later (Int.ofNat_le.mpr (Nat.le_add_right s.now ticks)) hv))

/-! ### Writes -/

theorem lookup_foldl_remove (keys : List String) (now : Int) (k : String) :
    (keys.foldl remove s).cache.lookup now k =
      if k ∈ keys then none else s.cache.lookup now k := by
  induction keys generalizing s with
  | nil => rw [if_neg List.not_mem_nil, List.foldl_nil]
  | cons key keys ih =>
    rw [List.foldl_cons, ih]
    by_cases hk : k = key
    · simp [hk, remove]
    · simp [hk, remove, ExpiringMap.lookup_erase_of_ne _ _ hk]

@[simp] theorem foldl_remove_rows (keys : List String) : (keys.foldl remove s).rows = s.rows := by
  induction keys generalizing s with
  | nil => rfl
  | cons key keys ih => rw [List.foldl_cons, ih, remove]

@[simp] theorem foldl_remove_now (keys : List String) : (keys.foldl remove s).now = s.now := by
  induction keys generalizing s with
  | nil => rfl
  | cons key keys ih => rw [List.foldl_cons, ih, remove]

@[simp] theorem foldl_remove_read (keys : List String) : (keys.foldl remove s).read = s.read := by
  induction keys generalizing s with
  | nil => rfl
  | cons key keys ih => rw [List.foldl_cons, ih, remove]

section Write

variable (result : SettingsRows × Option SettingsError) (removed : List SettingsView)

/-- The keys of the views a write removes. -/
def cacheKeys (service : SettingsService) (removed : List SettingsView) : List String :=
  removed.map (SettingsView.cacheKey service.moduleName)

theorem mem_cacheKeys {view : SettingsView} :
    view.cacheKey service.moduleName ∈ cacheKeys service removed ↔ view ∈ removed :=
  List.mem_map_of_injective (cacheKey_injective service.moduleName)

theorem write_rows : (s.write result (cacheKeys service removed)).rows = result.1 := by
  unfold write
  cases result.2 with
  | some e => rfl
  | none => exact foldl_remove_rows _

theorem write_now : (s.write result (cacheKeys service removed)).now = s.now := by
  unfold write
  cases result.2 with
  | some e => rfl
  | none => exact foldl_remove_now _

theorem write_read : (s.write result (cacheKeys service removed)).read = s.read := by
  unfold write
  cases result.2 with
  | some e => rfl
  | none => exact foldl_remove_read _

theorem lookup_write (now : Int) (view : SettingsView) :
    (s.write result (cacheKeys service removed)).cache.lookup now
        (view.cacheKey service.moduleName) =
      if result.2 = none ∧ view ∈ removed then none
      else s.cache.lookup now (view.cacheKey service.moduleName) := by
  unfold write
  cases result.2 with
  | some e => simp
  | none => simp [lookup_foldl_remove, mem_cacheKeys]

theorem isCached_write (view : SettingsView) :
    (s.write result (cacheKeys service removed)).isCached service view = true ↔
      s.isCached service view = true ∧ ¬(result.2 = none ∧ view ∈ removed) := by
  rw [isCached, write_now, lookup_write]
  by_cases h : result.2 = none ∧ view ∈ removed
  · simp [h]
  · rw [if_neg h]
    simp only [h, not_false_eq_true, and_true]
    rfl

theorem write_tracked (h : s.Tracked service) :
    (s.write result (cacheKeys service removed)).Tracked service := by
  intro view hcached
  rw [write_read]
  exact h view ((isCached_write result removed view).mp hcached).1

/-- A write leaves the cache coherent exactly when the merges it changes are not cached, or are
removed from the cache. -/
theorem write_coherent_iff (hcoherent : s.Coherent service) (htracked : s.Tracked service) :
    (s.write result (cacheKeys service removed)).Coherent service ↔
      s.sparesCached service result removed = true := by
  have hold : (s.write result (cacheKeys service removed)).cache.Agrees s.now
      (SettingsView.cacheKey service.moduleName) (service.merged s.rows) := by
    intro view v hv
    rw [lookup_write] at hv
    split at hv
    · cases hv
    · exact hcoherent view v hv
  rw [Coherent, write_now, write_rows, ExpiringMap.agrees_change hold]
  have hcached : ∀ view,
      ((s.write result (cacheKeys service removed)).cache.lookup s.now
        (view.cacheKey service.moduleName)).isSome = true ↔
      s.isCached service view = true ∧ ¬(result.2 = none ∧ view ∈ removed) := by
    intro view
    rw [← isCached_write, isCached, write_now]
  simp only [hcached, sparesCached, List.all_eq_true, Bool.or_eq_true, Bool.not_eq_true',
    Bool.and_eq_true, Option.isNone_iff_eq_none, List.contains_iff_mem, decide_eq_true_eq]
  constructor
  · intro h view _
    by_cases hview : s.isCached service view = true
    · by_cases hgone : result.2 = none ∧ view ∈ removed
      · exact .inl (.inr hgone)
      · exact .inr (h view ⟨hview, hgone⟩)
    · exact .inl (.inl (Bool.eq_false_iff.mpr hview))
  · rintro h view ⟨hview, hgone⟩
    -- only what has been read can be cached
    obtain (huncached | hremoved) | hsame := h view (htracked view hview)
    · rw [hview] at huncached
      cases huncached
    · exact absurd hremoved hgone
    · exact hsame

end Write

/-! ### Histories -/

theorem apply_tracked (h : s.Tracked service) (op : SettingsOp) :
    (s.apply service op).Tracked service := by
  cases op with
  | getTenantSettings tenantId => exact get_tracked h _
  | getUserSettings tenantId userId => exact get_tracked h _
  | getConfig tenantId userId => exact get_tracked h _
  | updateTenantSettings tenantId settings updatedBy =>
    exact write_tracked _ [.tenant tenantId, .user tenantId updatedBy] h
  | updateUserSettings tenantId userId settings =>
    exact write_tracked _ [.user tenantId userId] h
  | deleteTenantSettings tenantId keys deletedBy =>
    exact write_tracked _ [.tenant tenantId, .user tenantId deletedBy] h
  | deleteUserSettings tenantId userId keys =>
    exact write_tracked _ [.user tenantId userId] h
  | tenantSettingChanged tenantId moduleId => exact remove_tracked h _
  | userSettingChanged tenantId userId moduleId => exact remove_tracked h _
  | evict key => exact remove_tracked h _
  | tick ticks => exact tick_tracked h _

theorem apply_coherent_iff (hcoherent : s.Coherent service) (htracked : s.Tracked service)
    (op : SettingsOp) :
    (s.apply service op).Coherent service ↔ s.allowed service op = true := by
  cases op with
  | getTenantSettings tenantId => exact iff_of_true (get_coherent hcoherent _) rfl
  | getUserSettings tenantId userId => exact iff_of_true (get_coherent hcoherent _) rfl
  | getConfig tenantId userId => exact iff_of_true (get_coherent hcoherent _) rfl
  | updateTenantSettings tenantId settings updatedBy =>
    exact write_coherent_iff _ [.tenant tenantId, .user tenantId updatedBy] hcoherent
      htracked
  | updateUserSettings tenantId userId settings =>
    exact write_coherent_iff _ [.user tenantId userId] hcoherent htracked
  | deleteTenantSettings tenantId keys deletedBy =>
    exact write_coherent_iff _ [.tenant tenantId, .user tenantId deletedBy] hcoherent
      htracked
  | deleteUserSettings tenantId userId keys =>
    exact write_coherent_iff _ [.user tenantId userId] hcoherent htracked
  | tenantSettingChanged tenantId moduleId => exact iff_of_true (remove_coherent hcoherent _) rfl
  | userSettingChanged tenantId userId moduleId =>
    exact iff_of_true (remove_coherent hcoherent _) rfl
  | evict key => exact iff_of_true (remove_coherent hcoherent _) rfl
  | tick ticks => exact iff_of_true (tick_coherent hcoherent _) rfl

/-- A history goes through to its end. -/
theorem exists_follow (ops : List SettingsOp) (s : SettingsStore) :
    ∃ t, follow (step service) s ops = some t := by
  induction ops generalizing s with
  | nil => exact ⟨s, rfl⟩
  | cons op ops ih => exact ih (s.apply service op)

def storageMaxUpload : SettingMetadata :=
  ⟨"MaxUploadSizeMb", "Maximum file upload size in megabytes", "50"⟩

def storageService : SettingsService where
  registry := ⟨"storage", [("storage.max_upload_size_mb", storageMaxUpload)], by simp⟩
  collation := fun _ _ => true
  tenantStorable := fun _ => true
  userStorable := fun _ => true

/-- User 2 reads the default, and user 1 sets it for the tenant. -/
def unseenChange : List SettingsOp :=
  [.getUserSettings 7 2,
    .updateTenantSettings 7 [⟨"storage.max_upload_size_mb", "10"⟩] 1]

/-- Whatever is cached is the merge of some rows. -/
def CachesComplete (service : SettingsService) (s : SettingsStore) : Prop :=
  ∀ key e, s.cache key = some e → Complete service.registry e.value

section

variable {service : SettingsService} {s : SettingsStore}

theorem CachesComplete.get (h : s.CachesComplete service) (view : SettingsView) :
    Complete service.registry (s.get service view).1 ∧
      (s.get service view).2.CachesComplete service := by
  have hfresh : Complete service.registry (service.merged s.rows view) := by
    cases view with
    | tenant tenantId => exact complete_mergeTenantWithDefaults _
    | user tenantId userId => exact complete_mergeAllWithDefaults _ _
  unfold SettingsStore.get ExpiringMap.readThrough
  cases hcached : s.cache.lookup s.now (view.cacheKey service.moduleName) with
  | some settings =>
    have ⟨e, he, _, hvalue⟩ := ExpiringMap.lookup_eq_some_iff.mp hcached
    exact ⟨hvalue ▸ h _ e he, h⟩
  | none =>
    refine ⟨hfresh, fun key e he => ?_⟩
    rcases ExpiringMap.some_of_put he with ⟨_, rfl⟩ | he
    · exact hfresh
    · exact h key e he

theorem CachesComplete.remove (h : s.CachesComplete service) (key : String) :
    (s.remove key).CachesComplete service :=
  fun key' e he => h key' e (ExpiringMap.some_of_erase he).2

theorem CachesComplete.write (h : s.CachesComplete service)
    (result : SettingsRows × Option SettingsError) (keys : List String) :
    (s.write result keys).CachesComplete service := by
  have hkept : CachesComplete service { s with rows := result.1 } := h
  unfold SettingsStore.write
  cases result.2 with
  | some error => exact hkept
  | none =>
    show CachesComplete service (keys.foldl SettingsStore.remove { s with rows := result.1 })
    generalize { s with rows := result.1 } = s' at hkept ⊢
    induction keys generalizing s' with
    | nil => exact hkept
    | cons key keys ih => exact ih _ (hkept.remove key)

theorem CachesComplete.apply (h : s.CachesComplete service) (op : SettingsOp) :
    (s.apply service op).CachesComplete service := by
  cases op with
  | getTenantSettings | getUserSettings | getConfig => exact (h.get _).2
  | updateTenantSettings | updateUserSettings => exact h.write _ _
  | deleteTenantSettings | deleteUserSettings => exact h.write (_, none) _
  | tenantSettingChanged | userSettingChanged | evict => exact h.remove _
  | tick ticks => exact h

end

/-- After every history, whatever stale merges it has left in the cache, a user's config is made:
it has one entry for each key, and one for every registered setting. -/
theorem getConfig_complete (service : SettingsService) (rows : SettingsRows) (now : Instant)
    (ops : List SettingsOp) (tenantId : TenantId) (userId : UserId) :
    ∃ settings, Complete service.registry settings ∧
      ((ops.foldl (apply service) (start rows now)).getConfig service tenantId userId).1 =
        some (settings.map fun s => (s.key, s.value)) := by
  have hcaches : (ops.foldl (apply service) (start rows now)).CachesComplete service := by
    induction ops using List.reverseRecOn with
    | nil => exact fun _ _ he => nomatch he
    | append_singleton ops op ih =>
      rw [List.foldl_append]
      exact ih.apply op
  have hcomplete := (hcaches.get (.user tenantId userId)).1
  exact ⟨_, hcomplete, if_pos hcomplete.nodup⟩

end SettingsStore

end Wallow.Shared
