import Wallow.Shared.SettingsCache
import Mathlib.Data.Finset.Card

/-!
# Updates of the settings that fail half way

`UpdateTenantSettingsAsync` and `UpdateUserSettingsAsync` save one update after another, and remove
what is cached only after the last.  An update that stops them leaves those before it saved.
-/

namespace Wallow.Shared

open Api (TenantId)

/-! ## The loop -/

section Loop

variable {ω : Type} [DecidableEq ω]

/-- What the repositories count before an insert: the custom keys of the owner, of which there may
be `maximum`. -/
def fullAt (maximum : Option Nat) (rows : List (SettingEntity ω)) (entity : SettingEntity ω) :
    Bool :=
  SettingKeyValidator.isCustomKey entity.settingKey &&
    maximum.any fun maximum =>
      maximum ≤ rows.countP fun e =>
        e.owner = entity.owner && SettingKeyValidator.isCustomKey e.settingKey

/-- One owner's rows of one module, and what the database takes. -/
structure SettingsOwner (ω : Type) where
  registry : SettingRegistry
  owner : ω
  storable : SettingEntity ω → Bool
  maximum : Option Nat

namespace SettingsOwner

variable (o : SettingsOwner ω)

def entity (update : SettingUpdate) : SettingEntity ω :=
  ⟨o.owner, o.registry.moduleName, update.key, update.value⟩

def isAt (key : String) (e : SettingEntity ω) : Bool := e.isAt o.owner o.registry.moduleName key

def upsert (rows : List (SettingEntity ω)) (update : SettingUpdate) :
    Except SettingsError (List (SettingEntity ω)) :=
  Shared.upsert o.storable (fullAt o.maximum) rows (o.entity update)

/-- The loop of both updates, with what becomes of the call for each update. -/
def updateRows (rows : List (SettingEntity ω)) :
    List (SettingUpdate × CallOutcome) → List (SettingEntity ω) × Option SettingsError
  | [] => (rows, none)
  | (update, outcome) :: settings =>
    if SettingKeyValidator.validate o.registry update.key = .unknown then
      (rows, some (.unknownKey update.key))
    else
      match o.upsert rows update with
      | .error e => (rows, some e)
      | .ok saved =>
        match outcome with
        | .returns => updateRows saved settings
        | .fails => (rows, some .refused)
        | .failsApplied => (saved, some .refused)

/-! ## When an update that fails has changed nothing -/

def stored (rows : List (SettingEntity ω)) (key : String) : Bool := rows.any (o.isAt key)

/-- The custom keys of `before` that have no row. -/
def newCustomKeys (rows : List (SettingEntity ω)) (before : List SettingUpdate) : Finset String :=
  (before.map (·.key)).toFinset.filter fun key =>
    SettingKeyValidator.isCustomKey key = true ∧ o.stored rows key = false

/-- An update is taken after those of `before` have been. -/
def admits (rows : List (SettingEntity ω)) (before : List SettingUpdate) (update : SettingUpdate) :
    Bool :=
  SettingKeyValidator.validate o.registry update.key ≠ .unknown &&
  (o.stored rows update.key || (before.map (·.key)).contains update.key ||
    !(SettingKeyValidator.isCustomKey update.key && o.maximum.any fun maximum =>
      maximum ≤ (rows.countP fun e =>
          e.owner = o.owner && SettingKeyValidator.isCustomKey e.settingKey) +
        (o.newCustomKeys rows before).card)) &&
  o.storable (o.entity update)

/-- The value that the last update of `key` gives it. -/
def lastValue (updates : List SettingUpdate) (key : String) : Option String :=
  (updates.reverse.find? (·.key = key)).map (·.value)

/-- Each key of the updates has a row, and the last update of the key has its value. -/
def rewrites (rows : List (SettingEntity ω)) (updates : List SettingUpdate) : Bool :=
  updates.all fun update =>
    o.stored rows update.key &&
      rows.all fun e => !o.isAt update.key e || lastValue updates update.key = some e.value

/-- Where the updates stop, what has been saved are values that the rows already had. -/
def stopsClean (rows : List (SettingEntity ω)) :
    List SettingUpdate → List (SettingUpdate × CallOutcome) → Bool
  | _, [] => true
  | before, (update, outcome) :: settings =>
    if o.admits rows before update then
      match outcome with
      | .returns => stopsClean rows (before ++ [update]) settings
      | .fails => o.rewrites rows before
      | .failsApplied => o.rewrites rows (before ++ [update])
    else o.rewrites rows before

/-! ## The rows along the loop -/

/-- A row for the update, or its value in the row there is. -/
def put (rows : List (SettingEntity ω)) (update : SettingUpdate) : List (SettingEntity ω) :=
  if o.stored rows update.key then
    rows.map fun e => if o.isAt update.key e then { e with value := update.value } else e
  else rows ++ [o.entity update]

def rowsAfter (rows : List (SettingEntity ω)) (updates : List SettingUpdate) :
    List (SettingEntity ω) :=
  updates.foldl o.put rows

variable {o} {rows : List (SettingEntity ω)} {before : List SettingUpdate}
  {update : SettingUpdate}

theorem rowsAfter_append :
    o.rowsAfter rows (before ++ [update]) = o.put (o.rowsAfter rows before) update := by
  rw [rowsAfter, List.foldl_append]
  rfl

theorem isAt_iff {key : String} {e : SettingEntity ω} :
    o.isAt key e = true ↔
      e.owner = o.owner ∧ e.moduleKey = o.registry.moduleName ∧ e.settingKey = key := by
  simp [isAt, SettingEntity.isAt, and_assoc]

theorem isAt_written {key key' : String} {e : SettingEntity ω} (value : String) :
    o.isAt key (if o.isAt key' e then { e with value } else e) = o.isAt key e := by
  split
  · rfl
  · rfl

theorem stored_put (key : String) :
    o.stored (o.put rows update) key = (o.stored rows key || decide (update.key = key)) := by
  unfold put
  split
  · rename_i hstored
    have hsame : o.stored (rows.map fun e =>
        if o.isAt update.key e then { e with value := update.value } else e) key =
        o.stored rows key := by
      simp only [stored, List.any_map, Function.comp_def, isAt_written]
    rw [hsame]
    by_cases hkey : update.key = key
    · rw [← hkey, hstored, Bool.true_or]
    · simp [hkey]
  · have hentity : o.isAt key (o.entity update) = decide (update.key = key) := by
      by_cases hkey : update.key = key
      · rw [isAt_iff.mpr ⟨rfl, rfl, hkey⟩, decide_eq_true hkey]
      · rw [decide_eq_false hkey]
        exact Bool.eq_false_iff.mpr fun h => hkey (isAt_iff.mp h).2.2
    simp [stored, hentity]

theorem stored_rowsAfter (key : String) :
    o.stored (o.rowsAfter rows before) key =
      (o.stored rows key || (before.map (·.key)).contains key) := by
  induction before using List.reverseRecOn with
  | nil => simp [rowsAfter]
  | append_singleton before update ih =>
    rw [rowsAfter_append, stored_put, ih]
    simp [Bool.or_assoc, eq_comm]

/-- The rows that the maximum is about. -/
def countCustom (o : SettingsOwner ω) (rows : List (SettingEntity ω)) : Nat :=
  rows.countP fun e => e.owner = o.owner && SettingKeyValidator.isCustomKey e.settingKey

theorem countCustom_put :
    o.countCustom (o.put rows update) =
      o.countCustom rows + if SettingKeyValidator.isCustomKey update.key = true ∧
        o.stored rows update.key = false then 1 else 0 := by
  unfold put
  split
  · rename_i hstored
    have hsame : ∀ e : SettingEntity ω, (decide ((if o.isAt update.key e then
          { e with value := update.value } else e).owner = o.owner) &&
        SettingKeyValidator.isCustomKey (if o.isAt update.key e then
          { e with value := update.value } else e).settingKey) =
        (decide (e.owner = o.owner) && SettingKeyValidator.isCustomKey e.settingKey) := by
      intro e
      split
      · rfl
      · rfl
    simp only [countCustom, List.countP_map, Function.comp_def, hsame, hstored]
    simp
  · rename_i hstored
    rw [Bool.not_eq_true] at hstored
    have hentity : (decide ((o.entity update).owner = o.owner) &&
        SettingKeyValidator.isCustomKey (o.entity update).settingKey) =
        SettingKeyValidator.isCustomKey update.key := by
      rw [show (o.entity update).owner = o.owner from rfl, decide_eq_true rfl, Bool.true_and]
      rfl
    simp only [countCustom, List.countP_append, List.countP_singleton, hentity, hstored, and_true]

theorem newCustomKeys_append :
    (o.newCustomKeys rows (before ++ [update])).card =
      (o.newCustomKeys rows before).card +
        if SettingKeyValidator.isCustomKey update.key = true ∧
          o.stored (o.rowsAfter rows before) update.key = false then 1 else 0 := by
  have hkeys : ((before ++ [update]).map (·.key)).toFinset =
      insert update.key (before.map (·.key)).toFinset := by
    ext key
    simp
  rw [newCustomKeys, hkeys, Finset.filter_insert, stored_rowsAfter]
  by_cases hnew : SettingKeyValidator.isCustomKey update.key = true ∧
      o.stored rows update.key = false
  · rw [if_pos hnew]
    by_cases hseen : update.key ∈ before.map (·.key)
    · have hmem : update.key ∈ o.newCustomKeys rows before := by
        rw [newCustomKeys, Finset.mem_filter, List.mem_toFinset]
        exact ⟨hseen, hnew⟩
      have hcontains : (before.map (·.key)).contains update.key = true :=
        List.contains_iff_mem.mpr hseen
      rw [← newCustomKeys, Finset.insert_eq_of_mem hmem, hcontains, Bool.or_true,
        if_neg (fun h => Bool.noConfusion h.2), Nat.add_zero]
    · have hnotmem : update.key ∉ o.newCustomKeys rows before := by
        rw [newCustomKeys, Finset.mem_filter, List.mem_toFinset]
        exact fun h => hseen h.1
      have hcontains : (before.map (·.key)).contains update.key = false :=
        Bool.eq_false_iff.mpr fun h => hseen (List.contains_iff_mem.mp h)
      rw [← newCustomKeys, Finset.card_insert_of_notMem hnotmem, hnew.2, hcontains,
        if_pos ⟨hnew.1, rfl⟩]
  · rw [if_neg hnew, ← newCustomKeys, if_neg]
    · omega
    · rw [Bool.or_eq_false_iff]
      exact fun h => hnew ⟨h.1, h.2.1⟩

theorem countCustom_rowsAfter :
    o.countCustom (o.rowsAfter rows before) =
      o.countCustom rows + (o.newCustomKeys rows before).card := by
  induction before using List.reverseRecOn with
  | nil => simp [rowsAfter, newCustomKeys]
  | append_singleton before update ih =>
    rw [rowsAfter_append, countCustom_put, newCustomKeys_append, ih]
    omega

theorem fullAt_entity : fullAt o.maximum rows (o.entity update) =
    (SettingKeyValidator.isCustomKey update.key && o.maximum.any fun maximum =>
      maximum ≤ o.countCustom rows) := rfl

/-- A call for an update whose key is known goes through exactly when it is admitted. -/
theorem upsert_rowsAfter (rows : List (SettingEntity ω)) (before : List SettingUpdate)
    (hknown : SettingKeyValidator.validate o.registry update.key ≠ .unknown) :
    (o.admits rows before update = true →
      o.upsert (o.rowsAfter rows before) update = .ok (o.rowsAfter rows (before ++ [update]))) ∧
    (o.admits rows before update = false →
      ∃ e, o.upsert (o.rowsAfter rows before) update = .error e) := by
  have hstored : (o.rowsAfter rows before).any
      (·.isAt (o.entity update).owner (o.entity update).moduleKey (o.entity update).settingKey) =
      o.stored (o.rowsAfter rows before) update.key := rfl
  have hadmits : o.admits rows before update =
      ((o.stored (o.rowsAfter rows before) update.key ||
        !(fullAt o.maximum (o.rowsAfter rows before) (o.entity update))) &&
      o.storable (o.entity update)) := by
    rw [admits, decide_eq_true hknown, Bool.true_and, stored_rowsAfter, fullAt_entity,
      countCustom_rowsAfter]
    rfl
  rw [hadmits, rowsAfter_append, put, upsert, Shared.upsert, hstored]
  cases o.stored (o.rowsAfter rows before) update.key with
  | true =>
    cases o.storable (o.entity update) with
    | true => exact ⟨fun _ => rfl, nofun⟩
    | false => exact ⟨nofun, fun _ => ⟨.refused, rfl⟩⟩
  | false =>
    cases fullAt o.maximum (o.rowsAfter rows before) (o.entity update) with
    | true => exact ⟨nofun, fun _ => ⟨.tooManyKeys, rfl⟩⟩
    | false =>
      cases o.storable (o.entity update) with
      | true => exact ⟨fun _ => rfl, nofun⟩
      | false => exact ⟨nofun, fun _ => ⟨.refused, rfl⟩⟩

/-! ## Rows that come out as they were -/

/-- A row with the value that the updates leave in it. -/
def written (o : SettingsOwner ω) (updates : List SettingUpdate) (e : SettingEntity ω) :
    SettingEntity ω :=
  if o.isAt e.settingKey e then
    { e with value := (lastValue updates e.settingKey).getD e.value }
  else e

theorem lastValue_append (key : String) :
    lastValue (before ++ [update]) key =
      if update.key = key then some update.value else lastValue before key := by
  by_cases hkey : update.key = key
  · simp [lastValue, hkey]
  · simp [lastValue, hkey]

theorem isAt_self_of_isAt {key : String} {e : SettingEntity ω} (h : o.isAt key e = true) :
    o.isAt e.settingKey e = true ∧ e.settingKey = key := by
  have hat := isAt_iff.mp h
  exact ⟨isAt_iff.mpr ⟨hat.1, hat.2.1, rfl⟩, hat.2.2⟩

theorem isAt_written_eq (key : String) (e : SettingEntity ω) :
    o.isAt key (o.written before e) = o.isAt key e := by
  unfold written
  split
  · rfl
  · rfl

theorem written_append (e : SettingEntity ω) :
    o.written (before ++ [update]) e =
      if o.isAt update.key (o.written before e) then
        { o.written before e with value := update.value }
      else o.written before e := by
  rw [isAt_written_eq]
  by_cases hat : o.isAt update.key e = true
  · have ⟨hself, hkey⟩ := isAt_self_of_isAt hat
    rw [if_pos hat, written, written, if_pos hself, if_pos hself, lastValue_append,
      if_pos hkey.symm]
    rfl
  · rw [if_neg hat]
    unfold written
    split
    · rename_i hself
      have hkey : ¬update.key = e.settingKey := by
        intro heq
        rw [heq] at hat
        exact hat hself
      rw [lastValue_append, if_neg hkey]
    · rfl

/-- Where every key has its row, the updates write in place. -/
theorem rowsAfter_of_stored (h : ∀ u ∈ before, o.stored rows u.key = true) :
    o.rowsAfter rows before = rows.map (o.written before) := by
  induction before using List.reverseRecOn with
  | nil =>
    have hnone : ∀ e : SettingEntity ω, o.written [] e = e := by
      intro e
      unfold written
      split
      · rfl
      · rfl
    simp only [rowsAfter, List.foldl_nil, funext hnone, List.map_id']
  | append_singleton before update ih =>
    have hbefore : ∀ u ∈ before, o.stored rows u.key = true :=
      fun u hu => h u (List.mem_append_left _ hu)
    have hstored : o.stored (o.rowsAfter rows before) update.key = true := by
      rw [stored_rowsAfter, h update (by simp), Bool.true_or]
    rw [rowsAfter_append, put, if_pos hstored, ih hbefore, List.map_map]
    apply List.map_congr_left
    intro e _
    rw [written_append]
    rfl

/-- A key that had no row has added one. -/
theorem stored_of_rowsAfter_eq (h : o.rowsAfter rows before = rows) :
    ∀ u ∈ before, o.stored rows u.key = true := by
  intro u hu
  have hafter : o.stored (o.rowsAfter rows before) u.key = true := by
    rw [stored_rowsAfter, List.contains_iff_mem.mpr (List.mem_map_of_mem hu), Bool.or_true]
  rwa [h] at hafter

theorem lastValue_isSome {u : SettingUpdate} (h : u ∈ before) :
    (lastValue before u.key).isSome = true := by
  rw [lastValue, Option.isSome_map, List.find?_isSome]
  exact ⟨u, List.mem_reverse.mpr h, decide_eq_true rfl⟩

theorem mem_of_lastValue {key value : String} (h : lastValue before key = some value) :
    ∃ u ∈ before, u.key = key := by
  have ⟨u, hfind, _⟩ := Option.map_eq_some_iff.mp h
  have hkey := List.find?_some hfind
  exact ⟨u, List.mem_reverse.mp (List.mem_of_find?_eq_some hfind), of_decide_eq_true hkey⟩

theorem written_eq_self_iff {e : SettingEntity ω} :
    o.written before e = e ↔
      ∀ u ∈ before, o.isAt u.key e = true → lastValue before u.key = some e.value := by
  constructor
  · intro h u hu hat
    have ⟨hself, hkey⟩ := isAt_self_of_isAt hat
    have ⟨value, hvalue⟩ := Option.isSome_iff_exists.mp (lastValue_isSome hu)
    have hsame := congrArg SettingEntity.value h
    rw [written, if_pos hself, hkey, hvalue] at hsame
    rw [hvalue]
    exact congrArg some hsame
  · intro h
    unfold written
    split
    · rename_i hself
      cases hvalue : lastValue before e.settingKey with
      | none => rfl
      | some value =>
        have ⟨u, hu, hkey⟩ := mem_of_lastValue hvalue
        have hlast := h u hu (by rw [hkey]; exact hself)
        rw [hkey] at hlast
        rw [← hvalue, hlast]
        rfl
    · rfl

/-- The updates leave the rows as they were exactly when they rewrite what they had. -/
theorem rowsAfter_eq_iff : o.rowsAfter rows before = rows ↔ o.rewrites rows before = true := by
  have hrewrites : o.rewrites rows before = true ↔
      (∀ u ∈ before, o.stored rows u.key = true) ∧
        ∀ u ∈ before, ∀ e ∈ rows, o.isAt u.key e = true →
          lastValue before u.key = some e.value := by
    simp only [rewrites, List.all_eq_true, Bool.and_eq_true, Bool.or_eq_true, Bool.not_eq_true',
      decide_eq_true_eq]
    constructor
    · intro h
      refine ⟨fun u hu => (h u hu).1, fun u hu e he hat => ?_⟩
      cases (h u hu).2 e he with
      | inl hnot => rw [hat] at hnot; cases hnot
      | inr hvalue => exact hvalue
    · intro ⟨hstored, hvalues⟩ u hu
      refine ⟨hstored u hu, fun e he => ?_⟩
      by_cases hat : o.isAt u.key e = true
      · exact .inr (hvalues u hu e he hat)
      · exact .inl (Bool.eq_false_iff.mpr hat)
  rw [hrewrites]
  have hmap : rows.map (o.written before) = rows ↔ ∀ e ∈ rows, o.written before e = e := by
    rw [← List.map_inj_left (g := fun e => e), List.map_id']
  constructor
  · intro h
    have hstored := stored_of_rowsAfter_eq h
    rw [rowsAfter_of_stored hstored, hmap] at h
    exact ⟨hstored, fun u hu e he => written_eq_self_iff.mp (h e he) u hu⟩
  · intro ⟨hstored, hvalues⟩
    rw [rowsAfter_of_stored hstored, hmap]
    exact fun e he => written_eq_self_iff.mpr fun u hu => hvalues u hu e he

/-- An update that fails leaves the rows as they were exactly when it stops clean. -/
theorem updateRows_rows_iff (settings : List (SettingUpdate × CallOutcome))
    (before : List SettingUpdate) :
    ((o.updateRows (o.rowsAfter rows before) settings).2 ≠ none →
      (o.updateRows (o.rowsAfter rows before) settings).1 = rows) ↔
    o.stopsClean rows before settings = true := by
  induction settings generalizing before with
  | nil => exact iff_of_true (fun h => absurd rfl h) rfl
  | cons call settings ih =>
    have hstop : ∀ (saved : List SettingUpdate) (e : SettingsError),
        ((o.rowsAfter rows saved, some e).2 ≠ none → (o.rowsAfter rows saved, some e).1 = rows) ↔
          o.rewrites rows saved = true := by
      intro saved e
      rw [← rowsAfter_eq_iff]
      exact ⟨fun h => h (Option.some_ne_none e), fun h _ => h⟩
    have (update, outcome) := call
    rw [updateRows, stopsClean.eq_def]
    dsimp only
    by_cases hunknown : SettingKeyValidator.validate o.registry update.key = .unknown
    · have hadmits : o.admits rows before update = false := by
        rw [admits, decide_eq_false (not_not_intro hunknown), Bool.false_and, Bool.false_and]
      rw [if_pos hunknown, hadmits]
      exact hstop before _
    · have ⟨hgoes, hfails⟩ := upsert_rowsAfter rows before hunknown
      rw [if_neg hunknown]
      cases hadmits : o.admits rows before update with
      | false =>
        have ⟨e, he⟩ := hfails hadmits
        rw [he]
        exact hstop before e
      | true =>
        rw [hgoes hadmits, if_pos rfl]
        cases outcome with
        | returns => exact ih (before ++ [update])
        | fails => exact hstop before _
        | failsApplied => exact hstop (before ++ [update]) _

end SettingsOwner

end Loop

/-! ## The updates of the service -/

namespace SettingsService

variable (service : SettingsService)

def tenantOwner (tenantId : TenantId) : SettingsOwner TenantId where
  registry := service.registry
  owner := tenantId
  storable := service.tenantStorable
  maximum := some SettingKeyValidator.MaxCustomKeysPerTenant

def userOwner (tenantId : TenantId) (userId : UserId) : SettingsOwner (TenantId × UserId) where
  registry := service.registry
  owner := (tenantId, userId)
  storable := service.userStorable
  maximum := none

/-- The updates of a call whose repository never fails of its own. -/
def returning (settings : List SettingUpdate) : List (SettingUpdate × CallOutcome) :=
  settings.map fun update => (update, .returns)

end SettingsService

namespace SettingsStore

variable (service : SettingsService)

/-- `UpdateTenantSettingsAsync` over calls of its repository that may fail, with what it throws. -/
def updateTenantSettingsCalls (s : SettingsStore) (tenantId : TenantId)
    (settings : List (SettingUpdate × CallOutcome)) (updatedBy : UserId) :
    SettingsStore × Option SettingsError :=
  let result := (service.tenantOwner tenantId).updateRows s.rows.tenantSettings settings
  (s.write ({ s.rows with tenantSettings := result.1 }, result.2)
    [tenantCacheKey service.moduleName tenantId,
      userCacheKey service.moduleName tenantId updatedBy], result.2)

def updateUserSettingsCalls (s : SettingsStore) (tenantId : TenantId) (userId : UserId)
    (settings : List (SettingUpdate × CallOutcome)) : SettingsStore × Option SettingsError :=
  let result := (service.userOwner tenantId userId).updateRows s.rows.userSettings settings
  (s.write ({ s.rows with userSettings := result.1 }, result.2)
    [userCacheKey service.moduleName tenantId userId], result.2)

/-- A failure leaves the rows, and every cached entry that agreed with them goes on agreeing. -/
def FailsClean (s : SettingsStore) (result : SettingsStore × Option SettingsError) : Prop :=
  result.2 ≠ none →
    result.1.rows = s.rows ∧
    ∀ view v, s.cache.lookup s.now (SettingsView.cacheKey service.moduleName view) = some v →
      v = service.merged s.rows view →
      ∀ v', result.1.cache.lookup result.1.now (view.cacheKey service.moduleName) = some v' →
        v' = service.merged result.1.rows view

variable {service}

/-- A write that fails touches the rows only. -/
theorem failsClean_write_iff (s : SettingsStore) (rows : SettingsRows)
    (error : Option SettingsError) (keys : List String) :
    FailsClean service s (s.write (rows, error) keys, error) ↔ (error ≠ none → rows = s.rows) := by
  cases error with
  | none => exact iff_of_true (fun h => absurd rfl h) (fun h => absurd rfl h)
  | some e =>
    constructor
    · intro h he
      exact (h he).1
    · intro h he
      refine ⟨h he, fun view v hv hagrees v' hv' => ?_⟩
      have hsame : v' = v := Option.some.inj (hv'.symm.trans hv)
      have hrows : (s.write (rows, some e) keys).rows = s.rows := h he
      rw [hsame, hagrees, hrows]

/-- Tenant 7's settings have been read, and are cached. -/
def readStore : SettingsStore :=
  ((start ⟨[], []⟩ 0).getTenantSettings storageService 7).2

def halfUpdate : List (SettingUpdate × CallOutcome) :=
  [(⟨"storage.max_upload_size_mb", "10"⟩, .returns), (⟨"storage.unknown", "1"⟩, .returns)]

end SettingsStore

end Wallow.Shared
