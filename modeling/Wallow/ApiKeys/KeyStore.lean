import Wallow.ApiKeys.Keys
import Wallow.Lib.Transition
import Mathlib.Logic.Function.Basic

/-!
# Keys validated from the cache and from the database

The operations of `RedisApiKeyService` one after the other, over the rows and the cache.  Every
query runs under the tenant of its database context; the one `ApiKeyAuthenticationMiddleware` is
given is built before a tenant is resolved.
-/

namespace Wallow.ApiKeys

open Transition

/-- The table `api_keys` and the three families of cache names. -/
structure KeyStore where
  rows : List ApiKey
  byHash : String → Option ApiKeyData
  byId : String → Option ApiKeyData
  userSet : String → List String

/-- The tenant of the context behind a request's validation. -/
def MIDDLEWARE_TENANT : Uuid := 0

namespace KeyStore

def empty : KeyStore := ⟨[], fun _ => none, fun _ => none, fun _ => []⟩

variable (sha256Hex : String → String)

/-! ## The repository, under a context's tenant filter -/

def getByHash (s : KeyStore) (tenant : Uuid) (hash : String) : Option ApiKey :=
  s.rows.find? fun row => row.hashedKey = hash && row.tenantId = tenant

def getById (s : KeyStore) (tenant id : Uuid) : Option ApiKey :=
  s.rows.find? fun row => row.id = id && row.tenantId = tenant

def revokeRow (s : KeyStore) (id tenantId : Uuid) : KeyStore :=
  { s with rows := s.rows.map fun row =>
      if row.id = id ∧ row.tenantId = tenantId then { row with isRevoked := true } else row }

/-! ## The cache -/

def putByHash (s : KeyStore) (hash : String) (data : ApiKeyData) : KeyStore :=
  { s with byHash := Function.update s.byHash hash (some data) }

@[simp] theorem putByHash_self (s : KeyStore) (hash : String) (data : ApiKeyData) :
    (s.putByHash hash data).byHash hash = some data :=
  Function.update_self ..

theorem putByHash_of_ne (s : KeyStore) {hash hash' : String} (data : ApiKeyData)
    (h : hash' ≠ hash) : (s.putByHash hash data).byHash hash' = s.byHash hash' :=
  Function.update_of_ne h ..

def evict (s : KeyStore) (hash : String) : KeyStore :=
  { s with byHash := Function.update s.byHash hash none }

@[simp] theorem evict_self (s : KeyStore) (hash : String) : (s.evict hash).byHash hash = none :=
  Function.update_self ..

theorem evict_of_ne (s : KeyStore) {hash hash' : String} (h : hash' ≠ hash) :
    (s.evict hash).byHash hash' = s.byHash hash' :=
  Function.update_of_ne h ..

def flush (s : KeyStore) : KeyStore :=
  { s with byHash := fun _ => none, byId := fun _ => none, userSet := fun _ => [] }

/-! ## The service -/

/-- `CreateApiKeyAsync`; `false` when it fails, which it also does when the cache refuses the
lifetime of a key persisted already. -/
def create (s : KeyStore) (apiKey : String) (id userId tenantId : Uuid) (name : String)
    (scopes : List String) (expiresAt : Option Instant) (now : Instant) : Bool × KeyStore :=
  if !creatable name then (false, s)
  else
    let row := ApiKey.create id tenantId userId (sha256Hex apiKey) name scopes expiresAt now
    let data := row.metadata userId apiKey now
    let added := { s with rows := s.rows ++ [row] }
    -- the `SET` throws: the row stays, uncached
    if !settable expiresAt now then (false, added)
    else
      let keyId := row.id.toString
      let user := userId.toString
      (true, { added.putByHash (sha256Hex apiKey) data with
        userSet := Function.update s.userSet user
          (if keyId ∈ s.userSet user then s.userSet user else s.userSet user ++ [keyId])
        byId := Function.update s.byId keyId (some data) })

/-- `UpdateLastUsedAsync`: entries that are still there, unless the lifetime is refused. -/
def updateLastUsed (s : KeyStore) (keyHash : String) (data : ApiKeyData) (now : Instant) :
    KeyStore :=
  if settable data.expiresAt now then
    let used := { data with lastUsedAt := some now }
    { s with
      byHash := Function.update s.byHash keyHash ((s.byHash keyHash).map fun _ => used)
      byId := Function.update s.byId data.keyId ((s.byId data.keyId).map fun _ => used) }
  else s

def validate (s : KeyStore) (tenant : Uuid) (apiKey : String) (now : Instant) :
    ApiKeyValidationResult × KeyStore :=
  if !hasFormat apiKey then (.invalidFormat, s)
  else
    let keyHash := sha256Hex apiKey
    match s.byHash keyHash with
    | some data =>
      (validateFromCachedData data now,
        if isExpired data.expiresAt now then s else s.updateLastUsed keyHash data now)
    | none =>
      match validateFromRow (s.getByHash tenant keyHash) keyHash now with
      | .inl result => (result, s)
      | .inr data =>
        -- the lifetime is refused: the exception is answered as an error
        if settable data.expiresAt now then (.valid data, s.putByHash keyHash data)
        else (.validationError, s)

def revoke (s : KeyStore) (tenant keyId userId : Uuid) : Bool × KeyStore :=
  match s.getById tenant keyId with
  | none => (false, s)
  | some row =>
    if row.serviceAccountId ≠ userId.toString then (false, s)
    else
      -- the entries go even when the row was revoked before
      let revoked := if row.isRevoked then s else s.revokeRow row.id row.tenantId
      (true, { revoked.evict row.hashedKey with
        byId := Function.update s.byId keyId.toString none
        userSet := Function.update s.userSet userId.toString
          ((s.userSet userId.toString).filter (· ≠ keyId.toString)) })

/-! ## Histories -/

inductive Op
  | create (apiKey : String) (id userId tenantId : Uuid) (name : String) (scopes : List String)
      (expiresAt : Option Instant) (now : Instant)
  | validate (tenant : Uuid) (apiKey : String) (now : Instant)
  | revoke (tenant keyId userId : Uuid)
  | evict (hash : String)
  | flush

/-- The key and the id of a creation are new: 32 random bytes, and a new `Guid`. -/
def step (s : KeyStore) : Op → Option KeyStore
  | .create apiKey id userId tenantId name scopes expiresAt now =>
    if s.rows.any fun row => row.hashedKey = sha256Hex apiKey || row.id = id then none
    else some (s.create sha256Hex apiKey id userId tenantId name scopes expiresAt now).2
  | .validate tenant apiKey now => some (s.validate sha256Hex tenant apiKey now).2
  | .revoke tenant keyId userId => some (s.revoke tenant keyId userId).2
  | .evict hash => some (s.evict hash)
  | .flush => some s.flush

/-- A stored entry says what its row says, and the row is not revoked. -/
structure Backed (s : KeyStore) : Prop where
  unique : ∀ row ∈ s.rows, ∀ row' ∈ s.rows, row.hashedKey = row'.hashedKey → row = row'
  ids : ∀ row ∈ s.rows, ∀ row' ∈ s.rows, row.id = row'.id → row = row'
  entry : ∀ hash data, s.byHash hash = some data →
    ∃ row ∈ s.rows, row.hashedKey = hash ∧ row.isRevoked = false ∧ Mirrors data row

variable {sha256Hex} {s s' : KeyStore} {hash : String} {data : ApiKeyData} {row : ApiKey}
  {tenant : Uuid} {now : Instant}

theorem empty_backed : empty.Backed where
  unique row h := by cases h
  ids row h := by cases h
  entry hash data h := by cases h

theorem getByHash_eq_some (h : s.getByHash tenant hash = some row) :
    row ∈ s.rows ∧ row.hashedKey = hash ∧ row.tenantId = tenant := by
  have hmem := List.mem_of_find?_eq_some h
  have hp := List.find?_some h
  rw [Bool.and_eq_true, decide_eq_true_eq, decide_eq_true_eq] at hp
  exact ⟨hmem, hp.1, hp.2⟩

/-- With one row to a hash, the filter finds it exactly under its own tenant. -/
theorem Backed.getByHash_eq (h : s.Backed) (hrow : row ∈ s.rows) :
    s.getByHash tenant row.hashedKey = if row.tenantId = tenant then some row else none := by
  cases hfind : s.getByHash tenant row.hashedKey with
  | none =>
    -- nothing found: the row is of another tenant
    have hnone := List.find?_eq_none.mp hfind row hrow
    rw [decide_eq_true rfl, Bool.true_and, decide_eq_true_eq] at hnone
    rw [if_neg hnone]
  | some found =>
    obtain ⟨hmem, hhash, htenant⟩ := getByHash_eq_some hfind
    have hsame : found = row := h.unique found hmem row hrow hhash
    subst hsame
    rw [if_pos htenant]

/-- Entries go and change no row. -/
theorem Backed.shrink (h : s.Backed) (hrows : s'.rows = s.rows)
    (hentry : ∀ hash data, s'.byHash hash = some data → s.byHash hash = some data) :
    s'.Backed where
  unique := by
    rw [hrows]
    exact h.unique
  ids := by
    rw [hrows]
    exact h.ids
  entry hash data hdata := by
    rw [hrows]
    exact h.entry hash data (hentry hash data hdata)

/-- An entry is written that says what its row says. -/
theorem Backed.put (h : s.Backed) (hrow : row ∈ s.rows) (hlive : row.isRevoked = false)
    (hmirrors : Mirrors data row) : (s.putByHash row.hashedKey data).Backed where
  unique := h.unique
  ids := h.ids
  entry hash data' hdata := by
    by_cases hhash : hash = row.hashedKey
    · subst hhash
      rw [putByHash_self, Option.some.injEq] at hdata
      exact ⟨row, hrow, rfl, hlive, hdata ▸ hmirrors⟩
    · rw [putByHash_of_ne s data hhash] at hdata
      exact h.entry hash data' hdata

theorem Backed.evict (h : s.Backed) (hash : String) : (s.evict hash).Backed := by
  refine h.shrink rfl fun hash' data hdata => ?_
  by_cases hhash : hash' = hash
  · subst hhash
    rw [evict_self] at hdata
    cases hdata
  · rw [evict_of_ne s hhash] at hdata
    exact hdata

/-- A row comes in whose hash and id are new. -/
theorem Backed.add (h : s.Backed) (row : ApiKey)
    (hnew : (s.rows.any fun row' => row'.hashedKey = row.hashedKey || row'.id = row.id) = false) :
    ({ s with rows := s.rows ++ [row] } : KeyStore).Backed := by
  -- both uniqueness facts are one: no old row shares the new one's value
  have hfresh : ∀ row' ∈ s.rows, row'.hashedKey ≠ row.hashedKey ∧ row'.id ≠ row.id := by
    intro row' hmem
    have hnot := List.any_eq_false.mp hnew row' hmem
    rw [Bool.or_eq_true, decide_eq_true_eq, decide_eq_true_eq, not_or] at hnot
    exact hnot
  have hpair : ∀ (f : ApiKey → String ⊕ Uuid), (∀ row' ∈ s.rows, f row' ≠ f row) →
      (∀ a ∈ s.rows, ∀ b ∈ s.rows, f a = f b → a = b) →
      ∀ a ∈ s.rows ++ [row], ∀ b ∈ s.rows ++ [row], f a = f b → a = b := by
    intro f hne hold a ha b hb heq
    rcases List.mem_append.mp ha with ha | ha
    · rcases List.mem_append.mp hb with hb | hb
      · exact hold a ha b hb heq
      · rw [List.mem_singleton.mp hb] at heq
        exact absurd heq (hne a ha)
    · rw [List.mem_singleton.mp ha] at heq ⊢
      rcases List.mem_append.mp hb with hb | hb
      · exact absurd heq.symm (hne b hb)
      · exact (List.mem_singleton.mp hb).symm
  refine ⟨?_, ?_, fun hash data hdata => ?_⟩
  · intro a ha b hb heq
    exact hpair (fun r => .inl r.hashedKey)
      (fun row' hmem heq => (hfresh row' hmem).1 (Sum.inl.inj heq))
      (fun a ha b hb heq => h.unique a ha b hb (Sum.inl.inj heq)) a ha b hb (congrArg Sum.inl heq)
  · intro a ha b hb heq
    exact hpair (fun r => .inr r.id)
      (fun row' hmem heq => (hfresh row' hmem).2 (Sum.inr.inj heq))
      (fun a ha b hb heq => h.ids a ha b hb (Sum.inr.inj heq)) a ha b hb (congrArg Sum.inr heq)
  · obtain ⟨row', hmem, hrest⟩ := h.entry hash data hdata
    exact ⟨row', List.mem_append_left _ hmem, hrest⟩

theorem Backed.create (h : s.Backed) {apiKey name : String} {id userId tenantId : Uuid}
    {scopes : List String} {expiresAt : Option Instant}
    (hnew : (s.rows.any fun row => row.hashedKey = sha256Hex apiKey || row.id = id) = false) :
    (s.create sha256Hex apiKey id userId tenantId name scopes expiresAt now).2.Backed := by
  unfold KeyStore.create
  split
  · exact h
  · have hadded := h.add
      (ApiKey.create id tenantId userId (sha256Hex apiKey) name scopes expiresAt now) hnew
    dsimp only
    split
    · exact hadded
    -- the owner survives being written as text, so the metadata mirrors the row
    · have hput := hadded.put (List.mem_append_right _ (List.mem_singleton_self _)) rfl
        (metadata_mirrors id tenantId userId (sha256Hex apiKey) name scopes expiresAt now apiKey)
      exact hput.shrink rfl fun _ _ hdata => hdata

theorem Backed.updateLastUsed (h : s.Backed) (hdata : s.byHash hash = some data) :
    (s.updateLastUsed hash data now).Backed := by
  unfold KeyStore.updateLastUsed
  split
  · obtain ⟨row, hrow, rfl, hlive, hmirrors⟩ := h.entry hash data hdata
    -- the entry is rewritten with a time of use, which no answer shows
    have hput := h.put hrow hlive (hmirrors.used (some now))
    refine hput.shrink rfl fun hash' data' hdata' => ?_
    rw [hdata] at hdata'
    exact hdata'
  · exact h

theorem Backed.validate (h : s.Backed) (apiKey : String) :
    (s.validate sha256Hex tenant apiKey now).2.Backed := by
  unfold KeyStore.validate
  split
  · exact h
  · dsimp only
    cases hentry : s.byHash (sha256Hex apiKey) with
    | some data =>
      dsimp only
      split
      · exact h
      · exact h.updateLastUsed hentry
    | none =>
      cases hfind : s.getByHash tenant (sha256Hex apiKey) with
      | none => exact h
      | some row =>
        obtain ⟨hmem, hhash, -⟩ := getByHash_eq_some hfind
        simp only [validateFromRow]
        by_cases hrevoked : row.isRevoked
        · rw [if_pos hrevoked]
          exact h
        · rw [if_neg hrevoked]
          by_cases hexpired : isExpired row.expiresAt now = true
          · rw [if_pos hexpired]
            exact h
          · rw [if_neg hexpired]
            dsimp only
            split
            · rw [← hhash]
              exact h.put hmem (Bool.not_eq_true _ ▸ hrevoked) (cacheData_mirrors row _)
            · exact h

theorem Backed.revoke (h : s.Backed) (keyId userId : Uuid) :
    (s.revoke tenant keyId userId).2.Backed := by
  unfold KeyStore.revoke
  cases hfind : s.getById tenant keyId with
  | none => exact h
  | some row =>
    have hmem : row ∈ s.rows := List.mem_of_find?_eq_some hfind
    dsimp only
    split
    · exact h
    · by_cases hrevoked : row.isRevoked
      · rw [if_pos hrevoked]
        exact (h.evict row.hashedKey).shrink rfl fun _ _ hdata => hdata
      · rw [if_neg hrevoked]
        -- the row changed is the one whose entry goes
        have hkey : ∀ r : ApiKey, (if r.id = row.id ∧ r.tenantId = row.tenantId then
            { r with isRevoked := true } else r).hashedKey = r.hashedKey ∧
            (if r.id = row.id ∧ r.tenantId = row.tenantId then
              { r with isRevoked := true } else r).id = r.id := by
          intro r
          split
          · exact ⟨rfl, rfl⟩
          · exact ⟨rfl, rfl⟩
        refine ⟨fun a ha b hb heq => ?_, fun a ha b hb heq => ?_, fun hash data hdata => ?_⟩
        · obtain ⟨a₀, ha₀, rfl⟩ := List.mem_map.mp ha
          obtain ⟨b₀, hb₀, rfl⟩ := List.mem_map.mp hb
          rw [(hkey a₀).1, (hkey b₀).1] at heq
          rw [h.unique a₀ ha₀ b₀ hb₀ heq]
        · obtain ⟨a₀, ha₀, rfl⟩ := List.mem_map.mp ha
          obtain ⟨b₀, hb₀, rfl⟩ := List.mem_map.mp hb
          rw [(hkey a₀).2, (hkey b₀).2] at heq
          rw [h.ids a₀ ha₀ b₀ hb₀ heq]
        · change (s.evict row.hashedKey).byHash hash = some data at hdata
          by_cases hhash : hash = row.hashedKey
          · rw [hhash, evict_self] at hdata
            cases hdata
          · rw [evict_of_ne s hhash] at hdata
            obtain ⟨row', hmem', hhash', hrest⟩ := h.entry hash data hdata
            -- an entry that is left belongs to a row that is left as it was
            have hother : ¬ (row'.id = row.id ∧ row'.tenantId = row.tenantId) := by
              intro hsame
              exact hhash (by rw [← hhash', h.ids row' hmem' row hmem hsame.1])
            refine ⟨row', List.mem_map.mpr ⟨row', hmem', if_neg hother⟩, hhash', hrest⟩

theorem step_backed {op : Op} (h : s.Backed) (hs : step sha256Hex s op = some s') :
    s'.Backed := by
  cases op with
  | create apiKey id userId tenantId name scopes expiresAt now =>
    rw [step, Option.ite_none_left_eq_some, Option.some.injEq, Bool.not_eq_true] at hs
    exact hs.2 ▸ h.create hs.1
  | validate tenant apiKey now =>
    cases hs
    exact h.validate apiKey
  | revoke tenant keyId userId =>
    cases hs
    exact h.revoke keyId userId
  | evict hash =>
    cases hs
    exact h.evict hash
  | flush =>
    cases hs
    exact h.shrink rfl fun hash data hdata => by cases hdata

/-! ## The cache and its fallback -/

/-- The part of a result the middleware goes on with. -/
def answer (result : ApiKeyValidationResult) :
    Bool × Option String × Option Uuid × Option Uuid × Option (List String) :=
  (result.isValid, result.keyId, result.userId, result.tenantId, result.scopes)

theorem answer_valid_ne {keyId : Option String} {error : String} (data : ApiKeyData) :
    answer (.valid data) ≠ answer (.rejected error keyId) := by
  intro heq
  cases congrArg (·.1) heq

/-- The entry and the fallback answer alike: the database finds the key under the context's tenant,
and the cache takes what a miss would fill in. -/
def Agreeing (s : KeyStore) (tenant : Uuid) (hash : String) (now : Instant) : Prop :=
  ∃ row ∈ s.rows, row.hashedKey = hash ∧ row.tenantId = tenant ∧
    (isExpired row.expiresAt now = true ∨ settable row.expiresAt now = true)

/-- With the hash entry present, a validation and the same validation without the entry agree
exactly when the row is of the context's tenant and the key has expired or has a millisecond
left. -/
theorem Backed.validate_evict_iff (h : s.Backed) {apiKey : String}
    (hformat : hasFormat apiKey = true) (hdata : s.byHash (sha256Hex apiKey) = some data) :
    answer (s.validate sha256Hex tenant apiKey now).1 =
        answer ((s.evict (sha256Hex apiKey)).validate sha256Hex tenant apiKey now).1 ↔
      s.Agreeing tenant (sha256Hex apiKey) now := by
  obtain ⟨row, hrow, hhash, hlive, hmirrors⟩ := h.entry _ _ hdata
  have hfind : (s.evict (sha256Hex apiKey)).getByHash tenant (sha256Hex apiKey) =
      if row.tenantId = tenant then some row else none := by
    rw [← hhash]
    exact h.getByHash_eq hrow
  -- one row has the hash, so the condition is about that row
  have hagreeing : s.Agreeing tenant (sha256Hex apiKey) now ↔ row.tenantId = tenant ∧
      (isExpired row.expiresAt now = true ∨ settable row.expiresAt now = true) := by
    constructor
    · intro hex
      obtain ⟨row', hrow', hhash', hrest⟩ := hex
      have hsame : row' = row := h.unique row' hrow' row hrow (hhash'.trans hhash.symm)
      exact hsame ▸ hrest
    · intro hrest
      exact ⟨row, hrow, hhash, hrest⟩
  rw [hagreeing]
  simp only [KeyStore.validate, hformat, Bool.not_true, Bool.false_eq_true, if_false, hdata,
    evict_self, hfind, validateFromCachedData, hmirrors.expiresAt]
  by_cases htenant : row.tenantId = tenant
  · rw [if_pos htenant]
    simp only [validateFromRow, hlive, Bool.false_eq_true, if_false, htenant, true_and]
    by_cases hexpired : isExpired row.expiresAt now = true
    · simp only [hexpired, if_true, hmirrors.keyId, true_or]
    · rw [Bool.not_eq_true] at hexpired
      have hsettable : settable (row.cacheData (sha256Hex apiKey)).expiresAt now =
          settable row.expiresAt now := rfl
      simp only [hexpired, Bool.false_eq_true, if_false, false_or, hsettable]
      by_cases hset : settable row.expiresAt now = true
      · simp only [hset, if_true, iff_true]
        -- both answer valid, from data that mirror one row
        exact congrArg answer (hmirrors.valid_eq (sha256Hex apiKey))
      · rw [Bool.not_eq_true] at hset
        simp only [hset, Bool.false_eq_true, if_false, iff_false]
        exact answer_valid_ne data
  · rw [if_neg htenant]
    simp only [validateFromRow, htenant, false_and, iff_false]
    by_cases hexpired : isExpired row.expiresAt now = true
    · rw [if_pos hexpired]
      intro heq
      -- the cached answer names the key, the fallback does not
      cases congrArg (·.2.1) heq
    · rw [if_neg hexpired]
      exact answer_valid_ne data

/-- After every history, a request through the middleware is answered alike with and without the
key's hash entry exactly when the text is no key, no entry is stored, or the key is of the empty
tenant and has expired or has a millisecond left. -/
theorem cache_agrees_iff (sha256Hex : String → String) (s : KeyStore)
    (h : Reachable (step sha256Hex) empty s) (apiKey : String) (now : Instant) :
    answer (s.validate sha256Hex MIDDLEWARE_TENANT apiKey now).1 =
        answer ((s.evict (sha256Hex apiKey)).validate sha256Hex MIDDLEWARE_TENANT apiKey now).1 ↔
      hasFormat apiKey = false ∨ s.byHash (sha256Hex apiKey) = none ∨
        s.Agreeing MIDDLEWARE_TENANT (sha256Hex apiKey) now := by
  have hbacked : s.Backed :=
    h.invariant Backed empty_backed fun _ _ _ ha _ hs => step_backed ha hs
  by_cases hformat : hasFormat apiKey = true
  · cases hdata : s.byHash (sha256Hex apiKey) with
    | some data =>
      rw [hbacked.validate_evict_iff hformat hdata]
      simp only [hformat, Bool.true_eq_false, reduceCtorEq, false_or]
    | none =>
      refine iff_of_true ?_ (Or.inr (Or.inl rfl))
      -- there is nothing to evict
      have hsame : s.evict (sha256Hex apiKey) = s := by
        show ({ s with byHash := Function.update s.byHash (sha256Hex apiKey) none } : KeyStore) = s
        rw [← hdata, Function.update_eq_self]
      rw [hsame]
  · rw [Bool.not_eq_true] at hformat
    refine iff_of_true ?_ (Or.inl hformat)
    simp only [KeyStore.validate, hformat, Bool.not_false, if_true]

/-- A key of tenant 7 is created, used, and left in the cache. -/
def createdAndUsed : List Op :=
  [.create "sk_live_abcdefghij" 1 5 7 "ci" ["inquiries.read"] none 0,
    .validate MIDDLEWARE_TENANT "sk_live_abcdefghij" 1]

theorem cache_agrees_iff_created : ∃ s : KeyStore, (s.byHash "sk_live_abcdefghij").isSome = true ∧
    (answer (s.validate id MIDDLEWARE_TENANT "sk_live_abcdefghij" 2).1 =
        answer ((s.evict (id "sk_live_abcdefghij")).validate id MIDDLEWARE_TENANT
          "sk_live_abcdefghij" 2).1 ↔
      hasFormat "sk_live_abcdefghij" = false ∨ s.byHash (id "sk_live_abcdefghij") = none ∨
        s.Agreeing MIDDLEWARE_TENANT (id "sk_live_abcdefghij") 2) := by
  have hrun : (follow (step id) empty createdAndUsed).any
      (fun s => (s.byHash "sk_live_abcdefghij").isSome) = true := by decide +kernel
  obtain ⟨s, hreach, hlast⟩ := exists_reaches_of_run (fun _ _ _ => trivial) hrun
  exact ⟨s, hlast, cache_agrees_iff id s hreach "sk_live_abcdefghij" 2⟩

/-- With its entry the key is valid; without, it is not found. -/
theorem evicted_key_not_found : ∃ s : KeyStore, Reachable (step id) empty s ∧
    (s.validate id MIDDLEWARE_TENANT "sk_live_abcdefghij" 2).1.isValid = true ∧
      ((s.evict "sk_live_abcdefghij").validate id MIDDLEWARE_TENANT "sk_live_abcdefghij" 2).1 =
        .notFound := by
  have hrun : (follow (step id) empty createdAndUsed).any (fun s =>
      (s.validate id MIDDLEWARE_TENANT "sk_live_abcdefghij" 2).1.isValid &&
        ((s.evict "sk_live_abcdefghij").validate id MIDDLEWARE_TENANT
          "sk_live_abcdefghij" 2).1 = .notFound) = true := by
    decide +kernel
  obtain ⟨s, hreach, hlast⟩ := exists_reaches_of_run (fun _ _ _ => trivial) hrun
  rw [Bool.and_eq_true, decide_eq_true_eq] at hlast
  exact ⟨s, hreach, hlast⟩

end KeyStore

end Wallow.ApiKeys
