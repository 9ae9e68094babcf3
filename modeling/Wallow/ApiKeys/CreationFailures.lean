import Wallow.ApiKeys.KeyStore
import Mathlib.Data.List.Sort

/-!
# Creations whose calls fail

`CreateApiKeyAsync` saves the row and then writes three entries of the cache, with a call for each.
A call that fails ends the creation and leaves what the calls before it have done.
-/

namespace Wallow.ApiKeys

open Transition

/-- What a list shows of a key. -/
structure ApiKeyMetadata where
  keyId : String
  name : String
  shownStart : String
  userId : Uuid
  tenantId : Uuid
  scopes : List String
  createdAt : Instant
  expiresAt : Option Instant
  deriving DecidableEq

def ApiKey.listed (row : ApiKey) : ApiKeyMetadata where
  keyId := row.id.toString
  name := row.displayName
  shownStart := ""
  userId := row.owner
  tenantId := row.tenantId
  scopes := row.scopes
  createdAt := row.createdAt
  expiresAt := row.expiresAt

/-- The key made of the secret drawn. -/
def newApiKey (secret : String) : String := "sk_live_" ++ secret

/-- What a creation is asked for, and the secret and the id that it draws. -/
structure Creation where
  secret : String
  id : Uuid
  userId : Uuid
  tenantId : Uuid
  name : String
  scopes : List String
  expiresAt : Option Instant
  now : Instant

structure CreationCalls where
  addAsync : CallOutcome
  setByHash : CallOutcome
  addToUserSet : CallOutcome
  setById : CallOutcome
  deriving DecidableEq

def CreationCalls.returning : CreationCalls := ⟨.returns, .returns, .returns, .returns⟩

namespace KeyStore

/-! ## The service -/

def newestFirst (rows : List ApiKey) : List ApiKey :=
  rows.insertionSort fun a b => b.createdAt ≤ a.createdAt

/-- `ListByServiceAccountAsync`, in a context with the tenant `context`. -/
def listByServiceAccount (s : KeyStore) (context : Uuid) (serviceAccountId : String)
    (tenantId : Uuid) : List ApiKey :=
  newestFirst (s.rows.filter fun row =>
    row.tenantId = context && row.serviceAccountId = serviceAccountId && row.tenantId = tenantId)

def listApiKeys (s : KeyStore) (context userId tenantId : Uuid) : List ApiKeyMetadata :=
  (newestFirst ((s.listByServiceAccount context userId.toString tenantId).filter
    fun row => !row.isRevoked)).map ApiKey.listed

def addRow (row : ApiKey) (s : KeyStore) : KeyStore := { s with rows := s.rows ++ [row] }

def addToUserSet (user keyId : String) (s : KeyStore) : KeyStore :=
  { s with
    userSet := Function.update s.userSet user
      (if keyId ∈ s.userSet user then s.userSet user else s.userSet user ++ [keyId]) }

def putById (keyId : String) (data : ApiKeyData) (s : KeyStore) : KeyStore :=
  { s with byId := Function.update s.byId keyId (some data) }

/-- The next call, when the one before it has returned. -/
def andThen (result : Bool × KeyStore) (next : KeyStore → Bool × KeyStore) : Bool × KeyStore :=
  if result.1 then next result.2 else result

@[simp] theorem putById_userSet (keyId : String) (data : ApiKeyData) (s : KeyStore) :
    (putById keyId data s).userSet = s.userSet := rfl

@[simp] theorem putById_byHash (keyId : String) (data : ApiKeyData) (s : KeyStore) :
    (putById keyId data s).byHash = s.byHash := rfl

@[simp] theorem putById_rows (keyId : String) (data : ApiKeyData) (s : KeyStore) :
    (putById keyId data s).rows = s.rows := rfl

@[simp] theorem addToUserSet_byHash (user keyId : String) (s : KeyStore) :
    (addToUserSet user keyId s).byHash = s.byHash := rfl

@[simp] theorem addToUserSet_rows (user keyId : String) (s : KeyStore) :
    (addToUserSet user keyId s).rows = s.rows := rfl

variable (sha256Hex : String → String)

/-- `CreateApiKeyAsync` for the key `apiKey`, and whether it reports success. -/
def createOver (s : KeyStore) (apiKey : String) (id userId tenantId : Uuid) (name : String)
    (scopes : List String) (expiresAt : Option Instant) (now : Instant) (calls : CreationCalls) :
    Bool × KeyStore :=
  if !creatable name then (false, s)
  else
    let keyHash := sha256Hex apiKey
    let row := ApiKey.create id tenantId userId keyHash name scopes expiresAt now
    let keyId := row.id.toString
    let metadata := row.metadata userId apiKey now
    andThen (calls.addAsync.run (addRow row) s) fun s =>
    -- a lifetime of none is refused by the `SET` itself
    if !settable expiresAt now then (false, s)
    else
      andThen (calls.setByHash.run (fun s => s.putByHash keyHash metadata) s) fun s =>
      andThen (calls.addToUserSet.run (addToUserSet userId.toString keyId) s) fun s =>
      calls.setById.run (putById keyId metadata) s

def createApiKey (s : KeyStore) (c : Creation) (calls : CreationCalls) : Bool × KeyStore :=
  s.createOver sha256Hex (newApiKey c.secret) c.id c.userId c.tenantId c.name c.scopes c.expiresAt
    c.now calls

/-! ## Histories -/

def isFresh (s : KeyStore) (hash : String) (id : Uuid) : Bool :=
  !s.rows.any fun row => row.hashedKey = hash || row.id = id

/-- An operation, with what becomes of the calls where it is a creation. -/
def stepOver (s : KeyStore) : Op × CreationCalls → Option KeyStore
  | (.create apiKey id userId tenantId name scopes expiresAt now, calls) =>
    if s.isFresh (sha256Hex apiKey) id then
      some (s.createOver sha256Hex apiKey id userId tenantId name scopes expiresAt now calls).2
    else none
  | (op, _) => step sha256Hex s op

/-- No other creation draws this key or this id. -/
def drawsOther (hash : String) (id : Uuid) : Op × CreationCalls → Prop
  | (.create apiKey id' _ _ _ _ _ _, _) => sha256Hex apiKey ≠ hash ∧ id' ≠ id
  | _ => True

def isListed (s : KeyStore) (c : Creation) : Prop :=
  ∃ context userId tenantId, ∃ m ∈ s.listApiKeys context userId tenantId, m.keyId = c.id.toString

def isCounted (s : KeyStore) (c : Creation) : Prop :=
  ∃ userId : Uuid, c.id.toString ∈ s.userSet userId.toString

def isAccepted (s : KeyStore) (c : Creation) : Prop :=
  ∃ context now, (s.validate sha256Hex context (newApiKey c.secret) now).1.isValid = true

/-- A creation that fails leaves no key, in any later state; one that succeeds leaves a key that is
listed for its user and tenant, counted, and accepted until it expires. -/
structure AllOrNothing (c : Creation) (result : Bool × KeyStore) : Prop where
  nothing : result.1 = false → ∀ later,
    Reaches (stepOver sha256Hex) (fun _ => drawsOther sha256Hex (sha256Hex (newApiKey c.secret))
      c.id) result.2 later →
    ¬isListed later c ∧ ¬isCounted later c ∧ ¬isAccepted sha256Hex later c
  all : result.1 = true →
    (∃ m ∈ result.2.listApiKeys c.tenantId c.userId c.tenantId, m.keyId = c.id.toString) ∧
    c.id.toString ∈ result.2.userSet c.userId.toString ∧
    ∀ context now, isExpired c.expiresAt now = false →
      (result.2.validate sha256Hex context (newApiKey c.secret) now).1.isValid = true

/-- The creation stops before its row is saved, or none of its calls fails. -/
def stopsEarly (c : Creation) (calls : CreationCalls) : Bool :=
  !creatable c.name || calls.addAsync = .fails ||
    (settable c.expiresAt c.now && calls = .returning)

/-! ## Entries and the rows behind them -/

/-- The hashes and the ids of the rows. -/
def keys (s : KeyStore) : List (String × Uuid) := s.rows.map fun row => (row.hashedKey, row.id)

/-- Every cached entry, and every id in a user's set, belongs to a row. -/
structure Rooted (s : KeyStore) : Prop where
  byHash : ∀ hash data, s.byHash hash = some data → ∃ key ∈ s.keys, key.1 = hash
  userSet : ∀ user keyId, keyId ∈ s.userSet user → ∃ key ∈ s.keys, key.2.toString = keyId

/-- No row has the hash or the id. -/
def Lacks (s : KeyStore) (hash : String) (id : Uuid) : Prop :=
  ∀ key ∈ s.keys, key.1 ≠ hash ∧ key.2 ≠ id

variable {sha256Hex} {s s' : KeyStore} {hash apiKey name : String} {id userId tenantId : Uuid}
  {scopes : List String} {expiresAt : Option Instant} {now : Instant} {data : ApiKeyData}
  {row : ApiKey} {calls : CreationCalls}

theorem isFresh_iff : s.isFresh hash id = true ↔ s.Lacks hash id := by
  simp [isFresh, Lacks, keys]

theorem empty_rooted : empty.Rooted := ⟨nofun, nofun⟩

/-- The rows stay, and an entry that comes in belongs to one. -/
theorem Rooted.change (h : s.Rooted) (hkeys : s.keys ⊆ s'.keys)
    (hbyHash : ∀ hash data, s'.byHash hash = some data →
      (s.byHash hash).isSome = true ∨ ∃ key ∈ s'.keys, key.1 = hash)
    (huserSet : ∀ user keyId, keyId ∈ s'.userSet user →
      keyId ∈ s.userSet user ∨ ∃ key ∈ s'.keys, key.2.toString = keyId) : s'.Rooted where
  byHash hash data hdata := by
    cases hbyHash hash data hdata with
    | inl hold =>
      have ⟨data', hdata'⟩ := Option.isSome_iff_exists.mp hold
      have ⟨key, hkey, hhash⟩ := h.byHash hash data' hdata'
      exact ⟨key, hkeys hkey, hhash⟩
    | inr hnew => exact hnew
  userSet user keyId hmem := by
    cases huserSet user keyId hmem with
    | inl hold =>
      have ⟨key, hkey, hid⟩ := h.userSet user keyId hold
      exact ⟨key, hkeys hkey, hid⟩
    | inr hnew => exact hnew

theorem keys_addRow : (addRow row s).keys = s.keys ++ [(row.hashedKey, row.id)] := by
  simp [keys, addRow]

theorem Rooted.addRow (h : s.Rooted) (row : ApiKey) : (addRow row s).Rooted :=
  h.change (by rw [keys_addRow]; exact List.subset_append_left _ _)
    (fun _ _ hdata => .inl (Option.isSome_of_eq_some hdata)) fun _ _ hmem => .inl hmem

theorem Rooted.putByHash (h : s.Rooted) (hkey : (hash, id) ∈ s.keys) :
    (s.putByHash hash data).Rooted := by
  refine h.change (List.Subset.refl _) ?_ fun _ _ hmem => .inl hmem
  intro hash' data' hdata'
  by_cases hhash : hash' = hash
  · exact .inr ⟨(hash, id), hkey, hhash.symm⟩
  · rw [putByHash_of_ne s data hhash] at hdata'
    exact .inl (Option.isSome_of_eq_some hdata')

theorem mem_addToUserSet {user user' keyId keyId' : String} :
    keyId' ∈ (addToUserSet user keyId s).userSet user' ↔
      keyId' ∈ s.userSet user' ∨ (user' = user ∧ keyId' = keyId) := by
  rw [addToUserSet]
  by_cases huser : user' = user
  · subst huser
    simp only [Function.update_self, true_and]
    split
    · rename_i hmem
      exact ⟨.inl, fun h => h.elim (fun h => h) fun h => h ▸ hmem⟩
    · rw [List.mem_append, List.mem_singleton]
  · simp [huser]

theorem Rooted.addToUserSet {user : String} (h : s.Rooted) (hkey : (hash, id) ∈ s.keys) :
    (addToUserSet user id.toString s).Rooted := by
  refine h.change (List.Subset.refl _)
    (fun _ _ hdata => .inl (Option.isSome_of_eq_some hdata)) fun user' keyId' hmem => ?_
  exact (mem_addToUserSet.mp hmem).imp_right fun h => ⟨(hash, id), hkey, h.2.symm⟩

/-! ## One operation -/

theorem run_fst {effect : KeyStore → KeyStore} {outcome : CallOutcome} :
    (outcome.run effect s).1 = true ↔ outcome = .returns := by
  cases outcome with
  | returns => exact iff_of_true rfl rfl
  | fails => exact iff_of_false Bool.false_ne_true nofun
  | failsApplied => exact iff_of_false Bool.false_ne_true nofun

theorem andThen_fst {result : Bool × KeyStore} {next : KeyStore → Bool × KeyStore} :
    (andThen result next).1 = true ↔ result.1 = true ∧ (next result.2).1 = true := by
  unfold andThen
  cases hresult : result.1 with
  | true => exact ⟨fun h => ⟨rfl, h⟩, fun h => h.2⟩
  | false => exact iff_of_false (by simp [hresult]) fun h => Bool.false_ne_true h.1

/-- What holds before and after a call's work holds of the state it leaves. -/
theorem run_of_effect {P : KeyStore → Prop} {effect : KeyStore → KeyStore} (outcome : CallOutcome)
    (hs : P s) (heffect : P (effect s)) : P (outcome.run effect s).2 := by
  cases outcome with
  | returns => exact heffect
  | fails => exact hs
  | failsApplied => exact heffect

theorem andThen_of {P : KeyStore → Prop} {result : Bool × KeyStore}
    {next : KeyStore → Bool × KeyStore} (hresult : P result.2) (hnext : ∀ s, P s → P (next s).2) :
    P (andThen result next).2 := by
  unfold andThen
  split
  · exact hnext _ hresult
  · exact hresult

/-- The rows are those of `s` and `row`, and every entry belongs to a row if it did. -/
def Adds (s : KeyStore) (row : ApiKey) (t : KeyStore) : Prop :=
  t.rows = s.rows ++ [row] ∧ (s.Rooted → t.Rooted)

theorem Adds.mem_keys {t : KeyStore} (h : Adds s row t) : (row.hashedKey, row.id) ∈ t.keys := by
  rw [keys, h.1]
  exact List.mem_map_of_mem (List.mem_append_right _ (List.mem_singleton_self row))

theorem Adds.putByHash {t : KeyStore} (h : Adds s row t) :
    Adds s row (t.putByHash row.hashedKey data) :=
  ⟨h.1, fun hs => (h.2 hs).putByHash h.mem_keys⟩

theorem Adds.addToUserSet {t : KeyStore} (h : Adds s row t) (user : String) :
    Adds s row (addToUserSet user row.id.toString t) :=
  ⟨h.1, fun hs => (h.2 hs).addToUserSet h.mem_keys⟩

theorem Adds.putById {t : KeyStore} (h : Adds s row t) (keyId : String) :
    Adds s row (putById keyId data t) :=
  ⟨h.1, fun hs => ⟨(h.2 hs).byHash, (h.2 hs).userSet⟩⟩

/-- The calls that follow the row add entries of that row only. -/
theorem Adds.cacheCalls {t : KeyStore} (h : Adds s row t) (user : String) (data : ApiKeyData)
    (calls : CreationCalls) :
    Adds s row (andThen (calls.setByHash.run (fun s => s.putByHash row.hashedKey data) t) fun s =>
      andThen (calls.addToUserSet.run (KeyStore.addToUserSet user row.id.toString) s) fun s =>
      calls.setById.run (KeyStore.putById row.id.toString data) s).2 := by
  refine andThen_of (P := Adds s row) (run_of_effect _ h h.putByHash) fun u hu => ?_
  refine andThen_of (P := Adds s row) (run_of_effect _ hu (hu.addToUserSet user)) fun v hv => ?_
  exact run_of_effect _ hv (hv.putById _)

theorem createOver_early (s : KeyStore)
    (h : creatable name = false ∨ calls.addAsync = .fails) :
    s.createOver sha256Hex apiKey id userId tenantId name scopes expiresAt now calls =
      (false, s) := by
  unfold createOver
  cases hname : creatable name with
  | false => rfl
  | true =>
    have hfails : calls.addAsync = .fails := h.resolve_left (by rw [hname]; decide)
    rw [hfails]
    rfl

/-- Past its first call, a creation has added its row. -/
theorem createOver_adds (s : KeyStore) (hname : creatable name = true)
    (hcall : calls.addAsync ≠ .fails) :
    Adds s (ApiKey.create id tenantId userId (sha256Hex apiKey) name scopes expiresAt now)
      (s.createOver sha256Hex apiKey id userId tenantId name scopes expiresAt now calls).2 := by
  unfold createOver
  rw [hname]
  dsimp only
  generalize hrow :
    ApiKey.create id tenantId userId (sha256Hex apiKey) name scopes expiresAt now = row
  have hhash : sha256Hex apiKey = row.hashedKey := hrow ▸ rfl
  have hadded : Adds s row (addRow row s) := ⟨rfl, fun h => h.addRow row⟩
  rw [hhash]
  cases houtcome : calls.addAsync with
  | returns =>
    cases settable expiresAt now with
    | true => exact hadded.cacheCalls userId.toString _ calls
    | false => exact hadded
  | fails => exact absurd houtcome hcall
  | failsApplied => exact hadded

theorem createOver_cases (sha256Hex : String → String) (s : KeyStore) (apiKey : String) (id userId tenantId : Uuid)
    (name : String) (scopes : List String) (expiresAt : Option Instant) (now : Instant)
    (calls : CreationCalls) :
    (s.createOver sha256Hex apiKey id userId tenantId name scopes expiresAt now calls).2 = s ∨
    Adds s (ApiKey.create id tenantId userId (sha256Hex apiKey) name scopes expiresAt now)
      (s.createOver sha256Hex apiKey id userId tenantId name scopes expiresAt now calls).2 := by
  by_cases hearly : creatable name = false ∨ calls.addAsync = .fails
  · rw [createOver_early s hearly]
    exact .inl rfl
  · rw [not_or, Bool.not_eq_false] at hearly
    exact .inr (createOver_adds s hearly.1 hearly.2)

/-- A creation reports success exactly when nothing is refused and no call fails. -/
theorem createOver_success (s : KeyStore) (apiKey : String) (id userId tenantId : Uuid)
    (name : String) (scopes : List String) (expiresAt : Option Instant) (now : Instant)
    (calls : CreationCalls) :
    (s.createOver sha256Hex apiKey id userId tenantId name scopes expiresAt now calls).1 = true ↔
      creatable name = true ∧ settable expiresAt now = true ∧ calls = .returning := by
  unfold createOver
  cases creatable name with
  | false => exact iff_of_false Bool.false_ne_true fun h => Bool.false_ne_true h.1
  | true =>
    dsimp only
    rw [if_neg (by decide), andThen_fst, run_fst]
    cases settable expiresAt now with
    | false =>
      exact iff_of_false (fun h => Bool.false_ne_true h.2) fun h => Bool.false_ne_true h.2.1
    | true =>
      rw [if_neg (by decide), andThen_fst, run_fst, andThen_fst, run_fst, run_fst,
        CreationCalls.returning, CreationCalls.mk.injEq]
      simp only [true_and]

/-- What the operations other than a creation do to the entries and the rows. -/
structure Keeps (s s' : KeyStore) : Prop where
  keys : s'.keys = s.keys
  byHash : ∀ hash, (s'.byHash hash).isSome = true →
    (s.byHash hash).isSome = true ∨ ∃ key ∈ s.keys, key.1 = hash
  userSet : ∀ user, s'.userSet user ⊆ s.userSet user

theorem Keeps.refl (s : KeyStore) : Keeps s s :=
  ⟨rfl, fun _ h => .inl h, fun _ => List.Subset.refl _⟩

theorem Keeps.trans {t : KeyStore} (h : Keeps s s') (h' : Keeps s' t) : Keeps s t where
  keys := h'.keys.trans h.keys
  byHash hash hash' := by
    cases h'.byHash hash hash' with
    | inl hold => exact h.byHash hash hold
    | inr hkey => exact .inr (h.keys ▸ hkey)
  userSet user := List.Subset.trans (h'.userSet user) (h.userSet user)

theorem Keeps.rooted (h : Keeps s s') (hs : s.Rooted) : s'.Rooted := by
  refine hs.change (fun _ hkey => h.keys ▸ hkey) (fun hash data hdata => ?_)
    fun user _ hmem => .inl (h.userSet user hmem)
  rw [h.keys]
  exact h.byHash hash (Option.isSome_of_eq_some hdata)

theorem keeps_evict (s : KeyStore) (hash : String) : Keeps s (s.evict hash) := by
  refine ⟨rfl, fun hash' h => .inl ?_, fun _ => List.Subset.refl _⟩
  by_cases hhash : hash' = hash
  · rw [hhash, evict_self] at h
    cases h
  · rwa [evict_of_ne s hhash] at h

theorem keeps_revokeRow (s : KeyStore) (id tenantId : Uuid) :
    Keeps s (s.revokeRow id tenantId) := by
  refine ⟨?_, fun _ h => .inl h, fun _ => List.Subset.refl _⟩
  show (s.rows.map _).map _ = s.rows.map _
  rw [List.map_map]
  apply List.map_congr_left
  intro row _
  show (fun row : ApiKey => (row.hashedKey, row.id))
    (if row.id = id ∧ row.tenantId = tenantId then { row with isRevoked := true } else row) = _
  split
  · rfl
  · rfl

theorem keeps_updateLastUsed (s : KeyStore) (hash : String) (data : ApiKeyData) (now : Instant) :
    Keeps s (s.updateLastUsed hash data now) := by
  unfold KeyStore.updateLastUsed
  split
  · refine ⟨rfl, fun hash' h => .inl ?_, fun _ => List.Subset.refl _⟩
    by_cases hhash : hash' = hash
    · subst hhash
      simpa using h
    · simpa [hhash] using h
  · exact .refl s

theorem keeps_validate (s : KeyStore) (context : Uuid) (apiKey : String) (now : Instant) :
    Keeps s (s.validate sha256Hex context apiKey now).2 := by
  unfold KeyStore.validate
  split
  · exact .refl s
  · dsimp only
    cases s.byHash (sha256Hex apiKey) with
    | some data =>
      dsimp only
      split
      · exact .refl s
      · exact keeps_updateLastUsed s _ data now
    | none =>
      cases hfind : s.getByHash context (sha256Hex apiKey) with
      | none => exact .refl s
      | some row =>
        have ⟨hmem, hhash, _⟩ := getByHash_eq_some hfind
        cases hdecided : validateFromRow (some row) (sha256Hex apiKey) now with
        | inl result => exact .refl s
        | inr data =>
          dsimp only
          split
          · refine ⟨rfl, fun hash' h => ?_, fun _ => List.Subset.refl _⟩
            by_cases hhash' : hash' = sha256Hex apiKey
            · exact .inr ⟨_, List.mem_map_of_mem hmem, hhash.trans hhash'.symm⟩
            · rw [putByHash_of_ne s data hhash'] at h
              exact .inl h
          · exact .refl s

theorem keeps_revoke (s : KeyStore) (context keyId userId : Uuid) :
    Keeps s (s.revoke context keyId userId).2 := by
  unfold KeyStore.revoke
  cases s.getById context keyId with
  | none => exact .refl s
  | some row =>
    dsimp only
    split
    · exact .refl s
    · have hrevoked : Keeps s (if row.isRevoked then s else s.revokeRow row.id row.tenantId) := by
        split
        · exact .refl s
        · exact keeps_revokeRow s row.id row.tenantId
      generalize (if row.isRevoked then s else s.revokeRow row.id row.tenantId) = revoked
        at hrevoked
      have hevicted := hrevoked.trans (keeps_evict revoked row.hashedKey)
      refine ⟨hevicted.keys, hevicted.byHash, fun user => ?_⟩
      show Function.update s.userSet _ _ user ⊆ s.userSet user
      by_cases huser : user = userId.toString
      · rw [huser, Function.update_self]
        exact List.filter_subset_self _
      · rw [Function.update_of_ne huser]
        exact List.Subset.refl _

/-! ## Histories -/

theorem keeps_flush (s : KeyStore) : Keeps s s.flush :=
  ⟨rfl, fun _ h => (Bool.false_ne_true h).elim, fun _ => List.nil_subset _⟩

/-- An operation keeps the rows, or is a creation that adds its own. -/
theorem stepOver_cases {move : Op × CreationCalls} (hs : stepOver sha256Hex s move = some s') :
    Keeps s s' ∨ ∃ apiKey id userId tenantId name scopes expiresAt now,
      move.1 = .create apiKey id userId tenantId name scopes expiresAt now ∧
      Adds s (ApiKey.create id tenantId userId (sha256Hex apiKey) name scopes expiresAt now)
        s' := by
  have ⟨op, calls⟩ := move
  cases op with
  | create apiKey id userId tenantId name scopes expiresAt now =>
    simp only [stepOver, Option.ite_none_right_eq_some, Option.some.injEq] at hs
    cases createOver_cases sha256Hex s apiKey id userId tenantId name scopes
        expiresAt now calls with
    | inl hsame => exact .inl (by rw [← hs.2, hsame]; exact .refl s)
    | inr hadds => exact .inr ⟨_, _, _, _, _, _, _, _, rfl, hs.2 ▸ hadds⟩
  | validate context apiKey now =>
    exact .inl (Option.some.inj hs ▸ keeps_validate s context apiKey now)
  | revoke context keyId userId =>
    exact .inl (Option.some.inj hs ▸ keeps_revoke s context keyId userId)
  | evict hash => exact .inl (Option.some.inj hs ▸ keeps_evict s hash)
  | flush => exact .inl (Option.some.inj hs ▸ keeps_flush s)

theorem stepOver_rooted {move : Op × CreationCalls} (h : s.Rooted)
    (hs : stepOver sha256Hex s move = some s') : s'.Rooted := by
  cases stepOver_cases hs with
  | inl hkeeps => exact hkeeps.rooted h
  | inr hadds =>
    have ⟨_, _, _, _, _, _, _, _, _, hadds⟩ := hadds
    exact hadds.2 h

theorem stepOver_lacks {move : Op × CreationCalls} (h : s.Lacks hash id)
    (hdraws : drawsOther sha256Hex hash id move) (hs : stepOver sha256Hex s move = some s') :
    s'.Lacks hash id := by
  cases stepOver_cases hs with
  | inl hkeeps =>
    intro key hkey
    exact h key (hkeeps.keys ▸ hkey)
  | inr hadds =>
    have ⟨apiKey, id', userId, tenantId, name, scopes, expiresAt, now, hop, hrows, _⟩ := hadds
    have hother : sha256Hex apiKey ≠ hash ∧ id' ≠ id := by
      rw [show move = (move.1, move.2) from rfl, hop] at hdraws
      exact hdraws
    intro key hkey
    rw [keys, hrows, List.map_append, List.mem_append] at hkey
    cases hkey with
    | inl hold => exact h key hold
    | inr hnew =>
      rw [List.map_singleton, List.mem_singleton] at hnew
      rw [hnew]
      exact hother

/-! ## The three views -/

theorem mem_listApiKeys {context : Uuid} {m : ApiKeyMetadata} :
    m ∈ s.listApiKeys context userId tenantId ↔
      ∃ row ∈ s.rows, row.tenantId = context ∧ row.serviceAccountId = userId.toString ∧
        row.tenantId = tenantId ∧ row.isRevoked = false ∧ row.listed = m := by
  simp only [listApiKeys, listByServiceAccount, newestFirst, List.mem_map, List.mem_insertionSort,
    List.mem_filter, Bool.and_eq_true, decide_eq_true_eq, Bool.not_eq_true', and_assoc]

/-- A row that is not revoked is in the list of its tenant and its owner. -/
theorem exists_listed (hrow : row ∈ s.rows) (howner : row.serviceAccountId = userId.toString)
    (hlive : row.isRevoked = false) :
    ∃ m ∈ s.listApiKeys row.tenantId userId row.tenantId, m.keyId = row.id.toString := by
  refine ⟨row.listed, ?_, rfl⟩
  rw [mem_listApiKeys]
  exact ⟨row, hrow, rfl, howner, rfl, hlive, rfl⟩

theorem toString_injective : Function.Injective Api.TenantId.toString := by
  intro id id' h
  have hchars := congrArg String.toList h
  rw [Api.toList_toString, Api.toList_toString] at hchars
  exact Api.chars_injective hchars

/-- A key without a row is in no view. -/
theorem Rooted.absent {c : Creation} (h : s.Rooted)
    (hlacks : s.Lacks (sha256Hex (newApiKey c.secret)) c.id) :
    ¬s.isListed c ∧ ¬s.isCounted c ∧ ¬s.isAccepted sha256Hex c := by
  refine ⟨?_, ?_, ?_⟩
  · intro ⟨context, userId, tenantId, m, hm, hid⟩
    have ⟨row, hrow, _, _, _, _, hlisted⟩ := mem_listApiKeys.mp hm
    have hsame : row.id = c.id := toString_injective (by rw [← hid, ← hlisted]; rfl)
    exact (hlacks _ (List.mem_map_of_mem hrow)).2 hsame
  · intro ⟨userId, hmem⟩
    have ⟨key, hkey, hid⟩ := h.userSet _ _ hmem
    exact (hlacks key hkey).2 (toString_injective hid)
  · intro ⟨context, now, hvalid⟩
    have hentry : s.byHash (sha256Hex (newApiKey c.secret)) = none := by
      cases hdata : s.byHash (sha256Hex (newApiKey c.secret)) with
      | none => rfl
      | some data =>
        have ⟨key, hkey, hhash⟩ := h.byHash _ _ hdata
        exact absurd hhash (hlacks key hkey).1
    have hfind : s.getByHash context (sha256Hex (newApiKey c.secret)) = none := by
      cases hrow : s.getByHash context (sha256Hex (newApiKey c.secret)) with
      | none => rfl
      | some row =>
        have ⟨hmem, hhash, _⟩ := getByHash_eq_some hrow
        exact absurd hhash (hlacks _ (List.mem_map_of_mem hmem)).1
    unfold KeyStore.validate at hvalid
    split at hvalid
    · cases hvalid
    · dsimp only at hvalid
      rw [hentry, hfind] at hvalid
      cases hvalid

theorem hasFormat_newApiKey (secret : String) : hasFormat (newApiKey secret) = true := by
  have hchars : (newApiKey secret).toList = "sk_live_".toList ++ secret.toList :=
    String.toList_append
  rw [hasFormat, hchars, List.isPrefixOf_iff_prefix.mpr (List.prefix_append _ _), Bool.and_true,
    Bool.not_eq_true', List.all_append]
  have hletter : "sk_live_".toList.all Api.isWhiteSpace = false := by decide
  rw [hletter, Bool.false_and]

/-- A creation none of whose calls fails leaves its key in all three views. -/
theorem createApiKey_views (s : KeyStore) {c : Creation} (hname : creatable c.name = true)
    (hset : settable c.expiresAt c.now = true) :
    (∃ m ∈ (s.createApiKey sha256Hex c .returning).2.listApiKeys c.tenantId c.userId c.tenantId,
      m.keyId = c.id.toString) ∧
    c.id.toString ∈ (s.createApiKey sha256Hex c .returning).2.userSet c.userId.toString ∧
    ∀ context now, isExpired c.expiresAt now = false →
      ((s.createApiKey sha256Hex c .returning).2.validate sha256Hex context (newApiKey c.secret)
        now).1.isValid = true := by
  let keyHash := sha256Hex (newApiKey c.secret)
  let row := ApiKey.create c.id c.tenantId c.userId keyHash c.name c.scopes c.expiresAt c.now
  let data := row.metadata c.userId (newApiKey c.secret) c.now
  have hresult : (s.createApiKey sha256Hex c .returning).2 =
      putById c.id.toString data
        (addToUserSet c.userId.toString c.id.toString ((addRow row s).putByHash keyHash data)) := by
    rw [createApiKey, createOver, hname, hset]
    rfl
  rw [hresult]
  refine ⟨?_, ?_, ?_⟩
  · have hrow : row ∈ (putById c.id.toString data (addToUserSet c.userId.toString c.id.toString
        ((addRow row s).putByHash keyHash data))).rows := by
      rw [putById_rows, addToUserSet_rows]
      exact List.mem_append_right _ (List.mem_singleton_self row)
    exact exists_listed hrow rfl rfl
  · rw [putById_userSet, mem_addToUserSet]
    exact .inr ⟨rfl, rfl⟩
  · intro context now hlive
    have hentry : (putById c.id.toString data (addToUserSet c.userId.toString c.id.toString
        ((addRow row s).putByHash keyHash data))).byHash keyHash = some data := by
      rw [putById_byHash, addToUserSet_byHash, putByHash_self]
    have hexpires : isExpired data.expiresAt now = false := hlive
    rw [KeyStore.validate, hasFormat_newApiKey, Bool.not_true, if_neg Bool.false_ne_true]
    dsimp only
    rw [hentry]
    dsimp only
    rw [validateFromCachedData, hexpires]
    rfl

/-- Past its first call, a creation has left a key that is listed. -/
theorem createApiKey_isListed (s : KeyStore) {c : Creation} (hname : creatable c.name = true)
    (hcall : calls.addAsync ≠ .fails) : (s.createApiKey sha256Hex c calls).2.isListed c := by
  have hadds : Adds s (ApiKey.create c.id c.tenantId c.userId (sha256Hex (newApiKey c.secret))
      c.name c.scopes c.expiresAt c.now) (s.createApiKey sha256Hex c calls).2 :=
    createOver_adds s hname hcall
  have hrow := List.mem_append_right s.rows (List.mem_singleton_self
    (ApiKey.create c.id c.tenantId c.userId (sha256Hex (newApiKey c.secret)) c.name c.scopes
      c.expiresAt c.now))
  rw [← hadds.1] at hrow
  exact ⟨c.tenantId, c.userId, c.tenantId, exists_listed hrow rfl rfl⟩

/-! ## Creations -/

/-- A creation, whatever becomes of its calls, leaves all of its key or nothing, exactly when it
stops before its row is saved or none of its calls fails. -/
theorem creation_allOrNothing_iff (sha256Hex : String → String) (s : KeyStore)
    (h : Reachable (stepOver sha256Hex) empty s) (c : Creation) (calls : CreationCalls)
    (hfresh : s.isFresh (sha256Hex (newApiKey c.secret)) c.id = true) :
    AllOrNothing sha256Hex c (s.createApiKey sha256Hex c calls) ↔ stopsEarly c calls = true := by
  have hrooted : s.Rooted :=
    h.invariant Rooted empty_rooted fun _ _ _ ha _ hs => stepOver_rooted ha hs
  have hsuccess : (s.createApiKey sha256Hex c calls).1 = true ↔
      creatable c.name = true ∧ settable c.expiresAt c.now = true ∧ calls = .returning :=
    createOver_success s _ _ _ _ _ _ _ _ _
  by_cases hearly : creatable c.name = false ∨ calls.addAsync = .fails
  · have hsame : s.createApiKey sha256Hex c calls = (false, s) := createOver_early s hearly
    have hstops : stopsEarly c calls = true := by
      simpa [stopsEarly, or_assoc] using Or.inl hearly
    rw [hsame]
    refine iff_of_true ⟨fun _ later hlater => ?_, nofun⟩ hstops
    -- nothing was written, and no later creation draws the key again
    have hinv := hlater.invariant
      (fun t => t.Rooted ∧ t.Lacks (sha256Hex (newApiKey c.secret)) c.id)
      ⟨hrooted, isFresh_iff.mp hfresh⟩
      fun _ _ _ ha hdraws hs => ⟨stepOver_rooted ha.1 hs, stepOver_lacks ha.2 hdraws hs⟩
    exact hinv.1.absent hinv.2
  · rw [not_or, Bool.not_eq_false] at hearly
    by_cases hall : settable c.expiresAt c.now = true ∧ calls = .returning
    · have hstops : stopsEarly c calls = true := by
        simp [stopsEarly, hall.1, hall.2]
      refine iff_of_true ⟨fun hfails => ?_, fun _ => ?_⟩ hstops
      · rw [hsuccess.mpr ⟨hearly.1, hall⟩] at hfails
        cases hfails
      · rw [hall.2]
        exact createApiKey_views s hearly.1 hall.1
    · have hstops : ¬stopsEarly c calls = true := by
        simpa [stopsEarly, hearly.1, hearly.2] using hall
      refine iff_of_false (fun hclean => ?_) hstops
      have hfails : (s.createApiKey sha256Hex c calls).1 = false :=
        Bool.eq_false_iff.mpr fun hok => hall (hsuccess.mp hok).2
      -- the row is there in the very next state
      exact (hclean.nothing hfails _ .refl).1 (createApiKey_isListed s hearly.1 hearly.2)

/-- A creation without a lifetime, in an empty store. -/
def firstCreation : Creation := ⟨"AAAAAAAA", 1, 5, 7, "ci", ["inquiries.read"], none, 0⟩

theorem creation_allOrNothing_iff_first :
    AllOrNothing (fun key => key) firstCreation
        (empty.createApiKey (fun key => key) firstCreation .returning) ↔
      stopsEarly firstCreation .returning = true :=
  creation_allOrNothing_iff _ empty .refl firstCreation .returning (by decide)

/-- The `SET` of the entry by hash fails: the caller is told of a failure, and the key is listed. -/
theorem failed_creation_listed :
    ¬ ∀ (sha256Hex : String → String) (s : KeyStore), Reachable (stepOver sha256Hex) empty s →
      ∀ (c : Creation) (calls : CreationCalls),
        s.isFresh (sha256Hex (newApiKey c.secret)) c.id = true →
        AllOrNothing sha256Hex c (s.createApiKey sha256Hex c calls) := by
  intro h
  have hclean := h (fun key => key) empty .refl firstCreation
    { CreationCalls.returning with setByHash := .fails } (by decide)
  exact (hclean.nothing (by decide) _ .refl).1
    (createApiKey_isListed empty (by decide) (by decide))

end KeyStore

end Wallow.ApiKeys
