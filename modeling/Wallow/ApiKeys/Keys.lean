import Wallow.Primitives
import Wallow.Api.GuidText

/-!
# API keys

A key's row (`ApiKey.cs`), the metadata `RedisApiKeyService` caches for it, and the two ways it
decides a presented key: from the cached metadata and from the row.  The cache is a function of
names; the names by hash, by id and by user never meet, since a hash is written in hex digits.
-/

namespace Wallow.ApiKeys

open Wallow.Api (TenantId)

/-- A `Guid` that is written as text and read back. -/
abbrev Uuid := TenantId

/-- A row of `api_keys`. -/
structure ApiKey where
  id : Uuid
  tenantId : Uuid
  serviceAccountId : String
  hashedKey : String
  displayName : String
  scopes : List String
  expiresAt : Option Instant
  isRevoked : Bool
  createdAt : Instant
  deriving DecidableEq

/-- The cached metadata. -/
structure ApiKeyData where
  keyId : String
  name : String
  shownStart : String
  keyHash : String
  userId : Uuid
  tenantId : Uuid
  scopes : List String
  createdAt : Instant
  expiresAt : Option Instant
  lastUsedAt : Option Instant
  deriving DecidableEq

structure ApiKeyValidationResult where
  isValid : Bool
  keyId : Option String
  userId : Option Uuid
  tenantId : Option Uuid
  scopes : Option (List String)
  error : Option String
  deriving DecidableEq

namespace ApiKeyValidationResult

def rejected (error : String) (keyId : Option String) : ApiKeyValidationResult :=
  ⟨false, keyId, none, none, none, some error⟩

def invalidFormat : ApiKeyValidationResult := rejected "Invalid API key format" none
def notFound : ApiKeyValidationResult := rejected "API key not found" none
def validationError : ApiKeyValidationResult := rejected "Validation error" none
def expired (keyId : String) : ApiKeyValidationResult := rejected "API key expired" (some keyId)

def valid (data : ApiKeyData) : ApiKeyValidationResult :=
  ⟨true, some data.keyId, some data.userId, some data.tenantId, some data.scopes, none⟩

end ApiKeyValidationResult

/-! ## Deciding a key -/

/-- The check of `ValidateApiKeyAsync` on the presented text. -/
def hasFormat (apiKey : String) : Bool :=
  !apiKey.toList.all Api.isWhiteSpace && "sk_live_".toList.isPrefixOf apiKey.toList

/-- `ExpiresAt < now`; a key without an expiry never expires. -/
def isExpired (expiresAt : Option Instant) (now : Instant) : Bool :=
  expiresAt.any (· < now)

/-- The lifetime asked for in a `SET`. -/
def timeToLive (expiresAt : Option Instant) (now : Instant) : Option Int :=
  expiresAt.map fun at_ => (at_ : Int) - now

/-- The client sends whole milliseconds, and the server refuses a lifetime of none. -/
def settable (expiresAt : Option Instant) (now : Instant) : Bool :=
  (timeToLive expiresAt now).all fun ticks => (TICKS_PER_MILLISECOND : Int) ≤ ticks

/-- `Guid.TryParse` of the owner, or the empty `Guid`. -/
def ApiKey.owner (row : ApiKey) : Uuid :=
  (Api.tryParse row.serviceAccountId.toList).getD 0

/-- The entry a cache miss fills in. -/
def ApiKey.cacheData (row : ApiKey) (keyHash : String) : ApiKeyData where
  keyId := row.id.toString
  name := row.displayName
  shownStart := ""
  keyHash := keyHash
  userId := row.owner
  tenantId := row.tenantId
  scopes := row.scopes
  createdAt := row.createdAt
  expiresAt := row.expiresAt
  lastUsedAt := none

def validateFromCachedData (data : ApiKeyData) (now : Instant) : ApiKeyValidationResult :=
  if isExpired data.expiresAt now then .expired data.keyId else .valid data

/-- What a cache miss decides of the row found, and whether it goes on to fill the cache. -/
def validateFromRow (row : Option ApiKey) (keyHash : String) (now : Instant) :
    ApiKeyValidationResult ⊕ ApiKeyData :=
  match row with
  | none => .inl .notFound
  | some row =>
    if row.isRevoked then .inl .notFound
    else if isExpired row.expiresAt now then .inl (.expired row.id.toString)
    else .inr (row.cacheData keyHash)

/-- The row a creation persists. -/
def ApiKey.create (id tenantId userId : Uuid) (hashedKey name : String) (scopes : List String)
    (expiresAt : Option Instant) (now : Instant) : ApiKey where
  id := id
  tenantId := tenantId
  serviceAccountId := userId.toString
  hashedKey := hashedKey
  displayName := name
  scopes := scopes
  expiresAt := expiresAt
  isRevoked := false
  createdAt := now

/-- The metadata a creation caches: the first 16 characters of the key are shown in lists. -/
def ApiKey.metadata (row : ApiKey) (userId : Uuid) (apiKey : String) (now : Instant) :
    ApiKeyData where
  keyId := row.id.toString
  name := row.displayName
  shownStart := String.ofList (apiKey.toList.take 16)
  keyHash := row.hashedKey
  userId := userId
  tenantId := row.tenantId
  scopes := row.scopes
  createdAt := now
  expiresAt := row.expiresAt
  lastUsedAt := none

/-- A blank name is refused by `ApiKey.Create`; the owner's id and the hash are never blank. -/
def creatable (name : String) : Bool := !name.toList.all Api.isWhiteSpace

/-! ## Entries and rows -/

/-- The entry says of the key what the row says. -/
structure Mirrors (data : ApiKeyData) (row : ApiKey) : Prop where
  keyId : data.keyId = row.id.toString
  userId : data.userId = row.owner
  tenantId : data.tenantId = row.tenantId
  scopes : data.scopes = row.scopes
  expiresAt : data.expiresAt = row.expiresAt

variable {data : ApiKeyData} {row : ApiKey} {now : Instant}

theorem cacheData_mirrors (row : ApiKey) (keyHash : String) :
    Mirrors (row.cacheData keyHash) row :=
  ⟨rfl, rfl, rfl, rfl, rfl⟩

/-- The owner a creation writes as text is read back as that owner. -/
theorem owner_create (id tenantId userId : Uuid) (hashedKey name : String) (scopes : List String)
    (expiresAt : Option Instant) (now : Instant) :
    (ApiKey.create id tenantId userId hashedKey name scopes expiresAt now).owner = userId := by
  rw [ApiKey.owner]
  show (Api.tryParse userId.toString.toList).getD 0 = userId
  rw [Api.toList_toString, Api.tryParse_chars]
  rfl

theorem metadata_mirrors (id tenantId userId : Uuid) (hashedKey name : String)
    (scopes : List String) (expiresAt : Option Instant) (now : Instant) (apiKey : String) :
    Mirrors ((ApiKey.create id tenantId userId hashedKey name scopes expiresAt now).metadata
      userId apiKey now) (ApiKey.create id tenantId userId hashedKey name scopes expiresAt now) :=
  ⟨rfl, (owner_create ..).symm, rfl, rfl, rfl⟩

theorem Mirrors.used (h : Mirrors data row) (at_ : Option Instant) :
    Mirrors { data with lastUsedAt := at_ } row :=
  ⟨h.keyId, h.userId, h.tenantId, h.scopes, h.expiresAt⟩

/-- An entry answers as its row, as long as the key is not revoked. -/
theorem Mirrors.valid_eq (h : Mirrors data row) (keyHash : String) :
    ApiKeyValidationResult.valid data = .valid (row.cacheData keyHash) := by
  rw [ApiKeyValidationResult.valid, h.keyId, h.userId, h.tenantId, h.scopes]
  rfl

end Wallow.ApiKeys
