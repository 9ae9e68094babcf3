import Wallow.Api.GuidText
import Wallow.Identity.Errors
import Wallow.Primitives
import Wallow.Storage.FileNames

/-!
# Buckets, files and limits

The entities of the storage module, a tenant's limits, the checks that both ways of uploading make
on the declared size and the names, and the key an object is stored under.
-/

namespace Wallow.Storage

open Identity (ErrorCatalogEntry)

namespace StorageErrors

def bucketNotFound : ErrorCatalogEntry := ⟨"Bucket.NotFound", .notFound, "Bucket not found"⟩

def fileContentTypeNotAllowed : ErrorCatalogEntry :=
  ⟨"File.ContentTypeNotAllowed", .validation, "That content type is not allowed in this bucket"⟩

def fileTooLarge : ErrorCatalogEntry :=
  ⟨"File.TooLarge", .validation, "The file exceeds the bucket's maximum file size"⟩

def fileExceedsUploadLimit : ErrorCatalogEntry :=
  ⟨"File.ExceedsUploadLimit", .validation, "The file exceeds the tenant upload limit"⟩

def fileExtensionNotAllowed : ErrorCatalogEntry :=
  ⟨"File.ExtensionNotAllowed", .validation, "That file extension is not allowed for this tenant"⟩

def fileFailedSecurityScan : ErrorCatalogEntry :=
  ⟨"File.FailedSecurityScan", .validation, "The file failed the security scan"⟩

def quotaExceeded : ErrorCatalogEntry :=
  ⟨"Storage.QuotaExceeded", .validation, "The upload would exceed the tenant storage quota"⟩

end StorageErrors

/-- An entry of the catalog with a message of its own, or its default one. -/
structure Error where
  entry : ErrorCatalogEntry
  message : Text
  deriving DecidableEq

def Error.ofEntry (entry : ErrorCatalogEntry) : Error :=
  ⟨entry, text entry.defaultMessage⟩

/-- Interpolation of a number. -/
def number (n : Int) : Text := text (toString n)

inductive FileStatus
  | pendingValidation
  | available
  | rejected
  deriving DecidableEq

structure StoredFile where
  id : Guid
  tenantId : Guid
  bucketId : Guid
  fileName : Text
  contentType : Text
  sizeBytes : Int
  storageKey : Text
  path : Option Text
  isPublic : Bool
  uploadedBy : Guid
  uploadedAt : Instant
  metadata : Option Text
  status : FileStatus
  deriving DecidableEq

namespace StoredFile

def create (id : Guid) (now : Instant) (tenantId bucketId : Guid) (fileName contentType : Text)
    (sizeBytes : Int) (storageKey : Text) (uploadedBy : Guid) (path : Option Text)
    (isPublic : Bool) (metadata : Option Text) : StoredFile :=
  ⟨id, tenantId, bucketId, fileName, contentType, sizeBytes, storageKey, path, isPublic, uploadedBy,
    now, metadata, .available⟩

def createPendingValidation (id : Guid) (now : Instant) (tenantId bucketId : Guid)
    (fileName contentType : Text) (sizeBytes : Int) (storageKey : Text) (uploadedBy : Guid)
    (path : Option Text) : StoredFile :=
  ⟨id, tenantId, bucketId, fileName, contentType, sizeBytes, storageKey, path, false, uploadedBy,
    now, none, .pendingValidation⟩

def markAsAvailable (file : StoredFile) : StoredFile :=
  { file with status := .available }

def markAsRejected (file : StoredFile) : StoredFile :=
  { file with status := .rejected }

end StoredFile

/-- What the source takes from the Unicode tables: `ToLowerInvariant`, `ToUpperInvariant` and
`char.IsLetter`. -/
structure UnicodeTables where
  toLower : Text → Text
  toUpper : Text → Text
  isLetter : UInt16 → Bool

/-- The content types are kept as a list; the column holds its JSON. -/
structure StorageBucket where
  id : Guid
  maxFileSizeBytes : Int
  allowedContentTypes : Option (List Text)

namespace StorageBucket

variable (unicode : UnicodeTables)

/-- Patterns such as `image/*` allow what starts with their part before the star. -/
def matchesPattern (contentType pattern : Text) : Bool :=
  let lowerType := unicode.toLower contentType
  let lower := unicode.toLower pattern
  if lower = text "*/*" || lower = text "*" then true
  else if (text "/*").isSuffixOf lower then
    -- `image/*` asks for the prefix `image/`
    (lower.take (lower.length - 2) ++ [SLASH]).isPrefixOf lowerType
  else lower = lowerType

def isContentTypeAllowed (bucket : StorageBucket) (contentType : Text) : Bool :=
  match bucket.allowedContentTypes with
  | none | some [] => true
  | some patterns => patterns.any (matchesPattern unicode contentType)

/-- A maximum of zero is none. -/
def isFileSizeAllowed (bucket : StorageBucket) (sizeBytes : Int) : Bool :=
  bucket.maxFileSizeBytes = 0 || sizeBytes ≤ bucket.maxFileSizeBytes

end StorageBucket

/-- A tenant's limits; without a set of extensions every one is allowed. -/
structure StorageLimits where
  maxUploadSizeBytes : Int
  quotaBytes : Int
  allowedExtensions : Option (List Text)

def StorageLimits.normalize (unicode : UnicodeTables) (extension : Text) : Text :=
  unicode.toUpper ((trim extension).dropWhile (· = DOT))

def StorageLimits.isExtensionAllowed (unicode : UnicodeTables) (limits : StorageLimits)
    (extension : Text) : Bool :=
  match limits.allowedExtensions with
  | none => true
  | some allowed =>
    let normalized := normalize unicode extension
    -- a name without an extension is not in any set
    0 < normalized.length && normalized ∈ allowed

/-! ## The checks of an upload -/

/-- What both handlers check, in their order, before anything is stored. -/
def checkUpload (unicode : UnicodeTables) (bucket : Option StorageBucket)
    (limits : StorageLimits) (usedBytes : Int) (bucketName contentType extension : Text)
    (sizeBytes : Int) : Except Error StorageBucket :=
  match bucket with
  | none => .error (.ofEntry StorageErrors.bucketNotFound)
  | some bucket =>
    if !bucket.isContentTypeAllowed unicode contentType then
      .error ⟨StorageErrors.fileContentTypeNotAllowed, text "Content type '" ++ contentType ++
        text "' is not allowed in bucket '" ++ bucketName ++ text "'"⟩
    else if !bucket.isFileSizeAllowed sizeBytes then
      .error ⟨StorageErrors.fileTooLarge, text "File size " ++ number sizeBytes ++
        text " bytes exceeds maximum allowed size of " ++ number bucket.maxFileSizeBytes ++
        text " bytes"⟩
    else if sizeBytes > limits.maxUploadSizeBytes then
      .error ⟨StorageErrors.fileExceedsUploadLimit, text "File size " ++ number sizeBytes ++
        text " bytes exceeds the tenant upload limit of " ++ number limits.maxUploadSizeBytes ++
        text " bytes"⟩
    else if !limits.isExtensionAllowed unicode extension then
      .error ⟨StorageErrors.fileExtensionNotAllowed, text "File extension '" ++ extension ++
        text "' is not allowed for this tenant"⟩
    -- the sizes are the declared ones, of this file and of the rows
    else if usedBytes + sizeBytes > limits.quotaBytes then
      .error ⟨StorageErrors.quotaExceeded, text "Upload of " ++ number sizeBytes ++
        text " bytes would exceed the tenant storage quota of " ++ number limits.quotaBytes ++
        text " bytes"⟩
    else .ok bucket

/-- `Guid.ToString`. -/
def guidText (id : Guid) : Text :=
  text (Api.TenantId.toString (Fin.ofNat (2 ^ 128) id))

def buildStorageKey (tenantId : Guid) (bucketName : Text) (path : Option Text) (fileId : Guid)
    (extension : Text) : Text :=
  let folder := match path with
    | some path => if isNullOrWhiteSpace path then [] else [trimWhere (· = SLASH) path]
    | none => []
  [SLASH].intercalate ([text "tenant-" ++ guidText tenantId, bucketName] ++ folder ++
    [guidText fileId ++ extension])

variable {unicode : UnicodeTables} {bucket : Option StorageBucket} {found : StorageBucket}
  {limits : StorageLimits} {usedBytes sizeBytes : Int} {bucketName contentType extension : Text}

/-- What passes the checks fits the tenant's limits, as declared. -/
theorem checkUpload_ok (h : checkUpload unicode bucket limits usedBytes bucketName contentType
    extension sizeBytes = .ok found) :
    bucket = some found ∧ sizeBytes ≤ limits.maxUploadSizeBytes ∧
      usedBytes + sizeBytes ≤ limits.quotaBytes := by
  unfold checkUpload at h
  split at h
  · cases h
  · repeat' split at h
    all_goals cases h
    refine ⟨rfl, ?_, ?_⟩ <;> omega

/-! ## Keys -/

theorem text_injective {xs ys : List Char} (hxs : ∀ c ∈ xs, c.toNat < 2 ^ 16)
    (hys : ∀ c ∈ ys, c.toNat < 2 ^ 16) (h : text (String.ofList xs) = text (String.ofList ys)) :
    xs = ys := by
  -- one unit to a character, so the characters can be read back
  have hback : ∀ cs : List Char, (∀ c ∈ cs, c.toNat < 2 ^ 16) →
      (text (String.ofList cs)).map (fun u => Char.ofNat u.toNat) = cs := by
    intro cs hcs
    rw [text, String.toList_ofList, List.map_map]
    refine (List.map_congr_left fun c hc => ?_).trans (List.map_id cs)
    show Char.ofNat (UInt16.ofNat c.toNat).toNat = c
    rw [UInt16.toNat_ofNat_of_lt' (hcs c hc), Char.ofNat_toNat]
  rw [← hback xs hxs, ← hback ys hys, h]

theorem guidText_injective {a b : Guid} (ha : a < 2 ^ 128) (hb : b < 2 ^ 128)
    (h : guidText a = guidText b) : a = b := by
  have hsmall : ∀ id : Api.TenantId, ∀ c ∈ id.chars, c.toNat < 2 ^ 16 := fun id c hc => by
    have hrange := (Api.mem_chars hc).toNat
    omega
  have hchars := text_injective (hsmall _) (hsmall _) h
  have hfin : Fin.ofNat (2 ^ 128) a = Fin.ofNat (2 ^ 128) b := Api.chars_injective hchars
  have hval : a % 2 ^ 128 = b % 2 ^ 128 := congrArg Fin.val hfin
  rwa [Nat.mod_eq_of_lt ha, Nat.mod_eq_of_lt hb] at hval

theorem length_guidText (id : Guid) : (guidText id).length = 36 := by
  rw [guidText, text, List.length_map, Api.toList_toString, Api.chars_length]

theorem slash_not_mem_guidText (id : Guid) : SLASH ∉ guidText id := by
  intro h
  rw [guidText, text, Api.toList_toString] at h
  obtain ⟨c, hc, hslash⟩ := List.mem_map.mp h
  have hguid := Api.mem_chars hc
  have hsmall : c.toNat < 2 ^ 16 := by
    have hrange := hguid.toNat
    omega
  have hnat : c.toNat = 47 := by
    have hto := congrArg UInt16.toNat hslash
    rwa [UInt16.toNat_ofNat_of_lt' hsmall] at hto
  -- a `Guid` is written in hex digits and dashes
  have hchar : c = '/' := by rw [← Char.ofNat_toNat c, hnat]
  rw [hchar] at hguid
  cases hguid with
  | inl hdigit => exact absurd hdigit (by decide)
  | inr hdash => exact absurd hdash (by decide)

theorem slash_not_mem_getFileName (path : Text) : SLASH ∉ getFileName path := by
  unfold getFileName
  split
  · rename_i name hsplit
    exact (SplitText.splitLast_eq_some hsplit).1
  · rename_i hsplit
    exact SplitText.splitLast_eq_none hsplit

theorem slash_not_mem_getExtension (path : Text) : SLASH ∉ getExtension path := by
  unfold getExtension
  split
  · exact List.not_mem_nil
  · exact List.not_mem_nil
  · rename_i stem extension _ hsplit
    have hname := slash_not_mem_getFileName path
    rw [(SplitText.splitLast_eq_some hsplit).2] at hname
    intro hmem
    cases List.mem_cons.mp hmem with
    | inl heq => exact absurd heq (by decide)
    | inr hlater =>
      exact hname (List.mem_append_right _ (List.mem_cons_of_mem _ hlater))

/-- The key was built for this file. -/
def IsKeyOf (fileId : Guid) (key : Text) : Prop :=
  ∃ front extension, SLASH ∉ extension ∧ key = front ++ SLASH :: (guidText fileId ++ extension)

/-- Joined parts end in the last of them. -/
theorem intercalate_concat (parts : List Text) (last : Text) (h : parts ≠ []) :
    ∃ front, [SLASH].intercalate (parts ++ [last]) = front ++ SLASH :: last := by
  induction parts with
  | nil => exact absurd rfl h
  | cons part rest ih =>
    by_cases hrest : rest = []
    · refine ⟨part, ?_⟩
      rw [hrest]
      simp [List.intercalate]
    · obtain ⟨front, hfront⟩ := ih hrest
      refine ⟨part ++ SLASH :: front, ?_⟩
      rw [List.cons_append, List.intercalate_cons_of_ne_nil (by simp), hfront]
      simp

theorem isKeyOf_buildStorageKey (tenantId : Guid) (bucketName : Text) (path : Option Text)
    (fileId : Guid) (name : Text) :
    IsKeyOf fileId (buildStorageKey tenantId bucketName path fileId (getExtension name)) := by
  obtain ⟨front, hfront⟩ := intercalate_concat _ (guidText fileId ++ getExtension name)
    (List.cons_ne_nil _ _)
  exact ⟨front, getExtension name, slash_not_mem_getExtension name, hfront⟩

/-- Keys of different files differ. -/
theorem IsKeyOf.unique {a b : Guid} {key : Text} (ha : IsKeyOf a key) (hb : IsKeyOf b key)
    (hlta : a < 2 ^ 128) (hltb : b < 2 ^ 128) : a = b := by
  -- neither the id nor the extension has a slash, so the last slash stands before the id
  have hsplit : ∀ {id front extension}, SLASH ∉ extension →
      key = front ++ SLASH :: (guidText id ++ extension) →
      SplitText.splitLast SLASH key = some (front, guidText id ++ extension) := by
    intro id front extension hslash hkey
    rw [hkey]
    apply SplitText.splitLast_append
    rw [List.mem_append, not_or]
    exact ⟨slash_not_mem_guidText id, hslash⟩
  obtain ⟨front, extension, hslash, hkey⟩ := ha
  obtain ⟨front', extension', hslash', hkey'⟩ := hb
  have hsame := (hsplit hslash hkey).symm.trans (hsplit hslash' hkey')
  simp only [Option.some.injEq, Prod.mk.injEq] at hsame
  have htake := congrArg (List.take 36) hsame.2
  rw [List.take_left' (length_guidText a), List.take_left' (length_guidText b)] at htake
  exact guidText_injective hlta hltb htake

end Wallow.Storage
