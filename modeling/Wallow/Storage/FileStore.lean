import Wallow.Lib.Transition
import Wallow.Storage.UploadFile
import Mathlib.Algebra.BigOperators.Group.List.Basic
import Mathlib.Data.List.Perm.Basic

/-!
# The files of one tenant

The rows, the object store, the signed URLs that were handed out, and the requests under way, each
at the call it makes next: direct uploads, presigned reservations and their completions, deletions.
`PUT`s and downloads by URL come at any time until the URL expires.
-/

namespace Wallow.Storage

open ReadStream Transition

structure StorageConfig where
  unicode : UnicodeTables
  invalidFileNameChars : List UInt16
  tenantId : Guid
  limits : StorageLimits
  scanner : FileScanner
  provider : StorageProvider
  putObject : Stream UInt8 → Bytes
  /-- In ticks, as every time span here. -/
  maxUploadExpiry : Int
  maxDownloadExpiry : Int

/-! ## Reserving a presigned upload -/

structure GetUploadPresignedUrlQuery where
  userId : Guid
  bucketName : Text
  fileName : Text
  contentType : Text
  sizeBytes : Int
  path : Option Text
  expiry : Option Int

/-- The messages of the rules that fail, in their order. -/
def GetUploadPresignedUrlValidator.validate (unicode : UnicodeTables) (tenantId : Guid)
    (query : GetUploadPresignedUrlQuery) : List String :=
  let traverses := UploadFileValidator.containsPathTraversal unicode
  ([(decide (tenantId ≠ Guid.empty), "Tenant ID is required"),
    (decide (query.userId ≠ Guid.empty), "User ID is required"),
    (!isNullOrWhiteSpace query.bucketName, "Bucket name is required"),
    (decide (query.bucketName.length ≤ 100), "Bucket name must not exceed 100 characters"),
    (!isNullOrWhiteSpace query.fileName, "File name is required"),
    (decide (query.fileName.length ≤ 500), "File name must not exceed 500 characters"),
    (!traverses query.fileName, "File name must not contain path traversal sequences"),
    (!isNullOrWhiteSpace query.contentType, "Content type is required"),
    (decide (query.contentType.length ≤ 200), "Content type must not exceed 200 characters"),
    (decide (query.sizeBytes > 0), "File size must be greater than 0"),
    (decide ((query.path.getD []).length ≤ 500), "Path must not exceed 500 characters"),
    (!(query.path.map traverses).getD false, "Path must not contain path traversal sequences")
  ].filter fun rule => !rule.1).map Prod.snd

/-- A request without an error keeps each rule. -/
theorem rule_of_no_errors {rules : List (Bool × String)}
    (h : (rules.filter fun rule => !rule.1).map Prod.snd = []) (rule : Bool × String)
    (hrule : rule ∈ rules) : rule.1 = true := by
  rw [List.map_eq_nil_iff, List.filter_eq_nil_iff] at h
  have hkept := h rule hrule
  rwa [Bool.not_eq_true, Bool.not_eq_false'] at hkept

theorem upload_path_accepted {unicode : UnicodeTables} {command : UploadFileCommand}
    (h : (UploadFileValidator.validate unicode command).1 = []) :
    (command.path.map (UploadFileValidator.containsPathTraversal unicode)).getD false = false := by
  rw [UploadFileValidator.validate] at h
  have hrule := rule_of_no_errors h (!(command.path.map
    (UploadFileValidator.containsPathTraversal unicode)).getD false,
    "Path must not contain path traversal sequences") (by simp)
  rwa [Bool.not_eq_true'] at hrule

theorem reserve_path_accepted {unicode : UnicodeTables} {tenantId : Guid}
    {query : GetUploadPresignedUrlQuery}
    (h : GetUploadPresignedUrlValidator.validate unicode tenantId query = []) :
    (query.path.map (UploadFileValidator.containsPathTraversal unicode)).getD false = false := by
  rw [GetUploadPresignedUrlValidator.validate] at h
  have hrule := rule_of_no_errors h (!(query.path.map
    (UploadFileValidator.containsPathTraversal unicode)).getD false,
    "Path must not contain path traversal sequences") (by simp)
  rwa [Bool.not_eq_true'] at hrule

namespace GetUploadPresignedUrlHandler

def DEFAULT_EXPIRY : Int := 15 * 60 * TICKS_PER_SECOND

def check (config : StorageConfig) (found : Option StorageBucket) (usedBytes : Int)
    (query : GetUploadPresignedUrlQuery) : Except Error StorageBucket :=
  checkUpload config.unicode found config.limits usedBytes query.bucketName query.contentType
    (getExtension query.fileName) query.sizeBytes

def fileOf (config : StorageConfig) (bucket : StorageBucket) (fileId storedFileId : Guid)
    (now : Instant) (query : GetUploadPresignedUrlQuery) : StoredFile :=
  .createPendingValidation storedFileId now config.tenantId bucket.id query.fileName
    query.contentType query.sizeBytes
    (buildStorageKey config.tenantId query.bucketName query.path fileId
      (getExtension query.fileName)) query.userId query.path

end GetUploadPresignedUrlHandler

def GetPresignedUrlHandler.DEFAULT_EXPIRY : Int := 60 * 60 * TICKS_PER_SECOND

/-- A bearer URL: the key it is for and its deadline in Unix seconds. -/
structure SignedUrl where
  key : Text
  expires : Int
  deriving DecidableEq

/-- `RequestSizeLimit` of the local endpoint. -/
def LOCAL_UPLOAD_LIMIT : Nat := 100 * 1024 * 1024

/-! ## The system -/

/-- A request under way, by what it does next. -/
inductive Job
  /-- A direct upload that passed the checks: the scan, then the object. -/
  | uploading (file : StoredFile) (content : Stream UInt8)
  | inserting (file : StoredFile)
  | reserving (file : StoredFile) (expiry : Option Int)
  | signing (key : Text) (expiry : Option Int)
  /-- A completion with the pending row it loaded. -/
  | completing (file : StoredFile)
  | found (file : StoredFile)
  | scanned (file : StoredFile) (bytes : Bytes) (isClean : Bool)
  | finished

/-- The file a request has been admitted for and not inserted. -/
def Job.pending : Job → Option StoredFile
  | .uploading file _ | .inserting file | .reserving file _ => some file
  | _ => none

/-- The row a completion works on. -/
def Job.copy : Job → Option StoredFile
  | .completing file | .found file | .scanned file _ _ => some file
  | _ => none

structure FileStore where
  files : List StoredFile
  objects : Text → Option Bytes
  uploadUrls : List SignedUrl
  downloadUrls : List SignedUrl
  jobs : List Job
  /-- The keys whose rows are removed and whose objects are next. -/
  doomed : List Text
  now : Instant
  /-- The Guids drawn so far. -/
  drawn : List Guid
  /-- Every row that was ever inserted, as it was then. -/
  inserted : List StoredFile
  /-- What the scanner found clean when the file became available. -/
  cleared : Guid → Option Bytes

inductive FileMove
  | upload (fileId storedFileId : Guid) (userId : Option Guid) (file : FormFile)
      (bucketName : Text) (found : Option StorageBucket) (path : Option Text) (isPublic : Bool)
      (position : Nat)
  | reserve (fileId storedFileId : Guid) (found : Option StorageBucket)
      (query : GetUploadPresignedUrlQuery)
  | put (url : SignedUrl) (bytes : Bytes)
  | complete (id : Guid)
  | presign (id : Guid) (expiry : Option Int)
  /-- `DeleteFile`, or a bucket with its files. -/
  | delete (ids : List Guid)
  | deleteObject (j : Nat)
  | failDelete (j : Nat)
  /-- The next call of a request. -/
  | act (i : Nat)
  | fail (i : Nat)
  | tick (ticks : Nat)

namespace FileStore

def initial (now : Instant) : FileStore :=
  ⟨[], fun _ => none, [], [], [], [], now, [], [], fun _ => none⟩

/-- `GetTotalSizeBytesAsync`. -/
def usedBytes (s : FileStore) : Int :=
  (s.files.map (·.sizeBytes)).sum

def unixSeconds (s : FileStore) : Int :=
  ((s.now / TICKS_PER_SECOND : Nat) : Int)

def sign (s : FileStore) (key : Text) (expiry : Option Int) (default max : Int) : SignedUrl :=
  -- the deadline is cut to whole seconds
  ⟨key, ((s.now : Int) + min (expiry.getD default) max) / TICKS_PER_SECOND⟩

/-- What a download URL serves. -/
def serve (s : FileStore) (url : SignedUrl) : Option Bytes :=
  -- the object is looked up by its key; the row is not asked
  if url ∈ s.downloadUrls ∧ s.unixSeconds ≤ url.expires then s.objects url.key else none

def enter (s : FileStore) (i : Nat) (job : Job) : FileStore :=
  { s with jobs := s.jobs.set i job }

def draw (s : FileStore) (fileId storedFileId : Guid) : FileStore :=
  { s with drawn := fileId :: storedFileId :: s.drawn }

def start (s : FileStore) (job : Job) : FileStore :=
  { s with jobs := s.jobs ++ [job] }

def write (s : FileStore) (key : Text) (object : Option Bytes) : FileStore :=
  { s with objects := Function.update s.objects key object }

@[simp] theorem write_objects_self (s : FileStore) (key : Text) (object : Option Bytes) :
    (s.write key object).objects key = object := by
  simp only [write, Function.update_self]

theorem write_objects_of_ne (s : FileStore) {key other : Text} (h : other ≠ key)
    (object : Option Bytes) : (s.write key object).objects other = s.objects other := by
  simp only [write, Function.update_of_ne h]

/-- Ids and storage keys are unique in the table. -/
def insertable (s : FileStore) (file : StoredFile) : Bool :=
  !s.files.any fun row => row.id = file.id || row.storageKey = file.storageKey

def insert (s : FileStore) (file : StoredFile) : FileStore :=
  { s with files := s.files ++ [file], inserted := s.inserted ++ [file] }

/-- The verdict reaches the row, whatever it has become. -/
def save (s : FileStore) (file : StoredFile) (bytes : Bytes) (isClean : Bool) : FileStore :=
  { s with
    files := s.files.map fun row =>
      if row.id = file.id then if isClean then row.markAsAvailable else row.markAsRejected
      else row
    cleared := if isClean then Function.update s.cleared file.id (some bytes) else s.cleared }

variable (config : StorageConfig)

def environment (s : FileStore) (fileId storedFileId : Guid) (found : Option StorageBucket) :
    UploadEnvironment where
  unicode := config.unicode
  invalidFileNameChars := config.invalidFileNameChars
  buckets _ := found
  limits _ := config.limits
  usedBytes := s.usedBytes
  fileId := fileId
  storedFileId := storedFileId
  now := s.now
  scanner := config.scanner
  provider := config.provider
  putObject := config.putObject

/-- Guids are not drawn twice. -/
def fresh (s : FileStore) (id : Guid) : Bool :=
  decide (id < 2 ^ 128) && decide (id ∉ s.drawn)

def upload (s : FileStore) (fileId storedFileId : Guid) (userId : Option Guid) (file : FormFile)
    (bucketName : Text) (found : Option StorageBucket) (path : Option Text) (isPublic : Bool)
    (position : Nat) : FileStore :=
  match StorageController.received config.unicode config.tenantId userId file bucketName path
      isPublic position with
  | .error _ => s
  | .ok command =>
    let env := s.environment config fileId storedFileId found
    match UploadFileHandler.check env command with
    | .error _ => s
    | .ok bucket => (s.draw fileId storedFileId).start
        (.uploading (UploadFileHandler.fileOf env command bucket) command.content)

def reserve (s : FileStore) (fileId storedFileId : Guid) (found : Option StorageBucket)
    (query : GetUploadPresignedUrlQuery) : FileStore :=
  if GetUploadPresignedUrlValidator.validate config.unicode config.tenantId query = [] then
    match GetUploadPresignedUrlHandler.check config found s.usedBytes query with
    | .error _ => s
    | .ok bucket => (s.draw fileId storedFileId).start (.reserving
        (GetUploadPresignedUrlHandler.fileOf config bucket fileId storedFileId s.now query)
        query.expiry)
  else s

def put (s : FileStore) (url : SignedUrl) (bytes : Bytes) : Option FileStore :=
  if url ∈ s.uploadUrls ∧ s.unixSeconds ≤ url.expires ∧
      -- neither the row's status nor its declared size is asked
      (config.provider = .s3 ∨ bytes.length ≤ LOCAL_UPLOAD_LIMIT) then
    some (s.write url.key (some bytes))
  else none

def complete (s : FileStore) (id : Guid) : FileStore :=
  match s.files.find? (·.id = id) with
  | none => s
  | some file => if file.status = .pendingValidation then s.start (.completing file) else s

def presign (s : FileStore) (id : Guid) (expiry : Option Int) : FileStore :=
  match s.files.find? (·.id = id) with
  | none => s
  | some file =>
    if file.status = .available then
      { s with
        downloadUrls := s.downloadUrls ++ [s.sign file.storageKey expiry
          GetPresignedUrlHandler.DEFAULT_EXPIRY config.maxDownloadExpiry] }
    else s

/-- The rows go in one transaction, their objects one by one after it. -/
def delete (s : FileStore) (ids : List Guid) : FileStore :=
  { s with
    files := s.files.filter fun row => row.id ∉ ids
    doomed := s.doomed ++ (s.files.filter fun row => row.id ∈ ids).map (·.storageKey) }

def act (s : FileStore) (i : Nat) : Job → Option FileStore
  | .uploading file content =>
    -- a file that fails the scan is stored nowhere
    let scan := config.scanner.scan content
    some (if scan.result.isClean then
      (s.write file.storageKey
        (some (config.provider.upload config.putObject scan.content))).enter i (.inserting file)
    else s.enter i .finished)
  | .inserting file =>
    -- the row is made after the object is stored
    let row := { file with uploadedAt := s.now }
    some (if s.insertable row then (s.insert row).enter i .finished else s.enter i .finished)
  | .reserving file expiry =>
    some (if s.insertable file then (s.insert file).enter i (.signing file.storageKey expiry)
      else s.enter i .finished)
  | .signing key expiry =>
    some ({ s with
      uploadUrls := s.uploadUrls ++ [s.sign key expiry GetUploadPresignedUrlHandler.DEFAULT_EXPIRY
        config.maxUploadExpiry] }.enter i .finished)
  | .completing file =>
    -- `ExistsAsync`, a call before the object is read
    some (s.enter i (if (s.objects file.storageKey).isSome then .found file else .finished))
  | .found file =>
    match s.objects file.storageKey with
    | none => some (s.enter i .finished)
    | some bytes =>
      -- what is scanned is the object as it is now
      some (s.enter i (.scanned file bytes (config.scanner.scan ⟨bytes, 0, false⟩).result.isClean))
  | .scanned file bytes isClean =>
    -- the row is found by its id; one that was deleted meanwhile makes the save throw
    some (if s.files.any (·.id = file.id) then (s.save file bytes isClean).enter i .finished
      else s.enter i .finished)
  | .finished => none

def step (s : FileStore) : FileMove → Option FileStore
  | .upload fileId storedFileId userId file bucketName found path isPublic position =>
    if s.fresh fileId && s.fresh storedFileId then
      some (s.upload config fileId storedFileId userId file bucketName found path isPublic position)
    else none
  | .reserve fileId storedFileId found query =>
    if s.fresh fileId && s.fresh storedFileId then
      some (s.reserve config fileId storedFileId found query)
    else none
  | .put url bytes => s.put config url bytes
  | .complete id => some (s.complete id)
  | .presign id expiry => some (s.presign config id expiry)
  | .delete ids => some (s.delete ids)
  | .deleteObject j => s.doomed[j]?.map fun key =>
      { s.write key none with doomed := s.doomed.eraseIdx j }
  | .failDelete j => some { s with doomed := s.doomed.eraseIdx j }
  | .act i => s.jobs[i]?.bind (s.act config i)
  | .fail i => s.jobs[i]?.map fun _ => s.enter i .finished
  | .tick ticks => some { s with now := s.now + ticks }

end FileStore

end Wallow.Storage
