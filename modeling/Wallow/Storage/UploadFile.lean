import Wallow.Lib.Frames
import Wallow.Lib.ReadStream
import Wallow.Storage.Files

/-!
# A direct upload

`StorageController.Upload` hands one stream to the validator, which looks at its first bytes, to
the scanner, which reads it where it stands, and to the storage provider, which reads it where the
scanner left it.
-/

namespace Wallow.Storage

open ReadStream

abbrev Bytes := List UInt8

structure UploadFileCommand where
  tenantId : Guid
  userId : Guid
  bucketName : Text
  fileName : Text
  contentType : Text
  content : Stream UInt8
  sizeBytes : Int
  path : Option Text
  isPublic : Bool
  metadata : Option Text

/-! ## `UploadFileValidator` -/

namespace UploadFileValidator

def magicBytesByContentType : List (Text × List Bytes) :=
  [(text "image/jpeg", [[0xFF, 0xD8, 0xFF]]), (text "image/png", [[0x89, 0x50, 0x4E, 0x47]]),
    (text "application/pdf", [[0x25, 0x50, 0x44, 0x46]]),
    (text "image/gif", [[0x47, 0x49, 0x46, 0x38]]),
    (text "application/zip", [[0x50, 0x4B, 0x03, 0x04]])]

/-- PE executables and DLLs share it. -/
def mzHeader : Bytes := [0x4D, 0x5A]

def blockedTextSignatures : List Text :=
  [text "<html", text "<!doctype", text "<svg"]

def BLOCKED_SIGNATURE_MAX_BYTES : Nat := 16

/-- A look at the next bytes; only a stream that can seek is put back. -/
def peek (content : Stream UInt8) (count : Nat) : Bytes × Stream UInt8 :=
  -- `CanSeek` guards the read of `Position` as it does the rewind
  let originalPosition := if content.canSeek then content.position else 0
  let header := content.read count
  (header.1, if content.canSeek then header.2.seek originalPosition else header.2)

def haveMatchingMagicBytes (contentType : Text) (content : Stream UInt8) :
    Bool × Stream UInt8 :=
  match magicBytesByContentType.lookup contentType with
  | none => (true, content)
  | some signatures =>
    let lengths := signatures.map List.length
    let header := peek content (lengths.foldl max 0)
    (decide (lengths.min?.getD 0 ≤ header.1.length) && signatures.any (·.isPrefixOf header.1),
      header.2)

/-- `Encoding.ASCII.GetString`, in lower case. -/
def asciiLower (header : Bytes) : Text :=
  header.map fun b =>
    if 0x80 ≤ b then 0x3F else if 0x41 ≤ b && b ≤ 0x5A then b.toUInt16 + 0x20 else b.toUInt16

def notContainBlockedSignature (content : Stream UInt8) : Bool × Stream UInt8 :=
  let header := peek content BLOCKED_SIGNATURE_MAX_BYTES
  -- markup may come after blanks
  let trimmedHeader := (asciiLower header.1).dropWhile isWhiteSpace
  (decide (header.1.length < 2) || (!mzHeader.isPrefixOf header.1 &&
    blockedTextSignatures.all fun blocked => !blocked.isPrefixOf trimmedHeader), header.2)

def containsPathTraversal (unicode : UnicodeTables) (value : Text) : Bool :=
  value.tails.any [DOT, DOT].isPrefixOf || [SLASH].isPrefixOf value ||
    [BACKSLASH].isPrefixOf value ||
    match value with
    | drive :: colon :: _ => unicode.isLetter drive && colon = COLON
    | _ => false

/-- The messages of the rules that fail, in their order, and the stream after both looks.  The
content itself is never missing here. -/
def validate (unicode : UnicodeTables) (command : UploadFileCommand) :
    List String × Stream UInt8 :=
  -- every rule is run; the two that look at the content run one after the other
  let magic := haveMatchingMagicBytes command.contentType command.content
  let blocked := notContainBlockedSignature magic.2
  let pathTraversal := (command.path.map (containsPathTraversal unicode)).getD false
  (([(decide (command.tenantId ≠ Guid.empty), "Tenant ID is required"),
      (decide (command.userId ≠ Guid.empty), "User ID is required"),
      (!isNullOrWhiteSpace command.bucketName, "Bucket name is required"),
      (decide (command.bucketName.length ≤ 100), "Bucket name must not exceed 100 characters"),
      (!isNullOrWhiteSpace command.fileName, "File name is required"),
      (decide (command.fileName.length ≤ 500), "File name must not exceed 500 characters"),
      (!containsPathTraversal unicode command.fileName,
        "File name must not contain path traversal sequences"),
      (!isNullOrWhiteSpace command.contentType, "Content type is required"),
      (decide (command.contentType.length ≤ 200), "Content type must not exceed 200 characters"),
      (decide (command.sizeBytes > 0), "File size must be greater than 0"),
      (decide ((command.path.getD []).length ≤ 500), "Path must not exceed 500 characters"),
      (!pathTraversal, "Path must not contain path traversal sequences"),
      (magic.1, "File content does not match the declared content type"),
      (blocked.1, "File contains a blocked file type signature (HTML, SVG, or executable)")
    ].filter fun rule => !rule.1).map Prod.snd, blocked.2)

theorem peek_seekable {content : Stream UInt8} (h : content.canSeek = true) (count : Nat) :
    (peek content count).2 = content := by
  simp only [peek, h, if_true]
  exact Stream.seek_read content count

/-- Both looks leave a stream that can seek as it was. -/
theorem validate_seekable (unicode : UnicodeTables) {command : UploadFileCommand}
    (h : command.content.canSeek = true) : (validate unicode command).2 = command.content := by
  have hmagic : (haveMatchingMagicBytes command.contentType command.content).2 =
      command.content := by
    unfold haveMatchingMagicBytes
    split
    · rfl
    · exact peek_seekable h _
  show (notContainBlockedSignature
    (haveMatchingMagicBytes command.contentType command.content).2).2 = command.content
  rw [hmagic]
  exact peek_seekable h _

end UploadFileValidator

/-! ## Scanning -/

structure FileScanResult where
  isClean : Bool
  threatName : Option Text
  deriving DecidableEq

def FileScanResult.clean : FileScanResult := ⟨true, none⟩

def FileScanResult.infected (threatName : Text) : FileScanResult := ⟨false, some threatName⟩

namespace ClamAvFileScanner

def CHUNK_SIZE : Nat := 8192

/-- `zINSTREAM\0` -/
def command : Bytes := [0x7A, 0x49, 0x4E, 0x53, 0x54, 0x52, 0x45, 0x41, 0x4D, 0x00]

/-- What is written to the daemon, and the stream after it. -/
def send (content : Stream UInt8) : Bytes × Stream UInt8 :=
  let chunks := content.readChunks CHUNK_SIZE
  (command ++ Frames.frames chunks.1 ++ Frames.terminator, chunks.2)

/-- The content the daemon takes from what it is sent. -/
def received (wire : Bytes) : Option Bytes :=
  if command.isPrefixOf wire then Frames.unframe (wire.drop command.length) else none

def upper (response : Text) : Text :=
  response.map fun c => if 0x61 ≤ c && c ≤ 0x7A then c - 0x20 else c

/-- The last place a text stands at, if any. -/
def lastIndexOf (needle response : Text) : Option Nat :=
  ((List.range (response.length + 1)).filter fun i => needle.isPrefixOf (response.drop i)).getLast?

/-- `stream: OK` or `stream: <threat> FOUND`. -/
def parse (reply : Text) : FileScanResult :=
  let response := (reply.reverse.dropWhile fun c => c = 0x00 || c = 0x0A || c = 0x0D).reverse
  -- a reply that is not understood counts as infected
  let unexpected := FileScanResult.infected (text "Unknown threat (response: " ++ response ++
    text ")")
  if (text "OK").isSuffixOf (upper response) then .clean
  else if (text "FOUND").isSuffixOf (upper response) then
    match response.findIdx? (· = COLON), lastIndexOf (text " FOUND") (upper response) with
    | some colonIndex, some foundIndex =>
      if foundIndex > colonIndex then
        .infected (trim ((response.take foundIndex).drop (colonIndex + 1)))
      else unexpected
    | _, _ => unexpected
  else unexpected

/-- The daemon receives the content of the stream from where it stands. -/
theorem received_send (content : Stream UInt8) :
    received (send content).1 = some content.rest := by
  have hchunks : ∀ chunk ∈ (content.readChunks CHUNK_SIZE).1,
      0 < chunk.length ∧ chunk.length < 256 ^ 4 := by
    intro chunk hmem
    have hbounds := Stream.mem_readChunks hmem
    refine ⟨hbounds.1, Nat.lt_of_le_of_lt hbounds.2 ?_⟩
    decide
  show received (command ++ Frames.frames (content.readChunks CHUNK_SIZE).1 ++
    Frames.terminator) = _
  rw [List.append_assoc, received, if_pos (List.isPrefixOf_iff_prefix.mpr
    (List.prefix_append _ _)), List.drop_left, Frames.unframe_frames hchunks,
    Stream.flatten_readChunks (by decide)]

/-- It is read to its end. -/
theorem rest_send (content : Stream UInt8) : (send content).2.rest = [] := by
  show (content.readChunks CHUNK_SIZE).2.rest = []
  rw [Stream.readChunks_snd, Stream.rest_advance, Stream.flatten_readChunks (by decide),
    List.drop_length]

theorem items_send (content : Stream UInt8) :
    (send content).2.items = content.items ∧ (send content).2.canSeek = content.canSeek := by
  show (content.readChunks CHUNK_SIZE).2.items = _ ∧ (content.readChunks CHUNK_SIZE).2.canSeek = _
  rw [Stream.readChunks_snd]
  exact ⟨rfl, rfl⟩

end ClamAvFileScanner

/-- The daemon's reply depends on what it is sent; without it the scan is skipped. -/
inductive FileScanner
  | clamAv (daemon : Bytes → Text)
  | noOp

structure Scan where
  result : FileScanResult
  /-- What went to the daemon. -/
  wire : Bytes
  content : Stream UInt8

def FileScanner.scan : FileScanner → Stream UInt8 → Scan
  | .clamAv daemon, content =>
    -- the stream is read to its end and not put back
    let sent := ClamAvFileScanner.send content
    ⟨ClamAvFileScanner.parse (daemon sent.1), sent.1, sent.2⟩
  | .noOp, content => ⟨.clean, [], content⟩

/-! ## Storing -/

inductive StorageProvider
  | local_
  | s3
  deriving DecidableEq

/-- The body of the object: the rest of the stream copied to a file, or what the S3 client sends
for it. -/
def StorageProvider.upload (putObject : Stream UInt8 → Bytes) :
    StorageProvider → Stream UInt8 → Bytes
  | .local_, content => content.readToEnd.1
  | .s3, content => putObject content

structure UploadResult where
  fileId : Guid
  fileName : Text
  storageKey : Text
  sizeBytes : Int
  contentType : Text
  uploadedAt : Instant
  deriving DecidableEq

/-- What the handler is given, reads and draws. -/
structure UploadEnvironment where
  unicode : UnicodeTables
  invalidFileNameChars : List UInt16
  buckets : Text → Option StorageBucket
  limits : Guid → StorageLimits
  usedBytes : Int
  fileId : Guid
  storedFileId : Guid
  now : Instant
  scanner : FileScanner
  provider : StorageProvider
  putObject : Stream UInt8 → Bytes

structure Uploaded where
  result : UploadResult
  storedFile : StoredFile
  wire : Bytes
  objects : Text → Option Bytes

namespace UploadFileHandler

/-- The extension the key ends in. -/
def extensionOf (env : UploadEnvironment) (command : UploadFileCommand) : Text :=
  getExtension (FileNameSanitizer.sanitize env.invalidFileNameChars command.fileName)

def keyOf (env : UploadEnvironment) (command : UploadFileCommand) : Text :=
  buildStorageKey command.tenantId command.bucketName command.path env.fileId
    (extensionOf env command)

def fileOf (env : UploadEnvironment) (command : UploadFileCommand) (bucket : StorageBucket) :
    StoredFile :=
  .create env.storedFileId env.now command.tenantId bucket.id
    (FileNameSanitizer.sanitize env.invalidFileNameChars command.fileName) command.contentType
    command.sizeBytes (keyOf env command) command.userId command.path command.isPublic
    command.metadata

def store (env : UploadEnvironment) (objects : Text → Option Bytes) (file : StoredFile)
    (scan : Scan) : Uploaded where
  result := ⟨file.id, file.fileName, file.storageKey, file.sizeBytes, file.contentType,
    file.uploadedAt⟩
  storedFile := file
  wire := scan.wire
  objects := Function.update objects file.storageKey
    (some (env.provider.upload env.putObject scan.content))

def check (env : UploadEnvironment) (command : UploadFileCommand) : Except Error StorageBucket :=
  checkUpload env.unicode (env.buckets command.bucketName) (env.limits command.tenantId)
    env.usedBytes command.bucketName command.contentType (extensionOf env command)
    command.sizeBytes

def handle (env : UploadEnvironment) (objects : Text → Option Bytes)
    (command : UploadFileCommand) : Except Error Uploaded :=
  match check env command with
  | .error error => .error error
  | .ok bucket =>
    let scan := env.scanner.scan command.content
    -- what is stored is the stream as the scan left it
    if scan.result.isClean then .ok (store env objects (fileOf env command bucket) scan)
    else .error ⟨StorageErrors.fileFailedSecurityScan, text "File '" ++ command.fileName ++
      text "' failed security scan: " ++ scan.result.threatName.getD []⟩

end UploadFileHandler

/-- A file of a multipart form. -/
structure FormFile where
  content : Bytes
  fileName : Text
  contentType : Text

inductive UploadRefusal
  | unauthenticated
  | invalid (messages : List String)
  | failed (error : Error)

namespace StorageController

/-- `position` is where an earlier attempt left the stream, zero at the first. -/
def commandOf (tenantId userId : Guid) (file : FormFile) (bucket : Text) (path : Option Text)
    (isPublic : Bool) (position : Nat) : UploadFileCommand :=
  ⟨tenantId, userId, bucket, file.fileName, file.contentType,
    (Stream.opened file.content).seek position, file.content.length, path, isPublic, none⟩

/-- The validator runs on the command before the handler, and so on its stream. -/
def validated (unicode : UnicodeTables) (command : UploadFileCommand) :
    Except UploadRefusal UploadFileCommand :=
  let answer := UploadFileValidator.validate unicode command
  if answer.1 = [] then .ok { command with content := answer.2 } else .error (.invalid answer.1)

/-- The command the handler gets. -/
def received (unicode : UnicodeTables) (tenantId : Guid) (userId : Option Guid) (file : FormFile)
    (bucket : Text) (path : Option Text) (isPublic : Bool) (position : Nat) :
    Except UploadRefusal UploadFileCommand :=
  if file.content.length = 0 then .error (.invalid ["The uploaded file is empty."])
  else
    match userId with
    | none => .error .unauthenticated
    | some userId =>
      validated unicode (commandOf tenantId userId file bucket path isPublic position)

def upload (env : UploadEnvironment) (objects : Text → Option Bytes) (tenantId : Guid)
    (userId : Option Guid) (file : FormFile) (bucket : Text) (path : Option Text)
    (isPublic : Bool) : Except UploadRefusal Uploaded :=
  match received env.unicode tenantId userId file bucket path isPublic 0 with
  | .error refusal => .error refusal
  | .ok command =>
    match UploadFileHandler.handle env objects command with
    | .ok uploaded => .ok uploaded
    | .error error => .error (.failed error)

end StorageController

/-! ## What an upload leaves behind -/

variable {env : UploadEnvironment} {objects : Text → Option Bytes} {command : UploadFileCommand}
  {uploaded : Uploaded} {tenantId : Guid} {userId : Option Guid} {file : FormFile} {bucket : Text}
  {path : Option Text} {isPublic : Bool}

theorem handle_ok (h : UploadFileHandler.handle env objects command = .ok uploaded) :
    ∃ found, uploaded = UploadFileHandler.store env objects
      (UploadFileHandler.fileOf env command found) (env.scanner.scan command.content) := by
  unfold UploadFileHandler.handle at h
  split at h
  · cases h
  · rename_i found _
    dsimp only at h
    split at h
    · exact ⟨found, (Except.ok.inj h).symm⟩
    · cases h

theorem validated_ok {unicode : UnicodeTables} {passed : UploadFileCommand}
    (h : StorageController.validated unicode command = .ok passed)
    (hseek : command.content.canSeek = true) : passed = command := by
  have hcontent := UploadFileValidator.validate_seekable unicode hseek
  simp only [StorageController.validated, hcontent] at h
  split at h
  · exact (Except.ok.inj h).symm
  · cases h

theorem received_ok {unicode : UnicodeTables} {position : Nat} {passed : UploadFileCommand}
    (h : StorageController.received unicode tenantId userId file bucket path isPublic position =
      .ok passed) :
    0 < file.content.length ∧ ∃ user, passed =
      StorageController.commandOf tenantId user file bucket path isPublic position := by
  unfold StorageController.received at h
  split at h
  · cases h
  · rename_i hne
    cases userId with
    | none => cases h
    | some user => exact ⟨Nat.pos_of_ne_zero hne, user, validated_ok h rfl⟩

/-- What is accepted was scanned and stored from the stream as the form opened it. -/
theorem upload_ok (h : StorageController.upload env objects tenantId userId file bucket path
    isPublic = .ok uploaded) :
    ∃ stored : StoredFile, stored.sizeBytes = file.content.length ∧
      uploaded = UploadFileHandler.store env objects stored
        (env.scanner.scan (Stream.opened file.content)) := by
  unfold StorageController.upload at h
  split at h
  · cases h
  · rename_i command hreceived
    obtain ⟨-, user, rfl⟩ := received_ok hreceived
    split at h
    · rename_i hhandle
      cases h
      obtain ⟨found, hstored⟩ := handle_ok hhandle
      exact ⟨_, rfl, hstored⟩
    · cases h

theorem store_objects (stored : StoredFile) (scan : Scan) :
    (UploadFileHandler.store env objects stored scan).objects
      (UploadFileHandler.store env objects stored scan).result.storageKey =
        some (env.provider.upload env.putObject scan.content) :=
  Function.update_self _ _ _

/-- A scanner that has read the stream leaves nothing of it to the local provider. -/
theorem store_local_scanned (hprovider : env.provider = .local_) {daemon : Bytes → Text}
    (hscanner : env.scanner = .clamAv daemon) (stored : StoredFile) (content : Stream UInt8) :
    (UploadFileHandler.store env objects stored (env.scanner.scan content)).objects
      (UploadFileHandler.store env objects stored (env.scanner.scan content)).result.storageKey =
        some [] := by
  rw [store_objects, hprovider, hscanner]
  exact congrArg some (ClamAvFileScanner.rest_send content)

/-- One bucket, a clean reply, and an S3 client that goes back to the start of a stream. -/
def sampleEnvironment (scanner : FileScanner) (provider : StorageProvider) : UploadEnvironment where
  unicode := ⟨id, id, fun _ => false⟩
  invalidFileNameChars := [0, SLASH]
  buckets name := if name = text "files" then some ⟨1, 0, none⟩ else none
  limits _ := ⟨1000, 5000, none⟩
  usedBytes := 0
  fileId := 11
  storedFileId := 12
  now := 0
  scanner := scanner
  provider := provider
  putObject content := if content.canSeek then content.items else content.rest

def cleanDaemon (_ : Bytes) : Text := text "stream: OK"

def sampleFile : FormFile := ⟨[0x68, 0x69, 0x21], text "note.txt", text "text/plain"⟩

def sampleUpload (scanner : FileScanner) (provider : StorageProvider) :
    Except UploadRefusal Uploaded :=
  StorageController.upload (sampleEnvironment scanner provider) (fun _ => none) 7 (some 5)
    sampleFile (text "files") none false

theorem exists_uploaded {answer : Except UploadRefusal Uploaded} (h : answer.isOk = true) :
    ∃ uploaded, answer = .ok uploaded := by
  cases answer with
  | error refusal => cases h
  | ok uploaded => exact ⟨uploaded, rfl⟩

end Wallow.Storage
