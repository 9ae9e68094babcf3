import Wallow.Storage.FileStore
import Wallow.Storage.SanitizedNames

/-!
# The name at both ways in

A direct upload sanitizes the file name before it takes the extension and records the result; a
presigned one takes the extension of the name as it came and records that name.  Everything else
they check is the same.
-/

namespace Wallow.Storage

open FileNameSanitizer

/-- The ground of a refusal. -/
def refusal {α : Type} : Except Error α → Option Identity.ErrorCatalogEntry
  | .ok _ => none
  | .error error => some error.entry

namespace StorageBucket

/-- The bucket is there and lets the type and the size in, and so does the upload limit. -/
def letsIn (unicode : UnicodeTables) (bucket : Option StorageBucket) (limits : StorageLimits)
    (contentType : Text) (sizeBytes : Int) : Prop :=
  ∃ found, bucket = some found ∧ found.isContentTypeAllowed unicode contentType = true ∧
    found.isFileSizeAllowed sizeBytes = true ∧ sizeBytes ≤ limits.maxUploadSizeBytes

end StorageBucket

section Checks

variable {unicode : UnicodeTables} {bucket : Option StorageBucket} {limits : StorageLimits}
  {usedBytes sizeBytes : Int} {bucketName contentType : Text}

/-- Past the bucket and the sizes, the extension is looked at, and then the quota. -/
theorem checkUpload_of_letsIn {found : StorageBucket} (extension : Text)
    (hfound : bucket = some found)
    (htype : found.isContentTypeAllowed unicode contentType = true)
    (hsize : found.isFileSizeAllowed sizeBytes = true)
    (hlimit : sizeBytes ≤ limits.maxUploadSizeBytes) :
    (checkUpload unicode bucket limits usedBytes bucketName contentType extension
      sizeBytes = .ok found ↔ limits.isExtensionAllowed unicode extension = true ∧
        usedBytes + sizeBytes ≤ limits.quotaBytes) ∧
    refusal (checkUpload unicode bucket limits usedBytes bucketName contentType extension
      sizeBytes) =
        if limits.isExtensionAllowed unicode extension = false then
          some StorageErrors.fileExtensionNotAllowed
        else if usedBytes + sizeBytes > limits.quotaBytes then some StorageErrors.quotaExceeded
        else none := by
  subst hfound
  unfold checkUpload
  simp only [htype, hsize, Bool.not_true, Bool.false_eq_true, if_false, if_neg (not_lt.mpr hlimit)]
  cases limits.isExtensionAllowed unicode extension with
  | false => simp [refusal]
  | true =>
    by_cases hquota : usedBytes + sizeBytes > limits.quotaBytes
    · simp only [Bool.not_true, Bool.false_eq_true, if_false, if_pos hquota]
      simp [refusal, hquota]
    · simp only [Bool.not_true, Bool.false_eq_true, if_false, if_neg hquota]
      simp [refusal]
      omega

/-- Otherwise it is not looked at. -/
theorem checkUpload_of_not_letsIn (extension other : Text)
    (h : ¬StorageBucket.letsIn unicode bucket limits contentType sizeBytes) :
    checkUpload unicode bucket limits usedBytes bucketName contentType extension sizeBytes =
      checkUpload unicode bucket limits usedBytes bucketName contentType other sizeBytes ∧
    ∀ found, checkUpload unicode bucket limits usedBytes bucketName contentType extension
      sizeBytes ≠ .ok found := by
  unfold checkUpload
  cases bucket with
  | none => exact ⟨rfl, fun _ h => nomatch h⟩
  | some found =>
    dsimp only
    cases htype : found.isContentTypeAllowed unicode contentType with
    | false => exact ⟨rfl, fun _ h => nomatch h⟩
    | true =>
      cases hsize : found.isFileSizeAllowed sizeBytes with
      | false => exact ⟨rfl, fun _ h => nomatch h⟩
      | true =>
        have hlimit : sizeBytes > limits.maxUploadSizeBytes :=
          not_le.mp fun hle => h ⟨found, rfl, htype, hsize, hle⟩
        simp only [Bool.not_true, Bool.false_eq_true, if_false, if_pos hlimit]
        exact ⟨trivial, fun _ h => nomatch h⟩

end Checks

/-! ## One request, both ways -/

section Ways

variable (config : StorageConfig) (s : FileStore) (found : Option StorageBucket)
  (command : UploadFileCommand)

/-- The same request for an upload by URL. -/
def UploadFileCommand.query (expiry : Option Int) : GetUploadPresignedUrlQuery :=
  ⟨command.userId, command.bucketName, command.fileName, command.contentType, command.sizeBytes,
    command.path, expiry⟩

/-- Both ways refuse the request on the same ground, or admit it and record one name. -/
structure AdmittedAlike (fileId storedFileId : Guid) (expiry : Option Int) : Prop where
  refusal : refusal (UploadFileHandler.check (s.environment config fileId storedFileId found)
      command) =
    refusal (GetUploadPresignedUrlHandler.check config found s.usedBytes (command.query expiry))
  fileName : ∀ bucket,
    UploadFileHandler.check (s.environment config fileId storedFileId found) command =
      .ok bucket →
    GetUploadPresignedUrlHandler.check config found s.usedBytes (command.query expiry) =
      .ok bucket →
    (UploadFileHandler.fileOf (s.environment config fileId storedFileId found) command
      bucket).fileName =
      (GetUploadPresignedUrlHandler.fileOf config bucket fileId storedFileId s.now
        (command.query expiry)).fileName

/-- What comes after the earlier checks does not depend on how the name is spelled. -/
structure SpelledPlainly : Prop where
  extension : config.limits.isExtensionAllowed config.unicode
      (getExtension (sanitize config.invalidFileNameChars command.fileName)) =
    config.limits.isExtensionAllowed config.unicode (getExtension command.fileName)
  fileName : config.limits.isExtensionAllowed config.unicode (getExtension command.fileName) =
      true → s.usedBytes + command.sizeBytes ≤ config.limits.quotaBytes →
    Plain config.invalidFileNameChars command.fileName

variable {config s found command}

/-- The two grounds that are left tell the answers of the last two checks apart. -/
theorem allowed_eq_of_refusal_eq {allowed allowed' exceeded : Bool}
    (h : (if allowed = false then some StorageErrors.fileExtensionNotAllowed
        else if exceeded then some StorageErrors.quotaExceeded else none) =
      (if allowed' = false then some StorageErrors.fileExtensionNotAllowed
        else if exceeded then some StorageErrors.quotaExceeded else none)) :
    allowed = allowed' := by
  revert h
  cases allowed <;> cases allowed' <;> cases exceeded <;> decide

/-- Where the bucket and the sizes are in order, the two ways agree exactly when the extension is
allowed before sanitizing if it is after it, and a name that is admitted needs no sanitizing. -/
theorem admittedAlike_iff (config : StorageConfig) (s : FileStore) (found : Option StorageBucket)
    (command : UploadFileCommand) (fileId storedFileId : Guid) (expiry : Option Int) :
    AdmittedAlike config s found command fileId storedFileId expiry ↔
      (StorageBucket.letsIn config.unicode found config.limits command.contentType
        command.sizeBytes → SpelledPlainly config s command) := by
  by_cases hin : StorageBucket.letsIn config.unicode found config.limits command.contentType
      command.sizeBytes
  · have ⟨bucket, hfound, htype, hsize, hlimit⟩ := hin
    have hdirect := @checkUpload_of_letsIn config.unicode found config.limits s.usedBytes
      command.sizeBytes command.bucketName command.contentType bucket
      (getExtension (sanitize config.invalidFileNameChars command.fileName)) hfound htype hsize
      hlimit
    have hpresigned := @checkUpload_of_letsIn config.unicode found config.limits s.usedBytes
      command.sizeBytes command.bucketName command.contentType bucket
      (getExtension command.fileName) hfound htype hsize hlimit
    constructor
    · intro halike _
      have hrefusals := hdirect.2.symm.trans (halike.refusal.trans hpresigned.2)
      have hextension := @allowed_eq_of_refusal_eq _ _
        (decide (s.usedBytes + command.sizeBytes > config.limits.quotaBytes))
        (by simpa only [decide_eq_true_eq] using hrefusals)
      refine ⟨hextension, fun hallowed hquota => sanitize_eq_self_iff.mp ?_⟩
      exact halike.fileName bucket (hdirect.1.mpr ⟨hextension.trans hallowed, hquota⟩)
        (hpresigned.1.mpr ⟨hallowed, hquota⟩)
    · intro hplain
      have hspelled := hplain hin
      refine ⟨?_, fun other _ hother => ?_⟩
      · refine hdirect.2.trans ?_
        rw [hspelled.extension]
        exact hpresigned.2.symm
      · have hbucket : other = bucket := by
          have := (checkUpload_ok hother).1
          exact Option.some.inj (this.symm.trans hfound)
        have hadmitted := hpresigned.1.mp (hbucket ▸ hother)
        exact sanitize_eq_self_iff.mpr (hspelled.fileName hadmitted.1 hadmitted.2)
  · have hsame := @checkUpload_of_not_letsIn config.unicode found config.limits s.usedBytes
      command.sizeBytes command.bucketName command.contentType
      (getExtension (sanitize config.invalidFileNameChars command.fileName))
      (getExtension command.fileName) hin
    refine iff_of_true ⟨congrArg refusal hsame.1, fun bucket h => ?_⟩ fun h => absurd h hin
    exact absurd h (hsame.2 bucket)

def semicolonConfig : StorageConfig where
  unicode := ⟨id, ClamAvFileScanner.upper, fun c => 0x61 ≤ c && c ≤ 0x7A⟩
  invalidFileNameChars := [0, SLASH]
  tenantId := 7
  limits := ⟨1000, 5000, some [text "TXT"]⟩
  scanner := .noOp
  provider := .local_
  putObject content := content.items
  maxUploadExpiry := 60 * 60 * TICKS_PER_SECOND
  maxDownloadExpiry := 60 * 60 * TICKS_PER_SECOND

/-- A file whose name carries a semicolon. -/
def semicolonCommand : UploadFileCommand :=
  ⟨7, 5, text "files", text "a;b.txt", text "text/plain", ReadStream.Stream.opened [0x68, 0x69],
    2, none, false, none⟩

/-- Both ways take it; the presigned one records the semicolon. -/
theorem presigned_records_the_semicolon :
    (UploadFileValidator.validate semicolonConfig.unicode semicolonCommand).1 = [] ∧
    GetUploadPresignedUrlValidator.validate semicolonConfig.unicode semicolonConfig.tenantId
      (semicolonCommand.query none) = [] ∧
    ¬AdmittedAlike semicolonConfig (FileStore.initial 0) (some ⟨1, 0, none⟩) semicolonCommand
      11 12 none := by
  refine ⟨by decide +kernel, by decide +kernel, fun h => ?_⟩
  have hdirect : UploadFileHandler.check ((FileStore.initial 0).environment semicolonConfig 11 12
      (some ⟨1, 0, none⟩)) semicolonCommand = .ok ⟨1, 0, none⟩ :=
    (checkUpload_of_letsIn _ rfl rfl rfl (by decide)).1.mpr ⟨by decide +kernel, by decide⟩
  have hpresigned : GetUploadPresignedUrlHandler.check semicolonConfig (some ⟨1, 0, none⟩)
      (FileStore.initial 0).usedBytes (semicolonCommand.query none) = .ok ⟨1, 0, none⟩ :=
    (checkUpload_of_letsIn _ rfl rfl rfl (by decide)).1.mpr ⟨by decide +kernel, by decide⟩
  exact absurd (h.fileName _ hdirect hpresigned) (by decide +kernel)

end Ways

end Wallow.Storage
