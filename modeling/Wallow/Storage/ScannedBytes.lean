import Wallow.Storage.FileHistory

/-!
# The bytes of an available file

A completion scans the object as it finds it and marks the row available some calls later.  The
upload URL stays good until it expires, whatever has become of the row.
-/

namespace Wallow.Storage

open ReadStream Transition

/-- A completion holds a clean verdict on the object of this key. -/
def Job.clears (key : Text) : Job → Bool
  | .scanned file _ isClean => isClean && file.storageKey = key
  | _ => false

namespace FileStore

/-- The file was inserted for a presigned upload. -/
def reserved (s : FileStore) (id : Guid) : Bool :=
  s.inserted.any fun file => file.id = id && file.status = .pendingValidation

/-- While the file of a presigned upload is available, a download serves what the scanner found
clean when it became so. -/
def ServesScanned (s : FileStore) : Prop :=
  ∀ file ∈ s.files, file.status = .available → s.reserved file.id = true →
    ∀ url bytes, url.key = file.storageKey → s.serve url = some bytes →
      s.cleared file.id = some bytes

/-- A `PUT` comes before the scan that clears its file, or writes what is there. -/
def writesBeforeScan (s : FileStore) : FileMove → Bool
  | .put url bytes =>
    s.objects url.key = some bytes ||
      (!(s.files.any fun row => row.storageKey = url.key && row.status = .available) &&
        !s.jobs.any (Job.clears url.key))
  | _ => true

/-- An available file, and a file with a clean verdict, has the object that was scanned. -/
structure Scanned (s : FileStore) : Prop where
  available : ∀ file ∈ s.files, file.status = .available → s.reserved file.id = true →
    ∀ bytes, s.objects file.storageKey = some bytes → s.cleared file.id = some bytes
  verdicts : ∀ file bytes, Job.scanned file bytes true ∈ s.jobs →
    ∀ object, s.objects file.storageKey = some object → object = bytes

variable {config : StorageConfig} {s s' : FileStore} {m : FileMove} {i : Nat} {old new job : Job}

theorem Scanned.serves (h : s.Scanned) : s.ServesScanned := by
  intro file hfile havailable hreserved url bytes hkey hserve
  rw [serve, Option.ite_none_right_eq_some, hkey] at hserve
  exact h.available file hfile havailable hreserved bytes hserve.2

/-! ## The steps -/

/-- No key of a row or of a completion's copy is written. -/
theorem Scanned.write (h : s.Scanned) {key : Text} {object : Option Bytes}
    (hrows : ∀ row ∈ s.files, row.status = .available → row.storageKey ≠ key)
    (hjobs : ∀ file bytes, Job.scanned file bytes true ∈ s.jobs → file.storageKey ≠ key) :
    (s.write key object).Scanned where
  available file hfile havailable hreserved bytes hobject := by
    rw [write_objects_of_ne s (hrows file hfile havailable)] at hobject
    exact h.available file hfile havailable hreserved bytes hobject
  verdicts file bytes hmem object' hobject := by
    rw [write_objects_of_ne s (hjobs file bytes hmem)] at hobject
    exact h.verdicts file bytes hmem object' hobject

/-- An object that is written again or removed tells nothing new. -/
theorem Scanned.shrink (h : s.Scanned) {key : Text} {object : Option Bytes}
    (hsame : ∀ bytes, object = some bytes → s.objects key = some bytes) :
    (s.write key object).Scanned := by
  have hold : ∀ other bytes, (s.write key object).objects other = some bytes →
      s.objects other = some bytes := by
    intro other bytes hobject
    by_cases heq : other = key
    · rw [heq, write_objects_self] at hobject
      exact heq ▸ hsame bytes hobject
    · rwa [write_objects_of_ne s heq] at hobject
  exact ⟨fun file hfile havailable hreserved bytes hobject =>
    h.available file hfile havailable hreserved bytes (hold _ _ hobject),
    fun file bytes hmem object' hobject => h.verdicts file bytes hmem object' (hold _ _ hobject)⟩

/-- A request moves to a stage that is no clean verdict, or to one on the object there is. -/
theorem Scanned.enter (h : s.Scanned) (hi : s.jobs[i]? = some old)
    (hnew : ∀ file bytes, new = .scanned file bytes true →
      s.objects file.storageKey = some bytes) : (s.enter i new).Scanned where
  available := h.available
  verdicts file bytes hmem object hobject := by
    cases mem_enter hi hmem with
    | inl heq =>
      have hbytes := hnew file bytes heq.symm
      have hobject' : s.objects file.storageKey = some object := hobject
      rw [hbytes, Option.some.injEq] at hobject'
      exact hobject'.symm
    | inr hother => exact h.verdicts file bytes (List.mem_of_mem_eraseIdx hother) object hobject

theorem Scanned.start (h : s.Scanned)
    (hjob : ∀ file bytes isClean, job ≠ .scanned file bytes isClean) :
    (s.start job).Scanned where
  available := h.available
  verdicts file bytes hmem := by
    cases List.mem_append.mp hmem with
    | inl hold => exact h.verdicts file bytes hold
    | inr hnew => exact absurd (List.mem_singleton.mp hnew).symm (hjob file bytes true)

/-- The object of a direct upload is written under a key of its own. -/
theorem Scanned.stored (h : s.Scanned) (hkept : s.Kept) {file : StoredFile}
    {content : Stream UInt8} (hi : s.jobs[i]? = some (.uploading file content))
    (object : Option Bytes) :
    ((s.write file.storageKey object).enter i (.inserting file)).Scanned := by
  have hother : ∀ other ∈ s.inserted, other.storageKey ≠ file.storageKey := fun other hmem =>
    hkept.key_ne hi rfl (mem_others_of_inserted hmem)
  refine Scanned.enter (h.write ?_ ?_) hi fun _ _ heq => by cases heq
  · intro row hrow _
    obtain ⟨known, hknown, hsame⟩ := hkept.rows row hrow
    exact hsame.2.1 ▸ hother known hknown
  · intro copy bytes hmem
    obtain ⟨known, hknown, hsame⟩ := hkept.copies _ hmem copy rfl
    exact hsame.2.1 ▸ hother known hknown

/-- A row comes in; were it available, it was not reserved. -/
theorem Scanned.inserted (h : s.Scanned) (hkept : s.Kept) {file row : StoredFile}
    (hi : s.jobs[i]? = some old) (hjobs : Insertion file old new) (hsame : SameFile file row) :
    ((s.insert row).enter i new).Scanned := by
  have hkept' := hkept.inserted hi hjobs hsame
  have hrow : row ∈ (s.insert row).inserted := List.mem_append_right _ (List.mem_singleton_self _)
  have hinsert : (s.insert row).Scanned := by
    refine ⟨fun other hother havailable hreserved => ?_, h.verdicts⟩
    -- the reservation is an old one, or the row that comes in
    obtain ⟨first, hfirst, hpending⟩ := List.any_eq_true.mp hreserved
    rw [Bool.and_eq_true, decide_eq_true_eq, decide_eq_true_eq] at hpending
    cases List.mem_append.mp hother with
    | inl hold =>
      apply h.available other hold havailable
      cases List.mem_append.mp hfirst with
      | inl hinserted =>
        exact List.any_eq_true.mpr ⟨first, hinserted, by simp [hpending.1, hpending.2]⟩
      | inr hnew =>
        -- the id of the new row is nobody else's
        rw [List.mem_singleton] at hnew
        obtain ⟨known, hknown, hsame'⟩ := hkept.rows other hold
        have hid : known.id ≠ file.id :=
          hkept.id_ne hi (Insertion.pending hjobs).1 (mem_others_of_inserted hknown)
        rw [hsame'.1, ← hpending.1, hnew, hsame.1] at hid
        exact absurd rfl hid
    | inr hnew =>
      rw [List.mem_singleton] at hnew
      have heq : first = row :=
        hkept'.inserted_unique hfirst hrow (hpending.1.trans (congrArg _ hnew))
      rw [hnew, ← heq, hpending.2] at havailable
      cases havailable
  refine hinsert.enter hi fun copy bytes heq => ?_
  cases hjobs <;> cases heq

/-- A clean verdict finds the object it was given on. -/
theorem Scanned.saved (h : s.Scanned) (hkept : s.Kept) {file : StoredFile} {bytes : Bytes}
    {isClean : Bool} (hi : s.jobs[i]? = some (.scanned file bytes isClean)) :
    ((s.save file bytes isClean).enter i .finished).Scanned := by
  have hmem := List.mem_of_getElem? hi
  refine Scanned.enter (s := s.save file bytes isClean) ⟨?_, h.verdicts⟩ hi
    fun _ _ heq => by cases heq
  intro row' hrow' havailable hreserved object hobject
  obtain ⟨row, hrow, rfl⟩ := List.mem_map.mp hrow'
  by_cases hid : row.id = file.id
  · rw [if_pos hid] at havailable hreserved hobject ⊢
    cases isClean with
    | false => cases havailable
    | true =>
      -- the verdict is on the object of this very row
      have hkey : row.storageKey = file.storageKey :=
        hkept.row_key hrow (hkept.copies _ hmem file rfl) hid
      have hbytes : object = bytes := h.verdicts file bytes hmem object (hkey ▸ hobject)
      show Function.update s.cleared file.id (some bytes) row.id = some object
      rw [hid, Function.update_self, hbytes]
  · rw [if_neg hid] at havailable hreserved hobject ⊢
    have hcleared : s.cleared row.id = some object :=
      h.available row hrow havailable hreserved object hobject
    cases isClean with
    | false => exact hcleared
    | true =>
      show Function.update s.cleared file.id (some bytes) row.id = some object
      rw [Function.update_of_ne hid, hcleared]

theorem Scanned.put (h : s.Scanned) {url : SignedUrl} {bytes : Bytes}
    (hbefore : s.writesBeforeScan (.put url bytes) = true) :
    (s.write url.key (some bytes)).Scanned := by
  rw [writesBeforeScan, Bool.or_eq_true, Bool.and_eq_true, Bool.not_eq_true', Bool.not_eq_true',
    decide_eq_true_eq] at hbefore
  cases hbefore with
  -- the bytes are there already
  | inl hsame => exact h.shrink fun _ heq => heq ▸ hsame
  -- no available row and no clean verdict is about this key
  | inr hfree =>
    apply h.write
    · intro row hrow havailable hkey
      have hnone := List.any_eq_false.mp hfree.1 row hrow
      rw [hkey, havailable] at hnone
      exact hnone (by simp)
    · intro file object hmem hkey
      have hnone := List.any_eq_false.mp hfree.2 _ hmem
      rw [Job.clears, hkey] at hnone
      exact hnone (by simp)

/-! ## Runs -/

theorem step_scanned (h : s.Scanned) (hkept : s.Kept) (hbefore : s.writesBeforeScan m = true)
    (hs : step config s m = some s') : s'.Scanned := by
  cases effect_of_step hs with
  | quiet => exact ⟨h.available, h.verdicts⟩
  | admitted m fileId file job _ _ _ _ _ _ _ hjob =>
    refine Scanned.start (s := s.draw fileId file.id) ⟨h.available, h.verdicts⟩ ?_
    cases hjob <;> exact fun _ _ _ heq => by cases heq
  | completing m file hfile => exact h.start fun _ _ _ heq => by cases heq
  | stored m i file content hi => exact h.stored hkept hi _
  | inserted m i file row old new hi hjobs hsame hstatus => exact h.inserted hkept hi hjobs hsame
  | signed m i url expiry hi =>
    exact Scanned.enter (s := { s with uploadUrls := s.uploadUrls ++ [url] })
      ⟨h.available, h.verdicts⟩ hi fun _ _ heq => by cases heq
  | advanced m i old new hi hjobs =>
    refine h.enter hi fun file bytes heq => ?_
    cases hjobs with
    | finish => cases heq
    | exists_ => cases heq
    | scan file bytes isClean hobject =>
      cases heq
      exact hobject
  | saved m i file bytes isClean hi => exact h.saved hkept hi
  | put url bytes hurl => exact h.put hbefore
  | deleted m ids =>
    exact ⟨fun file hfile => h.available file (List.mem_filter.mp hfile).1, h.verdicts⟩
  | objectDeleted m key doomed =>
    have hwrite : (s.write key none).Scanned := h.shrink fun _ heq => by cases heq
    exact ⟨hwrite.available, hwrite.verdicts⟩

theorem initial_scanned (now : Instant) : (initial now).Scanned where
  available file hfile := by cases hfile
  verdicts file bytes hmem := by cases hmem

def sampleConfig : StorageConfig where
  unicode := ⟨id, id, fun _ => false⟩
  invalidFileNameChars := [0, SLASH]
  tenantId := 7
  limits := ⟨4, 5, none⟩
  scanner := .clamAv cleanDaemon
  provider := .s3
  putObject content := if content.canSeek then content.items else content.rest
  maxUploadExpiry := GetUploadPresignedUrlHandler.DEFAULT_EXPIRY
  maxDownloadExpiry := GetPresignedUrlHandler.DEFAULT_EXPIRY

def sampleQuery (sizeBytes : Int) : GetUploadPresignedUrlQuery :=
  ⟨5, text "files", text "a.txt", text "text/plain", sizeBytes, none, none⟩

def sampleKey (fileId : Guid) : Text :=
  buildStorageKey 7 (text "files") none fileId (text ".txt")

def sampleUrl (fileId : Guid) : SignedUrl := ⟨sampleKey fileId, 900⟩

/-- A reservation up to its URL. -/
def reservation (i : Nat) (fileId storedFileId : Guid) (sizeBytes : Int) : List FileMove :=
  [.reserve fileId storedFileId (some ⟨1, 0, none⟩) (sampleQuery sizeBytes), .act i, .act i]

def completion (i : Nat) (id : Guid) : List FileMove :=
  [.complete id, .act i, .act i, .act i]

/-- One `PUT`, the completion, and a download URL. -/
def completedUpload : List FileMove :=
  reservation 0 11 12 2 ++ [.put (sampleUrl 11) [0x68, 0x69]] ++ completion 1 12 ++
    [.presign 12 none]

/-- A download of an available reserved file would serve these bytes. -/
def servesFile (s : FileStore) (bytes : Bytes) : Bool :=
  s.files.any fun file => file.status = .available && s.reserved file.id &&
    s.downloadUrls.any fun url => url.key = file.storageKey && s.serve url = some bytes

/-- The URL is used once more after the completion. -/
def overwrittenUpload : List FileMove :=
  completedUpload ++ [.put (sampleUrl 11) [0x58]]

end FileStore

end Wallow.Storage
