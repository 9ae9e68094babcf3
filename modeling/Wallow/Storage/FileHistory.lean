import Wallow.Storage.FileStore
import Mathlib.Data.List.Nodup

/-!
# What a step does to the files

Every step is one of a dozen effects.  Through all of them ids and storage keys stay apart: an
object is written under the key of one upload only, and a row is the row it was inserted as, but for
its status.
-/

namespace Wallow.Storage

open ReadStream Transition

/-- Two states of one file. -/
def SameFile (a b : StoredFile) : Prop :=
  a.id = b.id ∧ a.storageKey = b.storageKey ∧ a.sizeBytes = b.sizeBytes

/-- The size that a request for an upload declares. -/
def FileMove.declared : FileMove → Option Int
  | .upload _ _ _ file _ _ _ _ _ => some file.content.length
  | .reserve _ _ _ query => some query.sizeBytes
  | _ => none

/-- What a request is admitted with: a direct upload has its bytes, a reservation none. -/
inductive Admission (file : StoredFile) : Job → Prop
  | direct (content : Stream UInt8) (hseek : content.canSeek = true)
      (hlength : file.sizeBytes = content.items.length) (hstatus : file.status = .available) :
      Admission file (.uploading file content)
  | presigned (expiry : Option Int) (hstatus : file.status = .pendingValidation) :
      Admission file (.reserving file expiry)

/-- The insertion of an admitted file and what its request does next. -/
inductive Insertion (file : StoredFile) : Job → Job → Prop
  | direct : Insertion file (.inserting file) .finished
  | presigned (expiry : Option Int) :
      Insertion file (.reserving file expiry) (.signing file.storageKey expiry)

/-- A step of a request that changes nothing but the request. -/
inductive Advance (s : FileStore) : Job → Job → Prop
  | finish (old : Job) : Advance s old .finished
  | exists_ (file : StoredFile) : Advance s (.completing file) (.found file)
  | scan (file : StoredFile) (bytes : Bytes) (isClean : Bool)
      (hobject : s.objects file.storageKey = some bytes) :
      Advance s (.found file) (.scanned file bytes isClean)

namespace FileStore

inductive Effect (config : StorageConfig) (s : FileStore) : FileMove → FileStore → Prop
  | quiet (m : FileMove) (downloadUrls : List SignedUrl) (doomed : List Text) (now : Instant) :
      Effect config s m { s with downloadUrls := downloadUrls, doomed := doomed, now := now }
  | admitted (m : FileMove) (fileId : Guid) (file : StoredFile) (job : Job)
      (hfile : s.fresh fileId = true) (hid : s.fresh file.id = true)
      (hkey : IsKeyOf fileId file.storageKey) (hdeclared : m.declared = some file.sizeBytes)
      (hpos : 0 < file.sizeBytes) (hlimit : file.sizeBytes ≤ config.limits.maxUploadSizeBytes)
      (hquota : s.usedBytes + file.sizeBytes ≤ config.limits.quotaBytes)
      (hjob : Admission file job) : Effect config s m ((s.draw fileId file.id).start job)
  | completing (m : FileMove) (file : StoredFile) (hfile : file ∈ s.files) :
      Effect config s m (s.start (.completing file))
  | stored (m : FileMove) (i : Nat) (file : StoredFile) (content : Stream UInt8)
      (hi : s.jobs[i]? = some (.uploading file content)) :
      Effect config s m ((s.write file.storageKey (some (config.provider.upload config.putObject
        (config.scanner.scan content).content))).enter i (.inserting file))
  | inserted (m : FileMove) (i : Nat) (file row : StoredFile) (old new : Job)
      (hi : s.jobs[i]? = some old) (hjobs : Insertion file old new) (hsame : SameFile file row)
      (hstatus : row.status = file.status) :
      Effect config s m ((s.insert row).enter i new)
  | signed (m : FileMove) (i : Nat) (url : SignedUrl) (expiry : Option Int)
      (hi : s.jobs[i]? = some (.signing url.key expiry)) :
      Effect config s m ({ s with uploadUrls := s.uploadUrls ++ [url] }.enter i .finished)
  | advanced (m : FileMove) (i : Nat) (old new : Job) (hi : s.jobs[i]? = some old)
      (hjobs : Advance s old new) : Effect config s m (s.enter i new)
  | saved (m : FileMove) (i : Nat) (file : StoredFile) (bytes : Bytes) (isClean : Bool)
      (hi : s.jobs[i]? = some (.scanned file bytes isClean)) :
      Effect config s m ((s.save file bytes isClean).enter i .finished)
  | put (url : SignedUrl) (bytes : Bytes) (hurl : url ∈ s.uploadUrls) :
      Effect config s (.put url bytes) (s.write url.key (some bytes))
  | deleted (m : FileMove) (ids : List Guid) : Effect config s m (s.delete ids)
  | objectDeleted (m : FileMove) (key : Text) (doomed : List Text) :
      Effect config s m { s.write key none with doomed := doomed }

variable {config : StorageConfig} {s s' : FileStore} {m : FileMove} {i : Nat} {old new job : Job}

theorem Effect.same (config : StorageConfig) (s : FileStore) (m : FileMove) :
    Effect config s m s :=
  .quiet m s.downloadUrls s.doomed s.now

theorem effect_of_upload {fileId storedFileId : Guid} {userId : Option Guid} {file : FormFile}
    {bucketName : Text} {found : Option StorageBucket} {path : Option Text} {isPublic : Bool}
    {position : Nat} (hfile : s.fresh fileId = true) (hid : s.fresh storedFileId = true) :
    Effect config s
      (.upload fileId storedFileId userId file bucketName found path isPublic position)
      (s.upload config fileId storedFileId userId file bucketName found path isPublic
        position) := by
  unfold upload
  split
  · exact .same config s _
  · rename_i command hreceived
    obtain ⟨hpos, user, rfl⟩ := received_ok hreceived
    dsimp only
    split
    · exact .same config s _
    · rename_i bucket hcheck
      have hchecked := checkUpload_ok hcheck
      let stored := UploadFileHandler.fileOf (s.environment config fileId storedFileId found)
        (StorageController.commandOf config.tenantId user file bucketName path isPublic position)
        bucket
      have hkey : IsKeyOf fileId stored.storageKey :=
        isKeyOf_buildStorageKey config.tenantId bucketName path fileId
          (FileNameSanitizer.sanitize config.invalidFileNameChars file.fileName)
      exact .admitted _ fileId stored _ hfile hid hkey rfl (Int.natCast_pos.mpr hpos)
        hchecked.2.1 hchecked.2.2 (.direct _ rfl rfl rfl)

theorem effect_of_reserve {fileId storedFileId : Guid} {found : Option StorageBucket}
    {query : GetUploadPresignedUrlQuery} (hfile : s.fresh fileId = true)
    (hid : s.fresh storedFileId = true) :
    Effect config s (.reserve fileId storedFileId found query)
      (s.reserve config fileId storedFileId found query) := by
  unfold reserve
  split
  · rename_i hvalid
    split
    · exact .same config s _
    · rename_i bucket hcheck
      have hchecked := checkUpload_ok hcheck
      -- the validator's rule on the size would have failed
      have hpos : 0 < query.sizeBytes := by
        by_contra hsize
        have hrule : "File size must be greater than 0" ∈
            GetUploadPresignedUrlValidator.validate config.unicode config.tenantId query := by
          simp [GetUploadPresignedUrlValidator.validate, hsize]
        rw [hvalid] at hrule
        cases hrule
      let stored :=
        GetUploadPresignedUrlHandler.fileOf config bucket fileId storedFileId s.now query
      have hkey : IsKeyOf fileId stored.storageKey :=
        isKeyOf_buildStorageKey config.tenantId query.bucketName query.path fileId query.fileName
      exact .admitted _ fileId stored _ hfile hid hkey rfl hpos hchecked.2.1 hchecked.2.2
        (.presigned query.expiry rfl)
  · exact .same config s _

theorem effect_of_complete (config : StorageConfig) (s : FileStore) (m : FileMove) (id : Guid) :
    Effect config s m (s.complete id) := by
  unfold complete
  split
  · exact .same config s m
  · rename_i file hfile
    split
    · exact .completing m file (List.mem_of_find?_eq_some hfile)
    · exact .same config s m

theorem effect_of_presign (config : StorageConfig) (s : FileStore) (m : FileMove) (id : Guid)
    (expiry : Option Int) : Effect config s m (s.presign config id expiry) := by
  unfold presign
  split
  · exact .same config s m
  · split
    · exact .quiet m _ s.doomed s.now
    · exact .same config s m

theorem effect_of_act (m : FileMove) (hi : s.jobs[i]? = some old)
    (hs : s.act config i old = some s') : Effect config s m s' := by
  have hfinished : Effect config s m (s.enter i .finished) := .advanced m i old _ hi (.finish old)
  cases old with
  | uploading file content =>
    cases hs
    split
    · exact .stored m i file content hi
    · exact hfinished
  | inserting file =>
    cases hs
    split
    · exact .inserted m i file _ _ _ hi .direct ⟨rfl, rfl, rfl⟩ rfl
    · exact hfinished
  | reserving file expiry =>
    cases hs
    split
    · exact .inserted m i file file _ _ hi (.presigned expiry) ⟨rfl, rfl, rfl⟩ rfl
    · exact hfinished
  | signing key expiry =>
    cases hs
    exact .signed m i (s.sign key expiry _ _) expiry hi
  | completing file =>
    cases hs
    split
    · exact .advanced m i _ _ hi (.exists_ file)
    · exact hfinished
  | found file =>
    rw [act] at hs
    split at hs
    · cases hs
      exact hfinished
    · rename_i bytes hobject
      cases hs
      exact .advanced m i _ _ hi (.scan file bytes _ hobject)
  | scanned file bytes isClean =>
    cases hs
    split
    · exact .saved m i file bytes isClean hi
    · exact hfinished
  | finished => cases hs

/-- Every step has one of the effects. -/
theorem effect_of_step (hs : step config s m = some s') : Effect config s m s' := by
  cases m with
  | upload fileId storedFileId userId file bucketName found path isPublic position =>
    rw [step, Option.ite_none_right_eq_some, Bool.and_eq_true] at hs
    cases hs.2
    exact effect_of_upload hs.1.1 hs.1.2
  | reserve fileId storedFileId found query =>
    rw [step, Option.ite_none_right_eq_some, Bool.and_eq_true] at hs
    cases hs.2
    exact effect_of_reserve hs.1.1 hs.1.2
  | put url bytes =>
    rw [step, FileStore.put, Option.ite_none_right_eq_some] at hs
    cases hs.2
    exact .put url bytes hs.1.1
  | complete id =>
    cases hs
    exact effect_of_complete config s _ id
  | presign id expiry =>
    cases hs
    exact effect_of_presign config s _ id expiry
  | delete ids =>
    cases hs
    exact .deleted _ ids
  | deleteObject j =>
    obtain ⟨key, -, rfl⟩ := Option.map_eq_some_iff.mp hs
    exact .objectDeleted _ key _
  | failDelete j =>
    cases hs
    exact .quiet _ s.downloadUrls _ s.now
  | act i =>
    obtain ⟨old, hi, hact⟩ := Option.bind_eq_some_iff.mp hs
    exact effect_of_act _ hi hact
  | fail i =>
    obtain ⟨old, hi, rfl⟩ := Option.map_eq_some_iff.mp hs
    exact .advanced _ i old _ hi (.finish old)
  | tick ticks =>
    cases hs
    exact .quiet _ s.downloadUrls s.doomed _

/-! ## Ids and keys stay apart -/

/-- The files inserted and those about to be. -/
def known (s : FileStore) : List StoredFile :=
  s.inserted ++ s.jobs.filterMap Job.pending

/-- The key was built for a Guid drawn. -/
def Drawn (drawn : List Guid) (key : Text) : Prop :=
  ∃ id ∈ drawn, IsKeyOf id key

/-- What one request stands aside for: the files inserted and those of the other requests. -/
def others (s : FileStore) (i : Nat) : List StoredFile :=
  s.inserted ++ (s.jobs.eraseIdx i).filterMap Job.pending

def tag (file : StoredFile) : Guid × Text :=
  (file.id, file.storageKey)

/-- Ids and keys are drawn and differ. -/
structure Apart (drawn : List Guid) (files : List StoredFile) : Prop where
  ids : (files.map fun file => (tag file).1).Nodup
  keys : (files.map fun file => (tag file).2).Nodup
  drawn : ∀ file ∈ files, file.id ∈ drawn ∧ Drawn drawn file.storageKey

structure Kept (s : FileStore) : Prop where
  apart : Apart s.drawn s.known
  small : ∀ id ∈ s.drawn, id < 2 ^ 128
  objects : ∀ key, (s.objects key).isSome = true → Drawn s.drawn key
  rows : ∀ row ∈ s.files, ∃ file ∈ s.inserted, SameFile file row
  urls : ∀ url ∈ s.uploadUrls, ∃ file ∈ s.inserted, file.storageKey = url.key
  signing : ∀ key expiry, Job.signing key expiry ∈ s.jobs →
    ∃ file ∈ s.inserted, file.storageKey = key
  copies : ∀ job ∈ s.jobs, ∀ file, job.copy = some file → ∃ row ∈ s.inserted, SameFile row file

theorem Apart.perm {drawn : List Guid} {files files' : List StoredFile} (h : Apart drawn files)
    (hperm : files.Perm files') : Apart drawn files' where
  ids := (hperm.map _).nodup_iff.mp h.ids
  keys := (hperm.map _).nodup_iff.mp h.keys
  drawn file hmem := h.drawn file (hperm.mem_iff.mpr hmem)

theorem Apart.sublist {drawn : List Guid} {files files' : List StoredFile}
    (h : Apart drawn files) (hsub : files'.Sublist files) : Apart drawn files' where
  ids := (hsub.map _).nodup h.ids
  keys := (hsub.map _).nodup h.keys
  drawn file hmem := h.drawn file (hsub.subset hmem)

/-- What a request does with its own file leaves the others aside. -/
theorem known_perm (hi : s.jobs[i]? = some old) :
    s.known.Perm (old.pending.toList ++ s.others i) := by
  obtain ⟨hlt, hget⟩ := List.getElem?_eq_some_iff.mp hi
  -- the request that moves is taken to the front
  have hjobs : s.jobs.Perm (old :: s.jobs.eraseIdx i) := by
    rw [← hget]
    exact (List.getElem_cons_eraseIdx_perm hlt).symm
  have hfiles : (s.jobs.filterMap Job.pending).Perm
      (old.pending.toList ++ (s.jobs.eraseIdx i).filterMap Job.pending) := by
    refine (hjobs.filterMap Job.pending).trans ?_
    rw [List.filterMap_cons]
    cases old.pending <;> exact List.Perm.refl _
  exact (hfiles.append_left s.inserted).trans (List.perm_append_comm_assoc _ _ _)

theorem known_enter_perm (hi : s.jobs[i]? = some old) (new : Job) :
    (s.enter i new).known.Perm (new.pending.toList ++ s.others i) := by
  obtain ⟨hlt, -⟩ := List.getElem?_eq_some_iff.mp hi
  have hjobs : (s.jobs.set i new).Perm (new :: s.jobs.eraseIdx i) :=
    List.set_perm_cons_eraseIdx hlt new
  have hfiles : ((s.jobs.set i new).filterMap Job.pending).Perm
      (new.pending.toList ++ (s.jobs.eraseIdx i).filterMap Job.pending) := by
    refine (hjobs.filterMap Job.pending).trans ?_
    rw [List.filterMap_cons]
    cases new.pending <;> exact List.Perm.refl _
  exact (hfiles.append_left s.inserted).trans (List.perm_append_comm_assoc _ _ _)

/-- A request other than the one that moved stands as it did. -/
theorem mem_enter (hi : s.jobs[i]? = some old) {new : Job} (h : job ∈ (s.enter i new).jobs) :
    job = new ∨ job ∈ s.jobs.eraseIdx i := by
  obtain ⟨hlt, -⟩ := List.getElem?_eq_some_iff.mp hi
  have hperm : (s.jobs.set i new).Perm (new :: s.jobs.eraseIdx i) :=
    List.set_perm_cons_eraseIdx hlt new
  exact List.mem_cons.mp (hperm.mem_iff.mp h)

theorem Kept.apart_others (h : s.Kept) (hi : s.jobs[i]? = some old) :
    Apart s.drawn (old.pending.toList ++ s.others i) :=
  h.apart.perm (known_perm hi)

/-- The key of a file that is not inserted yet is nobody else's. -/
theorem Kept.key_ne (h : s.Kept) (hi : s.jobs[i]? = some old) {file other : StoredFile}
    (hpending : old.pending = some file) (hother : other ∈ s.others i) :
    other.storageKey ≠ file.storageKey := by
  have hapart := (h.apart_others hi).keys
  rw [hpending, Option.toList_some, List.singleton_append, List.map_cons, List.nodup_cons] at hapart
  intro heq
  exact hapart.1 (List.mem_map.mpr ⟨other, hother, heq⟩)

/-- Nor is its id. -/
theorem Kept.id_ne (h : s.Kept) (hi : s.jobs[i]? = some old) {file other : StoredFile}
    (hpending : old.pending = some file) (hother : other ∈ s.others i) : other.id ≠ file.id := by
  have hapart := (h.apart_others hi).ids
  rw [hpending, Option.toList_some, List.singleton_append, List.map_cons, List.nodup_cons] at hapart
  intro heq
  exact hapart.1 (List.mem_map.mpr ⟨other, hother, heq⟩)

theorem mem_others_of_pending {file : StoredFile} (hjob : job ∈ s.jobs.eraseIdx i)
    (hpending : job.pending = some file) : file ∈ s.others i :=
  List.mem_append_right _ (List.mem_filterMap.mpr ⟨job, hjob, hpending⟩)

theorem mem_others_of_inserted {file : StoredFile} (hfile : file ∈ s.inserted) :
    file ∈ s.others i :=
  List.mem_append_left _ hfile

/-- Inserted files of one id are one file. -/
theorem Kept.inserted_unique (h : s.Kept) {a b : StoredFile} (ha : a ∈ s.inserted)
    (hb : b ∈ s.inserted) (hid : a.id = b.id) : a = b := by
  have hids : (s.inserted.map fun file => (tag file).1).Nodup :=
    (((List.sublist_append_left s.inserted _).map _).nodup h.apart.ids)
  exact List.inj_on_of_nodup_map hids ha hb hid

/-- The row a completion saves to has the key of its copy. -/
theorem Kept.row_key (h : s.Kept) {row file : StoredFile} (hrow : row ∈ s.files)
    (hcopy : ∃ known ∈ s.inserted, SameFile known file) (hid : row.id = file.id) :
    row.storageKey = file.storageKey := by
  obtain ⟨first, hfirst, hsame⟩ := h.rows row hrow
  obtain ⟨known, hknown, hsame'⟩ := hcopy
  have heq : first = known := by
    apply h.inserted_unique hfirst hknown
    rw [hsame.1, hid, hsame'.1]
  rw [← hsame.2.1, heq, hsame'.2.1]

/-! ## Every run keeps them apart -/

theorem initial_kept (now : Instant) : (initial now).Kept where
  apart := ⟨List.nodup_nil, List.nodup_nil, fun file hmem => by cases hmem⟩
  small id hmem := by cases hmem
  objects key hsome := by cases hsome
  rows row hmem := by cases hmem
  urls url hmem := by cases hmem
  signing key expiry hmem := by cases hmem
  copies job hmem := by cases hmem

/-- The key of a new Guid was not drawn. -/
theorem Kept.undrawn (h : s.Kept) {fileId : Guid} {key : Text} (hfile : s.fresh fileId = true)
    (hkey : IsKeyOf fileId key) : ¬ Drawn s.drawn key := by
  rw [fresh, Bool.and_eq_true, decide_eq_true_eq, decide_eq_true_eq] at hfile
  rintro ⟨id, hdrawn, his⟩
  -- a key names its Guid, and this Guid is new
  have hsame : id = fileId := his.unique hkey (h.small id hdrawn) hfile.1
  exact hfile.2 (hsame ▸ hdrawn)

/-- Two Guids drawn for one file are new, and so is its key. -/
theorem Kept.fresh_apart (h : s.Kept) {fileId : Guid} {file : StoredFile}
    (hfile : s.fresh fileId = true) (hid : s.fresh file.id = true)
    (hkey : IsKeyOf fileId file.storageKey) :
    Apart (fileId :: file.id :: s.drawn) (file :: s.known) := by
  have hold : ∀ key, Drawn s.drawn key → Drawn (fileId :: file.id :: s.drawn) key :=
    fun key ⟨id, hmem, his⟩ => ⟨id, List.mem_cons_of_mem _ (List.mem_cons_of_mem _ hmem), his⟩
  have hnewId : file.id ∉ s.known.map fun f => (tag f).1 := by
    intro hmem
    rw [fresh, Bool.and_eq_true, decide_eq_true_eq, decide_eq_true_eq] at hid
    obtain ⟨other, hother, heq⟩ := List.mem_map.mp hmem
    exact hid.2 (heq ▸ (h.apart.drawn other hother).1)
  -- the old keys were built for Guids drawn before
  have hnewKey : file.storageKey ∉ s.known.map fun f => (tag f).2 := by
    intro hmem
    obtain ⟨other, hother, heq⟩ := List.mem_map.mp hmem
    have hdrawn : Drawn s.drawn (tag other).2 := (h.apart.drawn other hother).2
    exact h.undrawn hfile hkey (heq ▸ hdrawn)
  refine ⟨List.nodup_cons.mpr ⟨hnewId, h.apart.ids⟩, List.nodup_cons.mpr ⟨hnewKey, h.apart.keys⟩,
    fun other hother => ?_⟩
  cases List.mem_cons.mp hother with
  | inl heq =>
    subst heq
    exact ⟨by simp, fileId, List.mem_cons_self, hkey⟩
  | inr hknown =>
    have hdrawn := h.apart.drawn other hknown
    exact ⟨List.mem_cons_of_mem _ (List.mem_cons_of_mem _ hdrawn.1), hold _ hdrawn.2⟩

theorem known_start (s : FileStore) (job : Job) :
    (s.start job).known = s.known ++ job.pending.toList := by
  show s.inserted ++ (s.jobs ++ [job]).filterMap Job.pending = _
  rw [List.filterMap_append, ← List.append_assoc, List.filterMap_cons, List.filterMap_nil]
  cases job.pending <;> rfl

theorem Admission.pending {file : StoredFile} (h : Admission file job) :
    job.pending = some file := by
  cases h <;> rfl

theorem Kept.admitted (h : s.Kept) {fileId : Guid} {file : StoredFile}
    (hfile : s.fresh fileId = true) (hid : s.fresh file.id = true)
    (hkey : IsKeyOf fileId file.storageKey) (hjob : Admission file job) :
    ((s.draw fileId file.id).start job).Kept where
  apart := by
    rw [known_start, Admission.pending hjob]
    exact (h.fresh_apart hfile hid hkey).perm (List.perm_append_singleton file s.known).symm
  small id hmem := by
    rw [fresh, Bool.and_eq_true, decide_eq_true_eq, decide_eq_true_eq] at hfile hid
    rcases List.mem_cons.mp hmem with rfl | hmem
    · exact hfile.1
    · rcases List.mem_cons.mp hmem with rfl | hmem
      · exact hid.1
      · exact h.small id hmem
  objects key hsome := by
    obtain ⟨id, hmem, his⟩ := h.objects key hsome
    exact ⟨id, List.mem_cons_of_mem _ (List.mem_cons_of_mem _ hmem), his⟩
  rows := h.rows
  urls := h.urls
  signing key expiry hmem := by
    cases List.mem_append.mp hmem with
    | inl hold => exact h.signing key expiry hold
    | inr hnew =>
      rw [List.mem_singleton] at hnew
      subst hnew
      cases hjob
  copies other hmem copy hcopy := by
    cases List.mem_append.mp hmem with
    | inl hold => exact h.copies other hold copy hcopy
    | inr hnew =>
      rw [List.mem_singleton] at hnew
      subst hnew
      cases hjob <;> cases hcopy

theorem Kept.completing (h : s.Kept) {file : StoredFile} (hfile : file ∈ s.files) :
    (s.start (.completing file)).Kept where
  apart := by
    have hknown : (s.start (.completing file)).known = s.known :=
      (known_start s _).trans (List.append_nil _)
    exact hknown ▸ h.apart
  small := h.small
  objects := h.objects
  rows := h.rows
  urls := h.urls
  signing key expiry hmem := by
    cases List.mem_append.mp hmem with
    | inl hold => exact h.signing key expiry hold
    | inr hnew => cases List.mem_singleton.mp hnew
  copies other hmem copy hcopy := by
    cases List.mem_append.mp hmem with
    | inl hold => exact h.copies other hold copy hcopy
    | inr hnew =>
      cases List.mem_singleton.mp hnew
      cases hcopy
      exact h.rows file hfile

/-- A request moves without an insertion; it may give its file up. -/
theorem Kept.enter (h : s.Kept) (hi : s.jobs[i]? = some old) {new : Job}
    (hpending : new.pending = none ∨ new.pending = old.pending)
    (hsigning : ∀ key expiry, new ≠ .signing key expiry)
    (hcopy : ∀ file, new.copy = some file → ∃ row ∈ s.inserted, SameFile row file) :
    (s.enter i new).Kept where
  apart := by
    -- nothing new is pending, so what was apart stays apart
    have hsub : (new.pending.toList ++ s.others i).Sublist (old.pending.toList ++ s.others i) := by
      cases hpending with
      | inl hnone =>
        rw [hnone]
        exact List.sublist_append_right _ _
      | inr hsame => rw [hsame]
    exact ((h.apart_others hi).sublist hsub).perm (known_enter_perm hi new).symm
  small := h.small
  objects := h.objects
  rows := h.rows
  urls := h.urls
  signing key expiry hmem := by
    cases mem_enter hi hmem with
    | inl heq => exact absurd heq.symm (hsigning key expiry)
    | inr hother => exact h.signing key expiry (List.mem_of_mem_eraseIdx hother)
  copies other hmem copy hother := by
    cases mem_enter hi hmem with
    | inl heq => exact hcopy copy (heq ▸ hother)
    | inr hold => exact h.copies other (List.mem_of_mem_eraseIdx hold) copy hother

theorem Kept.finish (h : s.Kept) (hi : s.jobs[i]? = some old) : (s.enter i .finished).Kept :=
  h.enter hi (.inl rfl) (fun _ _ heq => by cases heq) fun _ hcopy => by cases hcopy

theorem Kept.write (h : s.Kept) {key : Text} {object : Option Bytes}
    (hkey : object.isSome = true → Drawn s.drawn key) : (s.write key object).Kept where
  apart := h.apart
  small := h.small
  objects other hsome := by
    by_cases heq : other = key
    · rw [heq, write_objects_self] at hsome
      exact heq ▸ hkey hsome
    · rw [write_objects_of_ne s heq] at hsome
      exact h.objects other hsome
  rows := h.rows
  urls := h.urls
  signing := h.signing
  copies := h.copies

/-- The rows are the rows there were, but for their status. -/
theorem Kept.rewrite (h : s.Kept) {files : List StoredFile} {cleared : Guid → Option Bytes}
    (hrows : ∀ row ∈ files, ∃ row' ∈ s.files, SameFile row' row) :
    ({ s with files := files, cleared := cleared } : FileStore).Kept where
  apart := h.apart
  small := h.small
  objects := h.objects
  rows row hrow := by
    obtain ⟨row', hrow', hsame⟩ := hrows row hrow
    obtain ⟨file, hfile, hsame'⟩ := h.rows row' hrow'
    exact ⟨file, hfile, hsame'.1.trans hsame.1, hsame'.2.1.trans hsame.2.1,
      hsame'.2.2.trans hsame.2.2⟩
  urls := h.urls
  signing := h.signing
  copies := h.copies

theorem Insertion.pending {file : StoredFile} (h : Insertion file old new) :
    old.pending = some file ∧ new.pending = none ∧ new.copy = none := by
  cases h <;> exact ⟨rfl, rfl, rfl⟩

theorem Kept.inserted (h : s.Kept) {file row : StoredFile} (hi : s.jobs[i]? = some old)
    (hjobs : Insertion file old new) (hsame : SameFile file row) :
    ((s.insert row).enter i new).Kept where
  apart := by
    obtain ⟨hold, hnew, -⟩ := Insertion.pending hjobs
    have hown := h.apart_others hi
    rw [hold] at hown
    -- the row takes the place of the pending file
    have hrow : Apart s.drawn (row :: s.others i) := by
      refine ⟨?_, ?_, fun other hmem => ?_⟩
      · have hids := hown.ids
        rwa [Option.toList_some, List.singleton_append, List.map_cons, tag, hsame.1] at hids
      · have hkeys := hown.keys
        rwa [Option.toList_some, List.singleton_append, List.map_cons, tag, hsame.2.1] at hkeys
      · cases List.mem_cons.mp hmem with
        | inl heq =>
          have hfile := hown.drawn file (List.mem_append_left _ (by simp))
          rw [heq, ← hsame.1, ← hsame.2.1]
          exact hfile
        | inr hother => exact hown.drawn other (List.mem_append_right _ hother)
    have hperm : (row :: s.others i).Perm (new.pending.toList ++ (s.insert row).others i) := by
      rw [hnew, Option.toList_none, List.nil_append]
      show (row :: (s.inserted ++ _)).Perm ((s.inserted ++ [row]) ++ _)
      rw [List.append_assoc]
      exact List.perm_middle.symm
    exact (hrow.perm hperm).perm (known_enter_perm (s := s.insert row) hi new).symm
  small := h.small
  objects := h.objects
  rows other hmem := by
    cases List.mem_append.mp hmem with
    | inl hold =>
      obtain ⟨known, hknown, hsame'⟩ := h.rows other hold
      exact ⟨known, List.mem_append_left _ hknown, hsame'⟩
    | inr hnew =>
      rw [List.mem_singleton] at hnew
      subst hnew
      exact ⟨other, List.mem_append_right _ (List.mem_singleton_self _), rfl, rfl, rfl⟩
  urls url hurl := by
    obtain ⟨known, hknown, hkey⟩ := h.urls url hurl
    exact ⟨known, List.mem_append_left _ hknown, hkey⟩
  signing key expiry hmem := by
    cases mem_enter (s := s.insert row) hi hmem with
    | inl heq =>
      cases hjobs with
      | direct => cases heq
      | presigned expiry' =>
        cases heq
        exact ⟨row, List.mem_append_right _ (List.mem_singleton_self _), hsame.2.1.symm⟩
    | inr hother =>
      obtain ⟨known, hknown, hkey⟩ := h.signing key expiry (List.mem_of_mem_eraseIdx hother)
      exact ⟨known, List.mem_append_left _ hknown, hkey⟩
  copies other hmem copy hcopy := by
    cases mem_enter (s := s.insert row) hi hmem with
    | inl heq =>
      rw [heq, (Insertion.pending hjobs).2.2] at hcopy
      cases hcopy
    | inr hother =>
      obtain ⟨known, hknown, hsame'⟩ :=
        h.copies other (List.mem_of_mem_eraseIdx hother) copy hcopy
      exact ⟨known, List.mem_append_left _ hknown, hsame'⟩

theorem Kept.signed (h : s.Kept) {url : SignedUrl} {expiry : Option Int}
    (hi : s.jobs[i]? = some (.signing url.key expiry)) :
    ({ s with uploadUrls := s.uploadUrls ++ [url] }.enter i .finished).Kept := by
  have hurl : ({ s with uploadUrls := s.uploadUrls ++ [url] } : FileStore).Kept := by
    refine { h with urls := fun other hmem => ?_ }
    cases List.mem_append.mp hmem with
    | inl hold => exact h.urls other hold
    | inr hnew =>
      rw [List.mem_singleton] at hnew
      subst hnew
      exact h.signing other.key expiry (List.mem_of_getElem? hi)
  exact hurl.finish hi

theorem sameFile_save {row file : StoredFile} {isClean : Bool} :
    SameFile row (if row.id = file.id then
      if isClean then row.markAsAvailable else row.markAsRejected else row) := by
  split
  · split <;> exact ⟨rfl, rfl, rfl⟩
  · exact ⟨rfl, rfl, rfl⟩

theorem step_kept (h : s.Kept) (hs : step config s m = some s') : s'.Kept := by
  cases effect_of_step hs with
  | quiet => exact { h with }
  | admitted m fileId file job hfile hid hkey _ _ _ _ hjob => exact h.admitted hfile hid hkey hjob
  | completing m file hfile => exact h.completing hfile
  | stored m i file content hi =>
    have hmem : file ∈ (Job.uploading file content).pending.toList ++ s.others i :=
      List.mem_append_left _ (List.mem_singleton_self file)
    have hdrawn := ((h.apart_others hi).drawn file hmem).2
    exact (h.write fun _ => hdrawn).enter hi (.inr rfl) (fun _ _ heq => by cases heq)
      fun _ hcopy => by cases hcopy
  | inserted m i file row old new hi hjobs hsame hstatus => exact h.inserted hi hjobs hsame
  | signed m i url expiry hi => exact h.signed hi
  | advanced m i old new hi hjobs =>
    cases hjobs with
    | finish => exact h.finish hi
    | exists_ file =>
      refine h.enter hi (.inl rfl) (fun _ _ heq => by cases heq) fun copy hcopy => ?_
      cases hcopy
      exact h.copies _ (List.mem_of_getElem? hi) file rfl
    | scan file bytes isClean =>
      refine h.enter hi (.inl rfl) (fun _ _ heq => by cases heq) fun copy hcopy => ?_
      cases hcopy
      exact h.copies _ (List.mem_of_getElem? hi) file rfl
  | saved m i file bytes isClean hi =>
    refine Kept.finish ?_ hi
    apply h.rewrite
    intro row hrow
    obtain ⟨row', hrow', rfl⟩ := List.mem_map.mp hrow
    exact ⟨row', hrow', sameFile_save⟩
  | put url bytes hurl =>
    -- a `PUT` writes under the key of a file that was inserted
    obtain ⟨file, hfile, hkey⟩ := h.urls url hurl
    exact h.write fun _ => hkey ▸ (h.apart.drawn file (List.mem_append_left _ hfile)).2
  | deleted m ids =>
    have hrows : ({ s with files := s.files.filter fun row => row.id ∉ ids } : FileStore).Kept :=
      h.rewrite fun row hrow => ⟨row, (List.mem_filter.mp hrow).1, rfl, rfl, rfl⟩
    exact { hrows with }
  | objectDeleted m key doomed =>
    have hwrite : (s.write key none).Kept := h.write fun hsome => by cases hsome
    exact { hwrite with }

end FileStore

end Wallow.Storage
