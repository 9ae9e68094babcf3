import Wallow.Lib.Transition
import Wallow.Storage.FileStore
import Wallow.Storage.LocalStorage
import Mathlib.Data.List.AList

/-!
# Sweeping orphaned objects

`OrphanedObjectSweepJob` lists the objects under `tenant-`, looks the old ones up in the file table
in batches, and deletes those no row names.  It runs beside uploads, which store their object before
their row, presigned uploads, which store it after, deletions, and other sweeps.
-/

namespace Wallow.Storage

open Transition

def MINIMUM_AGE : Nat := 24 * TICKS_PER_HOUR

def BATCH_SIZE : Nat := 500

/-- `File.GetLastWriteTimeUtc` of a file that is gone: 1601-01-01, which is before the epoch. -/
def FILE_TIME_ZERO : Int := -(11644473600 * TICKS_PER_SECOND : Nat)

structure SweepConfig where
  spelling : KeySpelling
  unicode : UnicodeTables
  invalidFileNameChars : List UInt16

structure StorageObjectInfo where
  key : Text
  lastModified : Int
  deriving DecidableEq

inductive SweepOutcome
  | running
  | completed
  | failed
  deriving DecidableEq

/-- One execution of the job. -/
structure Sweep where
  cutoff : Int
  /-- The files the enumeration has yet to come to. -/
  unlisted : List Text
  /-- What the listing returned and the loop has yet to look at. -/
  listed : List StorageObjectInfo
  batch : List StorageObjectInfo
  /-- The keys of the batch without a row that are still to be deleted. -/
  unreferenced : List Text
  deleted : Nat
  outcome : SweepOutcome
  deriving DecidableEq

/-- The file table, the objects, and what is under way. -/
structure ObjectStore where
  now : Instant
  /-- The storage keys of the committed rows of all tenants. -/
  rows : List Text
  /-- By file path, the time of the last write. -/
  objects : AList fun _ : Text => Instant
  /-- The uploads whose object is stored and whose row is not, with the time of their last write. -/
  pending : AList fun _ : Text => Instant
  /-- The keys an upload URL was signed for. -/
  signed : List Text
  /-- The keys whose rows are removed and whose objects are next. -/
  doomed : List Text
  /-- The file ids drawn so far. -/
  drawn : List Guid
  sweeps : List Sweep
  /-- The file paths at which a sweep deleted an object. -/
  swept : List Text

/-- What a running job does next. -/
inductive SweepMove
  /-- The listing comes to a file. -/
  | list (path : Text)
  /-- A file that was there when the listing began is gone when it gets there. -/
  | miss (path : Text)
  /-- The loop looks at the next of the listed objects. -/
  | consider
  /-- `SweepBatchAsync` asks for the rows of the batch. -/
  | lookup
  /-- It deletes the next object without a row. -/
  | deleteNext
  | finish
  /-- A call of the job throws. -/
  | fail

inductive StoreMove
  /-- `UploadFileHandler` begins to store the object of a command. -/
  | upload (fileId : Guid) (command : UploadFileCommand)
  /-- It writes more of it. -/
  | write (key : Text)
  /-- It saves the row. -/
  | commit (key : Text)
  /-- It fails before it has saved the row; the object stays. -/
  | abandon (key : Text)
  /-- `GetUploadPresignedUrlHandler` saves a row and signs its key. -/
  | reserve (fileId tenantId : Guid) (query : GetUploadPresignedUrlQuery)
  /-- A `PUT` by a signed URL. -/
  | put (key : Text)
  /-- `DeleteFileHandler`, or a bucket with its files, removes a row. -/
  | removeRow (key : Text)
  /-- It deletes the object. -/
  | deleteObject (key : Text)
  /-- Another module stores or deletes an object of its own keyspace. -/
  | putOther (key : Text)
  | deleteOther (key : Text)
  | tick (ticks : Nat)
  /-- `ExecuteAsync` begins. -/
  | beginSweep
  /-- A running job goes on. -/
  | sweep (i : Nat) (move : SweepMove)

namespace KeySpelling

/-- The object kept there is listed under the tenant prefix. -/
def isTenantPath (spelling : KeySpelling) (path : Text) : Bool :=
  (spelling.listedKey path).any TENANT_KEY_PREFIX.isPrefixOf

end KeySpelling

namespace ObjectStore

def initial (now : Instant) : ObjectStore :=
  ⟨now, [], ∅, ∅, [], [], [], [], []⟩

/-- Guids are not drawn twice. -/
def fresh (s : ObjectStore) (id : Guid) : Bool :=
  decide (id < 2 ^ 128) && decide (id ∉ s.drawn)

variable (config : SweepConfig)

/-- The key `UploadFileHandler` builds. -/
def uploadKey (fileId : Guid) (command : UploadFileCommand) : Text :=
  buildStorageKey command.tenantId command.bucketName command.path fileId
    (getExtension (FileNameSanitizer.sanitize config.invalidFileNameChars command.fileName))

/-- The key `GetUploadPresignedUrlHandler` builds; it takes the file name as it is. -/
def reserveKey (fileId tenantId : Guid) (query : GetUploadPresignedUrlQuery) : Text :=
  buildStorageKey tenantId query.bucketName query.path fileId (getExtension query.fileName)

def writeObject (s : ObjectStore) (path : Text) : ObjectStore :=
  { s with objects := s.objects.insert path s.now }

def eraseObject (s : ObjectStore) (path : Text) : ObjectStore :=
  { s with objects := s.objects.erase path }

def setSweep (s : ObjectStore) (i : Nat) (sweep : Sweep) : ObjectStore :=
  { s with sweeps := s.sweeps.set i sweep }

def upload (s : ObjectStore) (fileId : Guid) (command : UploadFileCommand) : ObjectStore :=
  let key := uploadKey config fileId command
  let s := { s with drawn := fileId :: s.drawn }
  match config.spelling.getFilePath key with
  | none => s
  | some path => { s.writeObject path with pending := s.pending.insert key s.now }

def reserve (s : ObjectStore) (fileId tenantId : Guid) (query : GetUploadPresignedUrlQuery) :
    ObjectStore :=
  let key := reserveKey fileId tenantId query
  { s with drawn := fileId :: s.drawn, rows := key :: s.rows, signed := key :: s.signed }

/-- The upload is young enough for what it does next. -/
def isInTime (s : ObjectStore) (key : Text) : Bool :=
  (s.pending.lookup key).any fun lastModified => decide (s.now < lastModified + MINIMUM_AGE)

/-- What the enumeration starts with. -/
def beginSweep (s : ObjectStore) : Sweep where
  cutoff := s.now - MINIMUM_AGE
  unlisted := s.objects.keys.filter config.spelling.isTenantPath
  listed := []
  batch := []
  unreferenced := []
  deleted := 0
  outcome := .running

/-- The entry the listing returns for a file. -/
def infoOf (s : ObjectStore) (path : Text) : Option StorageObjectInfo :=
  (config.spelling.listedKey path).map fun key =>
    ⟨key, ((s.objects.lookup path).map Int.ofNat).getD FILE_TIME_ZERO⟩

local instance text_lawful : LawfulBEq (List UInt16) := inferInstance

def act (s : ObjectStore) (i : Nat) (sweep : Sweep) : SweepMove → Option ObjectStore
  | .list path =>
    if path ∈ sweep.unlisted ∨ (path ∈ s.objects ∧ config.spelling.isTenantPath path = true) then
      (s.infoOf config path).map fun info => s.setSweep i
        { sweep with unlisted := sweep.unlisted.erase path, listed := sweep.listed ++ [info] }
    else none
  | .miss path =>
    if path ∈ sweep.unlisted ∧ path ∉ s.objects then
      some (s.setSweep i { sweep with unlisted := sweep.unlisted.erase path })
    else none
  | .consider =>
    match sweep.listed with
    | [] => none
    | info :: rest =>
      if sweep.unreferenced = [] ∧ sweep.batch.length < BATCH_SIZE then
        some (s.setSweep i (if info.lastModified > sweep.cutoff then { sweep with listed := rest }
          else { sweep with listed := rest, batch := sweep.batch ++ [info] }))
      else none
  | .lookup =>
    if sweep.unreferenced = [] ∧ (sweep.batch.length = BATCH_SIZE ∨
        (sweep.unlisted = [] ∧ sweep.listed = [] ∧ sweep.batch ≠ [])) then
      some (s.setSweep i { sweep with
        batch := []
        unreferenced := (sweep.batch.map (·.key)).filter (· ∉ s.rows) })
    else none
  | .deleteNext =>
    match sweep.unreferenced with
    | [] => none
    | key :: rest =>
      (config.spelling.getFilePath key).map fun path =>
        let s := if path ∈ s.objects then { s with swept := path :: s.swept } else s
        (s.eraseObject path).setSweep i
          { sweep with unreferenced := rest, deleted := sweep.deleted + 1 }
  | .finish =>
    if sweep.unlisted = [] ∧ sweep.listed = [] ∧ sweep.batch = [] ∧ sweep.unreferenced = [] then
      some (s.setSweep i { sweep with outcome := .completed })
    else none
  | .fail => some (s.setSweep i { sweep with outcome := .failed })

/-- The job goes on while it runs. -/
def continue_ (s : ObjectStore) (i : Nat) (move : SweepMove) : Option ObjectStore :=
  match s.sweeps[i]? with
  | none => none
  | some sweep => if sweep.outcome = .running then s.act config i sweep move else none

def step (s : ObjectStore) : StoreMove → Option ObjectStore
  | .upload fileId command =>
    if s.fresh fileId ∧ (UploadFileValidator.validate config.unicode command).1 = [] ∧
        CreateBucketValidator.isNameValid command.bucketName = true then
      some (s.upload config fileId command)
    else none
  | .write key =>
    if s.isInTime key then
      (config.spelling.getFilePath key).map fun path =>
        { s.writeObject path with pending := s.pending.insert key s.now }
    else none
  | .commit key =>
    if s.isInTime key then some { s with rows := key :: s.rows, pending := s.pending.erase key }
    else none
  | .abandon key => some { s with pending := s.pending.erase key }
  | .reserve fileId tenantId query =>
    if s.fresh fileId ∧
        GetUploadPresignedUrlValidator.validate config.unicode tenantId query = [] ∧
        CreateBucketValidator.isNameValid query.bucketName = true then
      some (s.reserve fileId tenantId query)
    else none
  | .put key =>
    if key ∈ s.signed then (config.spelling.getFilePath key).map s.writeObject else none
  | .removeRow key =>
    if key ∈ s.rows then
      some { s with rows := s.rows.filter (· ≠ key), doomed := key :: s.doomed }
    else none
  | .deleteObject key =>
    if key ∈ s.doomed then (config.spelling.getFilePath key).map s.eraseObject else none
  | .putOther key => (config.spelling.getFilePath key).bind fun path =>
      if config.spelling.isTenantPath path then none else some (s.writeObject path)
  | .deleteOther key => (config.spelling.getFilePath key).bind fun path =>
      if config.spelling.isTenantPath path then none else some (s.eraseObject path)
  | .tick ticks => some { s with now := s.now + ticks }
  | .beginSweep => some { s with sweeps := s.sweeps ++ [s.beginSweep config] }
  | .sweep i move => s.continue_ config i move

/-- The key the move builds comes back from the listing as it was built: on a file system, its
folder has no empty and no `.` segment. -/
def keepsSpelling (key : Text) (path : Option Text) : Bool :=
  match config.spelling with
  | .files _ => decide (NUL ∈ key) || (folderSegments path).all LocalStorageProvider.stays
  | .exact _ => true

def IsSpelled (_ : ObjectStore) : StoreMove → Prop
  | .upload fileId command => keepsSpelling config (uploadKey config fileId command) command.path
  | .reserve fileId tenantId query =>
    keepsSpelling config (reserveKey fileId tenantId query) query.path
  | _ => True

/-! ## What a step can do -/

/-- The key was built for this file; where the request met the condition, it lists as itself. -/
structure Built (spelled : Prop) (fileId : Guid) (key : Text) : Prop where
  isKeyOf : IsKeyOf fileId key
  tenant : TENANT_KEY_PREFIX <+: key
  lists : spelled → config.spelling.ListsAsItself key

inductive Effect (s : ObjectStore) (spelled : Prop) : ObjectStore → Prop
  | refused (fileId : Guid) (hfresh : s.fresh fileId = true) :
      Effect s spelled { s with drawn := fileId :: s.drawn }
  | uploaded (fileId : Guid) (key path : Text) (hfresh : s.fresh fileId = true)
      (hkey : Built config spelled fileId key)
      (hpath : config.spelling.getFilePath key = some path) :
      Effect s spelled { { s with drawn := fileId :: s.drawn } with
        objects := s.objects.insert path s.now, pending := s.pending.insert key s.now }
  | written (key path : Text) (htime : s.isInTime key = true)
      (hpath : config.spelling.getFilePath key = some path) :
      Effect s spelled { s with
        objects := s.objects.insert path s.now, pending := s.pending.insert key s.now }
  | committed (key : Text) (htime : s.isInTime key = true) :
      Effect s spelled { s with rows := key :: s.rows, pending := s.pending.erase key }
  | abandoned (key : Text) : Effect s spelled { s with pending := s.pending.erase key }
  | reserved (fileId : Guid) (key : Text) (hfresh : s.fresh fileId = true)
      (hkey : Built config spelled fileId key) :
      Effect s spelled { { s with drawn := fileId :: s.drawn } with
        rows := key :: s.rows, signed := key :: s.signed }
  | put (key path : Text) (hkey : key ∈ s.signed)
      (hpath : config.spelling.getFilePath key = some path) : Effect s spelled (s.writeObject path)
  | rowRemoved (key : Text) (hkey : key ∈ s.rows) :
      Effect s spelled { s with rows := s.rows.filter (· ≠ key), doomed := key :: s.doomed }
  | objectDeleted (key path : Text) (hkey : key ∈ s.doomed)
      (hpath : config.spelling.getFilePath key = some path) : Effect s spelled (s.eraseObject path)
  | otherStored (path : Text) (hother : config.spelling.isTenantPath path = false) :
      Effect s spelled (s.writeObject path)
  | otherDeleted (path : Text) (hother : config.spelling.isTenantPath path = false) :
      Effect s spelled (s.eraseObject path)
  | ticked (ticks : Nat) : Effect s spelled { s with now := s.now + ticks }
  | begun : Effect s spelled { s with sweeps := s.sweeps ++ [s.beginSweep config] }
  | acted (i : Nat) (sweep : Sweep) (move : SweepMove) (s' : ObjectStore)
      (hi : s.sweeps[i]? = some sweep) (hrunning : sweep.outcome = .running)
      (hact : s.act config i sweep move = some s') : Effect s spelled s'

/-- What a job does when it goes on. -/
inductive Acted (s : ObjectStore) (i : Nat) (sweep : Sweep) : ObjectStore → Prop
  | listed (path : Text) (info : StorageObjectInfo)
      (hplace : path ∈ sweep.unlisted ∨
        (path ∈ s.objects ∧ config.spelling.isTenantPath path = true))
      (hinfo : s.infoOf config path = some info) :
      Acted s i sweep (s.setSweep i
        { sweep with unlisted := sweep.unlisted.erase path, listed := sweep.listed ++ [info] })
  | missed (path : Text) (hgone : path ∉ s.objects) :
      Acted s i sweep (s.setSweep i { sweep with unlisted := sweep.unlisted.erase path })
  | passed (info : StorageObjectInfo) (rest : List StorageObjectInfo)
      (hlisted : sweep.listed = info :: rest) (hyoung : sweep.cutoff < info.lastModified) :
      Acted s i sweep (s.setSweep i { sweep with listed := rest })
  | batched (info : StorageObjectInfo) (rest : List StorageObjectInfo)
      (hlisted : sweep.listed = info :: rest) (hold : info.lastModified ≤ sweep.cutoff) :
      Acted s i sweep
        (s.setSweep i { sweep with listed := rest, batch := sweep.batch ++ [info] })
  | lookedUp (hdone : sweep.unreferenced = []) :
      Acted s i sweep (s.setSweep i { sweep with
        batch := []
        unreferenced := (sweep.batch.map (·.key)).filter (· ∉ s.rows) })
  | deleted (key path : Text) (rest swept : List Text)
      (hunreferenced : sweep.unreferenced = key :: rest)
      (hpath : config.spelling.getFilePath key = some path)
      (hswept : swept = s.swept ∨ swept = path :: s.swept) :
      Acted s i sweep
        (setSweep { s with objects := s.objects.erase path, swept := swept } i
          { sweep with unreferenced := rest, deleted := sweep.deleted + 1 })
  | finished (hunlisted : sweep.unlisted = []) (hlisted : sweep.listed = [])
      (hbatch : sweep.batch = []) (hunreferenced : sweep.unreferenced = []) :
      Acted s i sweep (s.setSweep i { sweep with outcome := .completed })
  | failed : Acted s i sweep (s.setSweep i { sweep with outcome := .failed })

variable {config : SweepConfig} {s s' : ObjectStore} {move : StoreMove} {key path : Text}

theorem acted_of_act {i : Nat} {sweep : Sweep} {move : SweepMove}
    (h : s.act config i sweep move = some s') : Acted config s i sweep s' := by
  cases move with
  | list path =>
    simp only [act, Option.ite_none_right_eq_some, Option.map_eq_some_iff] at h
    obtain ⟨hplace, info, hinfo, rfl⟩ := h
    exact .listed path info hplace hinfo
  | miss path =>
    simp only [act, Option.ite_none_right_eq_some, Option.some.injEq] at h
    obtain ⟨⟨-, hgone⟩, rfl⟩ := h
    exact .missed path hgone
  | consider =>
    simp only [act] at h
    split at h
    · cases h
    · rename_i info rest hlisted
      rw [Option.ite_none_right_eq_some, Option.some.injEq] at h
      obtain ⟨-, rfl⟩ := h
      split
      · rename_i hyoung
        exact .passed info rest hlisted hyoung
      · rename_i hold
        exact .batched info rest hlisted (Int.not_lt.mp hold)
  | lookup =>
    simp only [act, Option.ite_none_right_eq_some, Option.some.injEq] at h
    obtain ⟨⟨hdone, -⟩, rfl⟩ := h
    exact .lookedUp hdone
  | deleteNext =>
    simp only [act] at h
    split at h
    · cases h
    · rename_i key rest hunreferenced
      rw [Option.map_eq_some_iff] at h
      obtain ⟨path, hpath, rfl⟩ := h
      -- only an object that was there enters the record
      split
      · exact .deleted key path rest _ hunreferenced hpath (.inr rfl)
      · exact .deleted key path rest _ hunreferenced hpath (.inl rfl)
  | finish =>
    simp only [act, Option.ite_none_right_eq_some, Option.some.injEq] at h
    obtain ⟨⟨hunlisted, hlisted, hbatch, hunreferenced⟩, rfl⟩ := h
    exact .finished hunlisted hlisted hbatch hunreferenced
  | fail =>
    cases h
    exact .failed

theorem listsAsItself_of_keepsSpelling {tenantId fileId : Guid} {bucketName name : Text}
    {folder : Option Text} (hbucket : CreateBucketValidator.isNameValid bucketName = true)
    (htraversal : (folder.map
      (UploadFileValidator.containsPathTraversal config.unicode)).getD false = false)
    (h : keepsSpelling config
      (buildStorageKey tenantId bucketName folder fileId (getExtension name)) folder = true) :
    config.spelling.ListsAsItself
      (buildStorageKey tenantId bucketName folder fileId (getExtension name)) := by
  unfold keepsSpelling at h
  split at h
  · rename_i base hfiles
    rw [hfiles, listsAsItself_buildStorageKey_iff hbucket htraversal
      (slash_not_mem_getExtension name)]
    rw [Bool.or_eq_true, decide_eq_true_iff] at h
    exact h
  · rename_i takes hexact
    rw [hexact]
    exact KeySpelling.listsAsItself_exact takes _

theorem effect_of_step (h : s.step config move = some s') :
    Effect config s (IsSpelled config s move) s' := by
  cases move with
  | upload fileId command =>
    simp only [step, Option.ite_none_right_eq_some, Option.some.injEq] at h
    obtain ⟨⟨hfresh, hvalid, hbucket⟩, rfl⟩ := h
    have hbuilt : Built config (IsSpelled config s (.upload fileId command)) fileId
        (uploadKey config fileId command) :=
      ⟨isKeyOf_buildStorageKey _ _ _ _ _, prefix_buildStorageKey _ _ _ _ _,
        listsAsItself_of_keepsSpelling hbucket (upload_path_accepted hvalid)⟩
    unfold upload
    dsimp only
    split
    · exact .refused fileId hfresh
    · rename_i path hpath
      exact .uploaded fileId _ path hfresh hbuilt hpath
  | write key =>
    simp only [step, Option.ite_none_right_eq_some, Option.map_eq_some_iff] at h
    obtain ⟨htime, path, hpath, rfl⟩ := h
    exact .written key path htime hpath
  | commit key =>
    simp only [step, Option.ite_none_right_eq_some, Option.some.injEq] at h
    obtain ⟨htime, rfl⟩ := h
    exact .committed key htime
  | abandon key =>
    cases h
    exact .abandoned key
  | reserve fileId tenantId query =>
    simp only [step, Option.ite_none_right_eq_some, Option.some.injEq] at h
    obtain ⟨⟨hfresh, hvalid, hbucket⟩, rfl⟩ := h
    exact .reserved fileId _ hfresh
      ⟨isKeyOf_buildStorageKey _ _ _ _ _, prefix_buildStorageKey _ _ _ _ _,
        listsAsItself_of_keepsSpelling hbucket (reserve_path_accepted hvalid)⟩
  | put key =>
    simp only [step, Option.ite_none_right_eq_some, Option.map_eq_some_iff] at h
    obtain ⟨hkey, path, hpath, rfl⟩ := h
    exact .put key path hkey hpath
  | removeRow key =>
    simp only [step, Option.ite_none_right_eq_some, Option.some.injEq] at h
    obtain ⟨hkey, rfl⟩ := h
    exact .rowRemoved key hkey
  | deleteObject key =>
    simp only [step, Option.ite_none_right_eq_some, Option.map_eq_some_iff] at h
    obtain ⟨hkey, path, hpath, rfl⟩ := h
    exact .objectDeleted key path hkey hpath
  | putOther key =>
    simp only [step, Option.bind_eq_some_iff, Option.ite_none_left_eq_some,
      Option.some.injEq] at h
    obtain ⟨path, -, hother, rfl⟩ := h
    exact .otherStored path (Bool.eq_false_iff.mpr hother)
  | deleteOther key =>
    simp only [step, Option.bind_eq_some_iff, Option.ite_none_left_eq_some,
      Option.some.injEq] at h
    obtain ⟨path, -, hother, rfl⟩ := h
    exact .otherDeleted path (Bool.eq_false_iff.mpr hother)
  | tick ticks =>
    cases h
    exact .ticked ticks
  | beginSweep =>
    cases h
    exact .begun
  | sweep i move =>
    simp only [step, continue_] at h
    split at h
    · cases h
    · rename_i sweep hi
      rw [Option.ite_none_right_eq_some] at h
      exact .acted i sweep move s' hi h.1 h.2

end ObjectStore

end Wallow.Storage
