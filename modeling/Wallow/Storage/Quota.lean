import Wallow.Storage.ScannedBytes
import Mathlib.Algebra.Order.BigOperators.Group.List

/-!
# The quota and the upload limit

Both kinds of upload are charged by the size they declare: the sum of the declared sizes is read
before the row is inserted, and what a `PUT` writes is compared with nothing.
-/

namespace Wallow.Storage

open ReadStream Transition

/-- The size an admitted request has not been charged for. -/
def Job.uncharged (job : Job) : Int :=
  (job.pending.map (·.sizeBytes)).getD 0

/-- The file whose row comes next. -/
def Job.awaitsRow : Job → Option StoredFile
  | .inserting file | .reserving file _ => some file
  | _ => none

namespace FileStore

/-- The bytes of the object of a row. -/
def objectBytes (s : FileStore) (row : StoredFile) : Int :=
  ((s.objects row.storageKey).getD []).length

def heldBytes (s : FileStore) : Int :=
  (s.files.map s.objectBytes).sum

variable (config : StorageConfig)

structure WithinLimits (s : FileStore) : Prop where
  quota : s.heldBytes ≤ config.limits.quotaBytes
  available : ∀ file ∈ s.files, file.status = .available →
    s.objectBytes file ≤ config.limits.maxUploadSizeBytes

/-- The sizes admitted and not inserted. -/
def uncharged (s : FileStore) : Int :=
  (s.jobs.map Job.uncharged).sum

/-- A size that fits beside the rows fits beside what is under way too. -/
def hasRoom (s : FileStore) : Option Int → Bool
  | none => true
  | some size => decide (config.limits.quotaBytes < s.usedBytes + size) ||
    decide (s.usedBytes + s.uncharged + size ≤ config.limits.quotaBytes)

/-- A request finds room, and a `PUT` writes no more than its file was declared with. -/
def fits (s : FileStore) (m : FileMove) : Bool :=
  s.hasRoom config m.declared &&
    match m with
    | .put url bytes => s.files.all fun row =>
        row.storageKey != url.key || decide ((bytes.length : Int) ≤ row.sizeBytes)
    | _ => true

/-! ## The invariant -/

structure Charged (s : FileStore) : Prop where
  total : s.usedBytes + s.uncharged ≤ config.limits.quotaBytes
  sizes : ∀ file ∈ s.known, 0 < file.sizeBytes ∧
    file.sizeBytes ≤ config.limits.maxUploadSizeBytes
  held : ∀ row ∈ s.files, s.objectBytes row ≤ row.sizeBytes
  waiting : ∀ job ∈ s.jobs, ∀ file, job.awaitsRow = some file →
    s.objectBytes file ≤ file.sizeBytes
  uploading : ∀ file content, Job.uploading file content ∈ s.jobs →
    content.canSeek = true ∧ file.sizeBytes = content.items.length

variable {config} {s s' : FileStore} {m : FileMove} {i : Nat} {old new job : Job}

theorem objectBytes_write_of_ne {key : Text} {row : StoredFile} (h : row.storageKey ≠ key)
    (object : Option Bytes) : (s.write key object).objectBytes row = s.objectBytes row := by
  rw [objectBytes, write_objects_of_ne s h, objectBytes]

theorem uncharged_nonneg_of (h : s.Charged config) (hjob : job ∈ s.jobs) : 0 ≤ job.uncharged := by
  unfold Job.uncharged
  cases hpending : job.pending with
  | none => exact Int.le_refl 0
  | some file =>
    have hknown : file ∈ s.known :=
      List.mem_append_right _ (List.mem_filterMap.mpr ⟨job, hjob, hpending⟩)
    exact Int.le_of_lt (h.sizes file hknown).1

theorem Charged.uncharged_nonneg (h : s.Charged config) : 0 ≤ s.uncharged := by
  apply List.sum_nonneg
  intro size hmem
  obtain ⟨job, hjob, rfl⟩ := List.mem_map.mp hmem
  exact uncharged_nonneg_of h hjob

theorem Charged.row_sizes (h : s.Charged config) (hkept : s.Kept) {row : StoredFile}
    (hrow : row ∈ s.files) : 0 < row.sizeBytes ∧
      row.sizeBytes ≤ config.limits.maxUploadSizeBytes := by
  obtain ⟨file, hfile, hsame⟩ := hkept.rows row hrow
  exact hsame.2.2 ▸ h.sizes file (List.mem_append_left _ hfile)

theorem Charged.within (h : s.Charged config) (hkept : s.Kept) : s.WithinLimits config where
  quota := by
    -- no object is larger than its row declares
    have hheld : s.heldBytes ≤ s.usedBytes := List.sum_le_sum h.held
    have hnonneg := h.uncharged_nonneg
    have htotal := h.total
    omega
  available row hrow _ := Int.le_trans (h.held row hrow) (h.row_sizes hkept hrow).2

/-! ## The steps -/

theorem uncharged_enter (hi : s.jobs[i]? = some old) (new : Job) :
    (s.enter i new).uncharged + old.uncharged = s.uncharged + new.uncharged := by
  obtain ⟨hlt, hget⟩ := List.getElem?_eq_some_iff.mp hi
  have hold : s.uncharged = old.uncharged + ((s.jobs.eraseIdx i).map Job.uncharged).sum := by
    have hperm : s.jobs.Perm (old :: s.jobs.eraseIdx i) := by
      rw [← hget]
      exact (List.getElem_cons_eraseIdx_perm hlt).symm
    exact (hperm.map Job.uncharged).sum_eq
  have hnew : (s.enter i new).uncharged =
      new.uncharged + ((s.jobs.eraseIdx i).map Job.uncharged).sum :=
    ((List.set_perm_cons_eraseIdx hlt new).map Job.uncharged).sum_eq
  omega

theorem uncharged_start (s : FileStore) (job : Job) :
    (s.start job).uncharged = s.uncharged + job.uncharged := by
  show ((s.jobs ++ [job]).map Job.uncharged).sum = _
  rw [List.map_append, List.sum_append, List.map_singleton, List.sum_singleton]
  rfl

/-- A request that gives its file up, or goes on with it. -/
theorem Charged.enter (h : s.Charged config) (hi : s.jobs[i]? = some old)
    (hpending : new.pending = none ∨ new.pending = old.pending)
    (hwaiting : ∀ file, new.awaitsRow = some file → s.objectBytes file ≤ file.sizeBytes)
    (huploading : ∀ file content, new ≠ .uploading file content) :
    (s.enter i new).Charged config where
  total := by
    have hsum := uncharged_enter hi new
    have htotal := h.total
    have hnonneg := uncharged_nonneg_of h (List.mem_of_getElem? hi)
    -- what is given up frees its charge
    have hless : new.uncharged ≤ old.uncharged := by
      cases hpending with
      | inl hnone =>
        have hzero : new.uncharged = 0 := by rw [Job.uncharged, hnone]; rfl
        omega
      | inr hsame => rw [Job.uncharged, hsame, Job.uncharged]
    have hused : (s.enter i new).usedBytes = s.usedBytes := rfl
    omega
  sizes file hmem := by
    have hperm := known_enter_perm hi new
    cases List.mem_append.mp (hperm.mem_iff.mp hmem) with
    | inl hown =>
      apply h.sizes
      apply (known_perm hi).mem_iff.mpr
      cases hpending with
      | inl hnone => rw [hnone] at hown; cases hown
      | inr hsame => exact List.mem_append_left _ (hsame ▸ hown)
    | inr hother =>
      exact h.sizes file ((known_perm hi).mem_iff.mpr (List.mem_append_right _ hother))
  held := h.held
  waiting other hmem file hawaits := by
    cases mem_enter hi hmem with
    | inl heq => exact hwaiting file (heq ▸ hawaits)
    | inr hold => exact h.waiting other (List.mem_of_mem_eraseIdx hold) file hawaits
  uploading file content hmem := by
    cases mem_enter hi hmem with
    | inl heq => exact absurd heq.symm (huploading file content)
    | inr hold => exact h.uploading file content (List.mem_of_mem_eraseIdx hold)

theorem Charged.finish (h : s.Charged config) (hi : s.jobs[i]? = some old) :
    (s.enter i .finished).Charged config :=
  h.enter hi (.inl rfl) (fun _ heq => by cases heq) fun _ _ heq => by cases heq

theorem awaitsRow_pending {file : StoredFile} (h : job.awaitsRow = some file) :
    job.pending = some file := by
  cases job <;> first | exact h | cases h

/-- An object is written under a key of no row, and of no file whose row comes next. -/
theorem Charged.write (h : s.Charged config) {key : Text} {object : Option Bytes}
    (hrows : ∀ row ∈ s.files, row.storageKey = key →
      ((object.getD []).length : Int) ≤ row.sizeBytes)
    (hjobs : ∀ job ∈ s.jobs, ∀ file, job.awaitsRow = some file → file.storageKey = key →
      ((object.getD []).length : Int) ≤ file.sizeBytes) : (s.write key object).Charged config where
  total := h.total
  sizes := h.sizes
  held row hrow := by
    by_cases heq : row.storageKey = key
    · rw [objectBytes, heq, write_objects_self]
      exact hrows row hrow heq
    · rw [objectBytes_write_of_ne heq]
      exact h.held row hrow
  waiting job hjob file hawaits := by
    by_cases heq : file.storageKey = key
    · rw [objectBytes, heq, write_objects_self]
      exact hjobs job hjob file hawaits heq
    · rw [objectBytes_write_of_ne heq]
      exact h.waiting job hjob file hawaits
  uploading := h.uploading

/-- What a provider stores is no longer than the content. -/
theorem length_upload_le (hreset : ∀ content : Stream UInt8, content.canSeek = true →
      config.putObject content = content.items) {content : Stream UInt8}
    (hseek : content.canSeek = true) :
    (config.provider.upload config.putObject (config.scanner.scan content).content).length ≤
      content.items.length := by
  have hscan : (config.scanner.scan content).content.items = content.items ∧
      (config.scanner.scan content).content.canSeek = content.canSeek := by
    cases config.scanner with
    | clamAv daemon => exact ClamAvFileScanner.items_send content
    | noOp => exact ⟨rfl, rfl⟩
  cases config.provider with
  | local_ =>
    show ((config.scanner.scan content).content.items.drop _).length ≤ _
    rw [hscan.1, List.length_drop]
    exact Nat.sub_le _ _
  | s3 =>
    show (config.putObject _).length ≤ _
    rw [hreset _ (hscan.2.trans hseek), hscan.1]

theorem Charged.stored (h : s.Charged config) (hkept : s.Kept)
    (hreset : ∀ content : Stream UInt8, content.canSeek = true →
      config.putObject content = content.items) {file : StoredFile} {content : Stream UInt8}
    (hi : s.jobs[i]? = some (.uploading file content)) :
    ((s.write file.storageKey (some (config.provider.upload config.putObject
      (config.scanner.scan content).content))).enter i (.inserting file)).Charged config := by
  have hcontent := h.uploading file content (List.mem_of_getElem? hi)
  have hle := length_upload_le hreset hcontent.1
  have hother : ∀ other ∈ s.others i, other.storageKey ≠ file.storageKey := fun other hmem =>
    hkept.key_ne hi rfl hmem
  have hwrite : (s.write file.storageKey (some (config.provider.upload config.putObject
      (config.scanner.scan content).content))).Charged config := by
    apply h.write
    · intro row hrow hkey
      obtain ⟨known, hknown, hsame⟩ := hkept.rows row hrow
      exact absurd (hsame.2.1.trans hkey) (hother known (mem_others_of_inserted hknown))
    · -- only this request is about to insert a row of this key, and it uploads
      intro job hjob waits hawaits hkey
      obtain ⟨hlt, hget⟩ := List.getElem?_eq_some_iff.mp hi
      have hperm := List.getElem_cons_eraseIdx_perm hlt
      rw [hget] at hperm
      cases List.mem_cons.mp (hperm.mem_iff.mpr hjob) with
      | inl heq => rw [heq] at hawaits; cases hawaits
      | inr hold =>
        exact absurd hkey (hother waits (mem_others_of_pending hold (awaitsRow_pending hawaits)))
  refine hwrite.enter hi (.inr rfl) (fun waits hawaits => ?_) fun _ _ heq => by cases heq
  cases hawaits
  rw [objectBytes, write_objects_self, hcontent.2]
  exact Int.ofNat_le.mpr hle

theorem Charged.start (h : s.Charged config) (hpending : job.pending = none) :
    (s.start job).Charged config where
  total := by
    have hzero : job.uncharged = 0 := by rw [Job.uncharged, hpending]; rfl
    have htotal := h.total
    have hsum := uncharged_start s job
    have hused : (s.start job).usedBytes = s.usedBytes := rfl
    omega
  sizes file hmem := by
    rw [known_start, hpending, Option.toList_none, List.append_nil] at hmem
    exact h.sizes file hmem
  held := h.held
  waiting other hmem file hawaits := by
    cases List.mem_append.mp hmem with
    | inl hold => exact h.waiting other hold file hawaits
    | inr hnew =>
      rw [List.mem_singleton] at hnew
      rw [hnew] at hawaits
      rw [awaitsRow_pending hawaits] at hpending
      cases hpending
  uploading file content hmem := by
    cases List.mem_append.mp hmem with
    | inl hold => exact h.uploading file content hold
    | inr hnew =>
      rw [← List.mem_singleton.mp hnew] at hpending
      cases hpending

/-- A request is admitted when its size fits beside the rows and beside what is under way. -/
theorem Charged.admitted (h : s.Charged config) (hkept : s.Kept) {fileId : Guid}
    {file : StoredFile} (hfile : s.fresh fileId = true) (hkey : IsKeyOf fileId file.storageKey)
    (hpos : 0 < file.sizeBytes) (hlimit : file.sizeBytes ≤ config.limits.maxUploadSizeBytes)
    (hquota : s.usedBytes + file.sizeBytes ≤ config.limits.quotaBytes)
    (hroom : s.hasRoom config (some file.sizeBytes) = true) (hjob : Admission file job) :
    ((s.draw fileId file.id).start job).Charged config where
  total := by
    rw [hasRoom, Bool.or_eq_true, decide_eq_true_eq, decide_eq_true_eq] at hroom
    -- the size fits beside the rows, so by the condition beside the requests as well
    have huncharged : job.uncharged = file.sizeBytes := by
      rw [Job.uncharged, Admission.pending hjob]
      rfl
    have hsum := uncharged_start (s.draw fileId file.id) job
    have hused : ((s.draw fileId file.id).start job).usedBytes = s.usedBytes := rfl
    have hsame : (s.draw fileId file.id).uncharged = s.uncharged := rfl
    omega
  sizes other hmem := by
    rw [known_start, Admission.pending hjob] at hmem
    cases List.mem_append.mp hmem with
    | inl hold => exact h.sizes other hold
    | inr hnew =>
      rw [Option.toList_some, List.mem_singleton] at hnew
      exact hnew ▸ ⟨hpos, hlimit⟩
  held := h.held
  waiting other hmem waits hawaits := by
    cases List.mem_append.mp hmem with
    | inl hold => exact h.waiting other hold waits hawaits
    | inr hnew =>
      -- no object stands under a new key
      rw [List.mem_singleton] at hnew
      have hown := awaitsRow_pending hawaits
      rw [hnew, Admission.pending hjob, Option.some.injEq] at hown
      subst hown
      have hnone : s.objects file.storageKey = none := by
        rw [← Option.not_isSome_iff_eq_none]
        exact fun hsome => hkept.undrawn hfile hkey (hkept.objects _ hsome)
      show (((s.objects file.storageKey).getD []).length : Int) ≤ file.sizeBytes
      rw [hnone]
      exact Int.le_of_lt hpos
  uploading other content hmem := by
    cases List.mem_append.mp hmem with
    | inl hold => exact h.uploading other content hold
    | inr hnew =>
      have hown := List.mem_singleton.mp hnew
      subst hown
      cases hjob with
      | direct _ hseek hlength _ => exact ⟨hseek, hlength⟩

/-- The row is charged for what its request stood for. -/
theorem Charged.inserted (h : s.Charged config) {file row : StoredFile}
    (hi : s.jobs[i]? = some old) (hjobs : Insertion file old new) (hsame : SameFile file row) :
    ((s.insert row).enter i new).Charged config where
  total := by
    obtain ⟨hold, hnew, -⟩ := Insertion.pending hjobs
    have hsum := uncharged_enter (s := s.insert row) hi new
    have hused : ((s.insert row).enter i new).usedBytes = s.usedBytes + row.sizeBytes := by
      show ((s.files ++ [row]).map (·.sizeBytes)).sum = _
      rw [List.map_append, List.sum_append, List.map_singleton, List.sum_singleton]
      rfl
    -- the charge goes from the request to the row
    have hcharged : old.uncharged = file.sizeBytes := by rw [Job.uncharged, hold]; rfl
    have hzero : new.uncharged = 0 := by rw [Job.uncharged, hnew]; rfl
    have hinsert : (s.insert row).uncharged = s.uncharged := rfl
    have htotal := h.total
    have hsize := hsame.2.2
    omega
  sizes other hmem := by
    obtain ⟨hold, hnew, -⟩ := Insertion.pending hjobs
    have hmem' := (known_enter_perm (s := s.insert row) hi new).mem_iff.mp hmem
    rw [hnew, Option.toList_none, List.nil_append] at hmem'
    have hknown : ∀ f, f ∈ s.others i ∨ f = file → f ∈ s.known := by
      intro f hf
      apply (known_perm hi).mem_iff.mpr
      rw [hold]
      exact List.mem_append.mpr (hf.symm.imp_left fun heq => by simp [heq])
    rcases List.mem_append.mp hmem' with hinserted | hpending
    · cases List.mem_append.mp hinserted with
      | inl hearlier => exact h.sizes other (hknown other (.inl (mem_others_of_inserted hearlier)))
      | inr hrow =>
        rw [List.mem_singleton] at hrow
        exact hrow ▸ hsame.2.2 ▸ h.sizes file (hknown file (.inr rfl))
    · exact h.sizes other (hknown other (.inl (List.mem_append_right _ hpending)))
  held other hmem := by
    cases List.mem_append.mp hmem with
    | inl hold => exact h.held other hold
    | inr hnew =>
      rw [List.mem_singleton] at hnew
      have hawaits : old.awaitsRow = some file := by cases hjobs <;> rfl
      have hle := h.waiting old (List.mem_of_getElem? hi) file hawaits
      rw [objectBytes, hsame.2.1, hsame.2.2] at hle
      exact hnew ▸ hle
  waiting other hmem waits hawaits := by
    cases mem_enter (s := s.insert row) hi hmem with
    | inl heq => rw [heq] at hawaits; cases hjobs <;> cases hawaits
    | inr hold => exact h.waiting other (List.mem_of_mem_eraseIdx hold) waits hawaits
  uploading other content hmem := by
    cases mem_enter (s := s.insert row) hi hmem with
    | inl heq => cases hjobs <;> cases heq
    | inr hold => exact h.uploading other content (List.mem_of_mem_eraseIdx hold)

/-- The rows keep their keys and sizes, or go. -/
theorem Charged.rewrite (h : s.Charged config) {files : List StoredFile}
    {cleared : Guid → Option Bytes}
    (hrows : ∀ row ∈ files, ∃ row' ∈ s.files, SameFile row' row)
    (hused : (files.map (·.sizeBytes)).sum ≤ s.usedBytes) :
    ({ s with files := files, cleared := cleared } : FileStore).Charged config where
  total := by
    have htotal := h.total
    show (files.map (·.sizeBytes)).sum + s.uncharged ≤ _
    omega
  sizes := h.sizes
  held row hrow := by
    obtain ⟨row', hrow', hsame⟩ := hrows row hrow
    have hle := h.held row' hrow'
    rw [objectBytes, hsame.2.1, hsame.2.2] at hle
    exact hle
  waiting := h.waiting
  uploading := h.uploading

theorem Charged.put (h : s.Charged config) (hkept : s.Kept) {url : SignedUrl} {bytes : Bytes}
    (hurl : url ∈ s.uploadUrls) (hfits : s.fits config (.put url bytes) = true) :
    (s.write url.key (some bytes)).Charged config := by
  have hrows := List.all_eq_true.mp (Bool.and_eq_true_iff.mp hfits).2
  apply h.write
  · intro row hrow hkey
    have hrow' := hrows row hrow
    simp only [hkey, bne_self_eq_false, Bool.false_or, decide_eq_true_eq] at hrow'
    exact hrow'
  · -- the URL is for a row that was inserted
    intro job hjob waits hawaits hkey
    obtain ⟨i, hi⟩ := List.getElem?_of_mem hjob
    obtain ⟨known, hknown, heq⟩ := hkept.urls url hurl
    exact absurd (heq.trans hkey.symm)
      (hkept.key_ne hi (awaitsRow_pending hawaits) (mem_others_of_inserted hknown))

/-! ## Runs -/

theorem step_charged (hreset : ∀ content : Stream UInt8, content.canSeek = true →
      config.putObject content = content.items) (h : s.Charged config) (hkept : s.Kept)
    (hfits : s.fits config m = true) (hs : step config s m = some s') : s'.Charged config := by
  cases effect_of_step hs with
  | quiet => exact { h with }
  | admitted m fileId file job hfile hid hkey hdeclared hpos hlimit hquota hjob =>
    have hroom := (Bool.and_eq_true_iff.mp hfits).1
    rw [hdeclared] at hroom
    exact h.admitted hkept hfile hkey hpos hlimit hquota hroom hjob
  | completing m file hfile => exact h.start rfl
  | stored m i file content hi => exact h.stored hkept hreset hi
  | inserted m i file row old new hi hjobs hsame hstatus => exact h.inserted hi hjobs hsame
  | signed m i url expiry hi =>
    have hurls : ({ s with uploadUrls := s.uploadUrls ++ [url] } : FileStore).Charged config :=
      { h with }
    exact hurls.finish hi
  | advanced m i old new hi hjobs =>
    cases hjobs with
    | finish => exact h.finish hi
    | exists_ file =>
      exact h.enter hi (.inl rfl) (fun _ heq => by cases heq) fun _ _ heq => by cases heq
    | scan file bytes isClean =>
      exact h.enter hi (.inl rfl) (fun _ heq => by cases heq) fun _ _ heq => by cases heq
  | saved m i file bytes isClean hi =>
    refine Charged.finish (s := s.save file bytes isClean) ?_ hi
    apply h.rewrite
    · intro row hrow
      obtain ⟨row', hrow', rfl⟩ := List.mem_map.mp hrow
      exact ⟨row', hrow', sameFile_save⟩
    · rw [List.map_map]
      refine Int.le_of_eq (congrArg List.sum (List.map_congr_left fun row _ => ?_))
      exact sameFile_save.2.2.symm
  | put url bytes hurl => exact h.put hkept hurl hfits
  | deleted m ids =>
    have hrows : ({ s with files := s.files.filter fun row => row.id ∉ ids } : FileStore).Charged
        config := by
      apply h.rewrite
      · exact fun row hrow => ⟨row, (List.mem_filter.mp hrow).1, rfl, rfl, rfl⟩
      -- fewer rows of positive size are charged less
      · apply List.Sublist.sum_le_sum (List.filter_sublist.map _)
        intro size hmem
        obtain ⟨row, hrow, rfl⟩ := List.mem_map.mp hmem
        exact Int.le_of_lt (h.row_sizes hkept hrow).1
    exact { hrows with }
  | objectDeleted m key doomed =>
    have hnone : (s.write key none).Charged config := by
      apply h.write
      · intro row hrow _
        exact Int.le_of_lt (h.row_sizes hkept hrow).1
      · intro job hjob file hawaits _
        have hknown : file ∈ s.known := List.mem_append_right _
          (List.mem_filterMap.mpr ⟨job, hjob, awaitsRow_pending hawaits⟩)
        exact Int.le_of_lt (h.sizes file hknown).1
    exact { hnone with }

theorem initial_charged (hquota : 0 ≤ config.limits.quotaBytes) (now : Instant) :
    (initial now).Charged config where
  total := hquota
  sizes file hmem := by cases hmem
  held row hmem := by cases hmem
  waiting job hmem := by cases hmem
  uploading file content hmem := by cases hmem

/-- A presigned upload of two bytes and a direct one of three fill a quota of five. -/
def filledQuota : List FileMove :=
  completedUpload ++ [.upload 21 22 (some 5) sampleFile (text "files") (some ⟨1, 0, none⟩) none
    false 0, .act 2, .act 2]

/-- Two reservations read the sum before either inserts its row. -/
def reservedTwice : List FileMove :=
  [.reserve 11 12 (some ⟨1, 0, none⟩) (sampleQuery 3),
    .reserve 21 22 (some ⟨1, 0, none⟩) (sampleQuery 3), .act 0, .act 0, .act 1, .act 1,
    .put (sampleUrl 11) [0x61, 0x62, 0x63], .put (sampleUrl 21) [0x64, 0x65, 0x66]]

/-- One byte is declared and five are written. -/
def underdeclared : List FileMove :=
  reservation 0 11 12 1 ++ [.put (sampleUrl 11) [0x61, 0x62, 0x63, 0x64, 0x65]] ++
    completion 1 12

end FileStore

end Wallow.Storage
