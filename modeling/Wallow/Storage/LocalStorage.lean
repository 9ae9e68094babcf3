import Wallow.Storage.UploadFile
import Mathlib.Data.List.Infix

/-!
# Where a provider keeps an object

`LocalStorageProvider` makes a file path of a key and, when it lists, a key of a file path; the
file system drops empty and `.` segments on the way.  The keys a file is stored under come back as
they were written when their folder has no such segment.
-/

namespace Wallow.Storage

def NUL : UInt16 := 0

namespace LocalStorageProvider

/-- A segment of an absolute path: a name in a directory. -/
structure IsName (segment : Text) : Prop where
  not_nil : segment ≠ []
  not_dot : segment ≠ [DOT]
  not_dots : segment ≠ [DOT, DOT]
  slash_not_mem : SLASH ∉ segment
  nul_not_mem : NUL ∉ segment

/-- `Path.GetFullPath` of the configured `BasePath`. -/
structure BaseDirectory where
  segments : List Text
  isName : ∀ segment ∈ segments, IsName segment

def segments (key : Text) : List Text :=
  key.splitOn SLASH

/-- One segment of a path that is made absolute. -/
def enter (directory : List Text) (segment : Text) : List Text :=
  if segment = [] ∨ segment = [DOT] then directory
  else if segment = [DOT, DOT] then directory.dropLast
  else directory ++ [segment]

/-- `Path.GetFullPath`, from the root. -/
def getFullPath (path : List Text) : List Text :=
  path.foldl enter []

def pathText (path : List Text) : Text :=
  path.flatMap fun segment => SLASH :: segment

variable (base : BaseDirectory)

/-- `Path.Combine`: a rooted key replaces the base. -/
def combine (key : Text) : List Text :=
  if [SLASH].isPrefixOf key then segments key else base.segments ++ segments key

/-- `none` is an exception: a path with a NUL, or one that leaves the base directory. -/
def getFilePath (key : Text) : Option Text :=
  if NUL ∈ key then none
  else
    let filePath := pathText (getFullPath (combine base key))
    if (pathText base.segments).isPrefixOf filePath then some filePath else none

/-- `Path.GetRelativePath` of a file the enumeration of the base directory finds; it finds no
other. -/
def listedKey (filePath : Text) : Option Text :=
  let directory := pathText base.segments ++ [SLASH]
  if directory.isPrefixOf filePath then some (filePath.drop directory.length) else none

end LocalStorageProvider

/-- How the keys of a provider come back from its listing. -/
inductive KeySpelling
  /-- `LocalStorageProvider`. -/
  | files (base : LocalStorageProvider.BaseDirectory)
  /-- A provider that lists the keys it was given, of those it takes. -/
  | exact (takes : Text → Bool)

namespace KeySpelling

/-- Where the object of a key is kept. -/
def getFilePath : KeySpelling → Text → Option Text
  | .files base, key => LocalStorageProvider.getFilePath base key
  | .exact takes, key => if takes key then some key else none

/-- What the listing calls the object that is kept there. -/
def listedKey : KeySpelling → Text → Option Text
  | .files base, path => LocalStorageProvider.listedKey base path
  | .exact _, path => some path

/-- Whatever is stored under the key is listed under the key. -/
def ListsAsItself (spelling : KeySpelling) (key : Text) : Prop :=
  ∀ path, spelling.getFilePath key = some path → spelling.listedKey path = some key

theorem listsAsItself_exact (takes : Text → Bool) (key : Text) :
    (KeySpelling.exact takes).ListsAsItself key := by
  intro path hpath
  rw [getFilePath, Option.ite_none_right_eq_some, Option.some.injEq] at hpath
  exact congrArg some hpath.2.symm

end KeySpelling

/-- The segments a path adds to the key. -/
def folderSegments : Option Text → List Text
  | some path =>
    if isNullOrWhiteSpace path then []
    else LocalStorageProvider.segments (trimWhere (· = SLASH) path)
  | none => []

/-! ## Absolute paths -/

namespace LocalStorageProvider

/-- The segments that stay when a path without `..` is made absolute. -/
def stays (segment : Text) : Bool :=
  decide (segment ≠ []) && decide (segment ≠ [DOT])

theorem IsName.stays {segment : Text} (h : IsName segment) : stays segment = true := by
  rw [LocalStorageProvider.stays, Bool.and_eq_true, decide_eq_true_iff, decide_eq_true_iff]
  exact ⟨h.not_nil, h.not_dot⟩

/-- Without `..` only the segments that stand for nothing are dropped. -/
theorem foldl_enter {path : List Text} (h : ∀ segment ∈ path, segment ≠ [DOT, DOT])
    (directory : List Text) : path.foldl enter directory = directory ++ path.filter stays := by
  induction path generalizing directory with
  | nil => exact (List.append_nil directory).symm
  | cons segment rest ih =>
    obtain ⟨hdots, hrest⟩ := List.forall_mem_cons.mp h
    rw [List.foldl_cons, ih hrest, List.filter_cons]
    by_cases hdrop : segment = [] ∨ segment = [DOT]
    · have hgone : stays segment = false := by
        cases hdrop with
        | inl hnil => rw [hnil]; rfl
        | inr hdot => rw [hdot]; rfl
      rw [enter, if_pos hdrop, hgone]
      rfl
    · have hkept : stays segment = true := by
        rw [not_or] at hdrop
        rw [stays, Bool.and_eq_true, decide_eq_true_iff, decide_eq_true_iff]
        exact hdrop
      rw [enter, if_neg hdrop, if_neg hdots, hkept, if_pos rfl, List.append_assoc]
      rfl

/-- What is entered from a directory of names is a directory of names. -/
theorem isName_of_mem_foldl_enter {path directory : List Text}
    (h : ∀ segment ∈ path, SLASH ∉ segment ∧ NUL ∉ segment)
    (hdirectory : ∀ name ∈ directory, IsName name) :
    ∀ name ∈ path.foldl enter directory, IsName name := by
  induction path generalizing directory with
  | nil => exact hdirectory
  | cons first rest ih =>
    obtain ⟨hfirst, hrest⟩ := List.forall_mem_cons.mp h
    rw [List.foldl_cons]
    refine ih hrest fun name hname => ?_
    unfold enter at hname
    split at hname
    · exact hdirectory name hname
    · rename_i hkept
      rw [not_or] at hkept
      split at hname
      · exact hdirectory name (List.dropLast_subset directory hname)
      · rename_i hdots
        cases List.mem_append.mp hname with
        | inl hold => exact hdirectory name hold
        | inr hnew =>
          rw [List.mem_singleton.mp hnew]
          exact ⟨hkept.1, hkept.2, hdots, hfirst.1, hfirst.2⟩

theorem pathText_append (xs ys : List Text) :
    pathText (xs ++ ys) = pathText xs ++ pathText ys :=
  List.flatMap_append

/-- Below the root the segments are joined by slashes. -/
theorem pathText_eq {path : List Text} (h : path ≠ []) :
    pathText path = SLASH :: [SLASH].intercalate path := by
  induction path with
  | nil => exact absurd rfl h
  | cons first rest ih =>
    by_cases hrest : rest = []
    · rw [hrest, List.intercalate_singleton]
      exact List.append_nil _
    · rw [List.intercalate_cons_of_ne_nil hrest]
      show (SLASH :: first) ++ pathText rest = _
      rw [ih hrest, List.cons_append, List.append_assoc]
      rfl

/-- A path whose text goes on after a directory's is a path in that directory. -/
theorem exists_of_pathText_eq {directory path : List Text} {rest : Text}
    (hdirectory : ∀ segment ∈ directory, SLASH ∉ segment)
    (hpath : ∀ segment ∈ path, SLASH ∉ segment)
    (h : pathText path = pathText directory ++ SLASH :: rest) :
    ∃ names, path = directory ++ names ∧ names ≠ [] ∧ rest = [SLASH].intercalate names := by
  induction directory generalizing path with
  | nil =>
    have hne : path ≠ [] := by
      intro hnil
      rw [hnil] at h
      cases h
    rw [pathText_eq hne] at h
    exact ⟨path, rfl, hne, ((List.cons.inj h).2).symm⟩
  | cons first others ih =>
    obtain ⟨hfirst, hothers⟩ := List.forall_mem_cons.mp hdirectory
    cases path with
    | nil => cases h
    | cons segment tail =>
      obtain ⟨hsegment, htail⟩ := List.forall_mem_cons.mp hpath
      -- what follows a segment starts with a slash, or nothing follows
      have hsplit : segment = first ∧ pathText tail = pathText others ++ SLASH :: rest := by
        have htext : segment ++ pathText tail = first ++ (pathText others ++ SLASH :: rest) := by
          have hcons : SLASH :: (segment ++ pathText tail) =
              SLASH :: (first ++ pathText others) ++ SLASH :: rest := h
          rw [List.cons_append, List.append_assoc] at hcons
          exact (List.cons.inj hcons).2
        obtain ⟨more, hmore⟩ : ∃ more, pathText others ++ SLASH :: rest = SLASH :: more := by
          cases others with
          | nil => exact ⟨rest, rfl⟩
          | cons next later => exact ⟨_, rfl⟩
        cases tail with
        | nil =>
          exfalso
          apply hsegment
          rw [show segment = segment ++ pathText [] from (List.append_nil segment).symm, htext,
            hmore]
          exact List.mem_append_right _ List.mem_cons_self
        | cons next later =>
          have htail' : pathText (next :: later) = SLASH :: (next ++ pathText later) := rfl
          rw [hmore, htail'] at htext ⊢
          obtain ⟨hsame, hafter⟩ := SplitText.append_sep_inj hsegment hfirst htext
          exact ⟨hsame, congrArg (SLASH :: ·) hafter⟩
      obtain ⟨names, hnames, hne, hrest⟩ := ih hothers htail hsplit.2
      exact ⟨names, by rw [hsplit.1, hnames, List.cons_append], hne, hrest⟩

/-! ## What the listing calls an object -/

variable {base : BaseDirectory} {key path name : Text}

theorem intercalate_segments (key : Text) : [SLASH].intercalate (segments key) = key :=
  List.intercalate_splitOn SLASH

theorem slash_nul_not_mem_segments (hnul : NUL ∉ key) :
    ∀ segment ∈ segments key, SLASH ∉ segment ∧ NUL ∉ segment := by
  intro segment hmem
  refine ⟨SplitText.sep_not_mem_of_mem_splitOn hmem, fun hin => hnul ?_⟩
  rw [← intercalate_segments key]
  exact (SplitText.infix_intercalate_of_mem hmem).subset hin

theorem getFilePath_eq_some (h : getFilePath base key = some path) :
    NUL ∉ key ∧ path = pathText (getFullPath (combine base key)) ∧
      (pathText base.segments).isPrefixOf path = true := by
  unfold getFilePath at h
  split at h
  · cases h
  · rename_i hnul
    rw [Option.ite_none_right_eq_some] at h
    obtain ⟨hstart, hpath⟩ := h
    cases hpath
    exact ⟨hnul, rfl, hstart⟩

theorem listedKey_eq_some_iff :
    listedKey base path = some name ↔ path = pathText base.segments ++ SLASH :: name := by
  rw [listedKey, Option.ite_none_right_eq_some, List.isPrefixOf_iff_prefix]
  constructor
  · rintro ⟨⟨rest, hrest⟩, hname⟩
    rw [← hrest, List.drop_left, Option.some.injEq] at hname
    rw [← hrest, hname, List.append_assoc]
    rfl
  · intro hpath
    have htext : path = (pathText base.segments ++ [SLASH]) ++ name := by
      rw [hpath, List.append_assoc]
      rfl
    rw [htext, List.drop_left]
    exact ⟨List.prefix_append _ _, rfl⟩

/-- A relative key without `..` comes back without the segments that stand for nothing. -/
theorem listedKey_getFilePath (hnul : NUL ∉ key) (hrooted : [SLASH].isPrefixOf key = false)
    (hdots : ∀ segment ∈ segments key, segment ≠ [DOT, DOT])
    (hne : (segments key).filter stays ≠ []) :
    ∃ path, getFilePath base key = some path ∧
      listedKey base path = some ([SLASH].intercalate ((segments key).filter stays)) := by
  have hfull : getFullPath (combine base key) = base.segments ++ (segments key).filter stays := by
    rw [combine, hrooted, if_neg Bool.false_ne_true, getFullPath, foldl_enter,
      List.filter_append, List.nil_append]
    · congr 1
      exact List.filter_eq_self.mpr fun segment hmem => (base.isName segment hmem).stays
    · intro segment hmem
      cases List.mem_append.mp hmem with
      | inl hbase => exact (base.isName segment hbase).not_dots
      | inr hkey => exact hdots segment hkey
  have hpath : pathText (getFullPath (combine base key)) = pathText base.segments ++
      SLASH :: [SLASH].intercalate ((segments key).filter stays) := by
    rw [hfull, pathText_append, pathText_eq hne]
  refine ⟨_, ?_, listedKey_eq_some_iff.mpr rfl⟩
  rw [getFilePath, if_neg hnul, hpath, if_pos]
  exact List.isPrefixOf_iff_prefix.mpr (List.prefix_append _ _)

/-- It comes back as it was exactly when it has no such segment. -/
theorem listsAsItself_iff (hnul : NUL ∉ key) (hrooted : [SLASH].isPrefixOf key = false)
    (hdots : ∀ segment ∈ segments key, segment ≠ [DOT, DOT])
    (hne : (segments key).filter stays ≠ []) :
    (KeySpelling.files base).ListsAsItself key ↔ (segments key).all stays = true := by
  obtain ⟨path, hpath, hlisted⟩ : ∃ path, getFilePath base key = some path ∧
      listedKey base path = some ([SLASH].intercalate ((segments key).filter stays)) :=
    listedKey_getFilePath hnul hrooted hdots hne
  have hslash : ∀ segment ∈ segments key, SLASH ∉ segment := fun segment hmem =>
    SplitText.sep_not_mem_of_mem_splitOn hmem
  constructor
  · intro h
    have hsame : listedKey base path = some key := h path hpath
    rw [hlisted, Option.some.injEq] at hsame
    have hfilter := SplitText.intercalate_inj
      (fun segment hmem => hslash segment (List.mem_of_mem_filter hmem)) hslash hne
      (List.splitOn_ne_nil SLASH key) (hsame.trans (intercalate_segments key).symm)
    rw [List.all_eq_true]
    exact List.filter_eq_self.mp hfilter
  · intro hall path' hpath'
    have heq : path' = path := Option.some.inj (hpath'.symm.trans hpath)
    rw [List.all_eq_true] at hall
    rw [List.filter_eq_self.mpr hall] at hlisted
    rw [heq]
    show listedKey base path = some key
    rw [hlisted, intercalate_segments]

end LocalStorageProvider

/-! ## Buckets, and the keys of their files -/

namespace CreateBucketValidator

/-- `[a-z0-9]`. -/
def isAlphanumeric (c : UInt16) : Bool :=
  (0x61 ≤ c && c ≤ 0x7A) || (0x30 ≤ c && c ≤ 0x39)

def DASH : UInt16 := 0x2D

/-- `^[a-z0-9][a-z0-9-]*[a-z0-9]$|^[a-z0-9]$`, but for the line feed `$` may stand before. -/
def matchesName (name : Text) : Bool :=
  name.head?.any isAlphanumeric && name.getLast?.any isAlphanumeric &&
    name.all fun c => isAlphanumeric c || c = DASH

def LINE_FEED : UInt16 := 0x0A

def isNameValid (name : Text) : Bool :=
  !isNullOrWhiteSpace name && decide (name.length ≤ 100) &&
    (matchesName name || (name.getLast? = some LINE_FEED && matchesName name.dropLast))

theorem ne_of_isNameValid {name : Text} (h : isNameValid name = true) :
    name ≠ [] ∧ SLASH ∉ name ∧ DOT ∉ name := by
  have hchars : ∀ other : Text, matchesName other = true → SLASH ∉ other ∧ DOT ∉ other := by
    intro other hmatch
    rw [matchesName, Bool.and_eq_true, List.all_eq_true] at hmatch
    exact ⟨fun hmem => absurd (hmatch.2 _ hmem) (by decide),
      fun hmem => absurd (hmatch.2 _ hmem) (by decide)⟩
  rw [isNameValid, Bool.and_eq_true, Bool.and_eq_true, Bool.or_eq_true] at h
  obtain ⟨⟨hblank, -⟩, hname⟩ := h
  refine ⟨?_, ?_⟩
  · intro hnil
    rw [hnil] at hblank
    cases hblank
  · cases hname with
    | inl hplain => exact hchars name hplain
    | inr hline =>
      rw [Bool.and_eq_true, decide_eq_true_iff] at hline
      have hsplit := List.dropLast_append_getLast? LINE_FEED hline.1
      obtain ⟨hslash, hdot⟩ := hchars _ hline.2
      rw [← hsplit, List.mem_append, not_or, List.mem_append, not_or]
      exact ⟨⟨hslash, by decide⟩, hdot, by decide⟩

end CreateBucketValidator

def TENANT_KEY_PREFIX : Text := text "tenant-"

section Keys

open LocalStorageProvider

variable {tenantId fileId : Guid} {bucketName extension : Text} {path : Option Text}

theorem exists_folder (tenantId : Guid) (bucketName : Text) (path : Option Text) (fileId : Guid)
    (extension : Text) : ∃ folder : List Text,
      folder.flatMap (fun part => part.splitOn SLASH) = folderSegments path ∧
      buildStorageKey tenantId bucketName path fileId extension =
        [SLASH].intercalate ((TENANT_KEY_PREFIX ++ guidText tenantId) :: bucketName :: folder ++
          [guidText fileId ++ extension]) := by
  cases path with
  | none => exact ⟨[], rfl, rfl⟩
  | some path =>
    refine ⟨if isNullOrWhiteSpace path then [] else [trimWhere (· = SLASH) path], ?_, rfl⟩
    rw [folderSegments]
    split
    · rfl
    · exact List.flatMap_singleton _ _

theorem segments_buildStorageKey (hbucket : SLASH ∉ bucketName) (hextension : SLASH ∉ extension) :
    segments (buildStorageKey tenantId bucketName path fileId extension) =
      (TENANT_KEY_PREFIX ++ guidText tenantId) :: bucketName :: folderSegments path ++
        [guidText fileId ++ extension] := by
  have htenant : SLASH ∉ TENANT_KEY_PREFIX ++ guidText tenantId := by
    rw [List.mem_append, not_or]
    exact ⟨by decide, slash_not_mem_guidText tenantId⟩
  have hfile : SLASH ∉ guidText fileId ++ extension := by
    rw [List.mem_append, not_or]
    exact ⟨slash_not_mem_guidText fileId, hextension⟩
  obtain ⟨folder, hfolder, hkey⟩ := exists_folder tenantId bucketName path fileId extension
  rw [hkey, segments, List.cons_append, List.cons_append,
    SplitText.splitOn_intercalate_eq (List.cons_ne_nil _ _), List.flatMap_cons,
    List.flatMap_cons, List.flatMap_append, hfolder, List.flatMap_singleton,
    List.splitOn_eq_singleton htenant, List.splitOn_eq_singleton hbucket,
    List.splitOn_eq_singleton hfile]
  rfl

theorem prefix_buildStorageKey (tenantId : Guid) (bucketName : Text) (path : Option Text)
    (fileId : Guid) (extension : Text) :
    TENANT_KEY_PREFIX <+: buildStorageKey tenantId bucketName path fileId extension := by
  obtain ⟨folder, -, hkey⟩ := exists_folder tenantId bucketName path fileId extension
  rw [hkey, List.cons_append, List.cons_append,
    List.intercalate_cons_of_ne_nil (List.cons_ne_nil _ _)]
  exact ((List.prefix_append _ _).trans (List.prefix_append _ _)).trans (List.prefix_append _ _)

/-- A key begins with a letter. -/
theorem isRelative_buildStorageKey : [SLASH].isPrefixOf
    (buildStorageKey tenantId bucketName path fileId extension) = false := by
  obtain ⟨rest, hrest⟩ := prefix_buildStorageKey tenantId bucketName path fileId extension
  rw [← hrest]
  rfl

/-- A path the validators accept has no `..`. -/
theorem not_dots_of_mem_folderSegments {unicode : UnicodeTables}
    (h : (path.map (UploadFileValidator.containsPathTraversal unicode)).getD false = false) :
    ∀ segment ∈ folderSegments path, segment ≠ [DOT, DOT] := by
  cases path with
  | none => exact fun segment hmem => absurd hmem List.not_mem_nil
  | some path =>
    have htails : path.tails.any [DOT, DOT].isPrefixOf = false := by
      have hleft : (path.tails.any [DOT, DOT].isPrefixOf || [SLASH].isPrefixOf path ||
          [BACKSLASH].isPrefixOf path) = false := (Bool.or_eq_false_iff.mp h).1
      exact (Bool.or_eq_false_iff.mp (Bool.or_eq_false_iff.mp hleft).1).1
    intro segment hmem heq
    rw [folderSegments] at hmem
    split at hmem
    · cases hmem
    · -- a segment is a part of the path
      have hsegment : segment <:+: trimWhere (· = SLASH) path := by
        rw [← intercalate_segments (trimWhere (· = SLASH) path)]
        exact SplitText.infix_intercalate_of_mem hmem
      have htrim : trimWhere (· = SLASH) path <:+: path := by
        refine List.IsInfix.trans ?_ (List.dropWhile_suffix (· = SLASH)).isInfix
        rw [← List.reverse_infix, trimWhere, List.reverse_reverse]
        exact (List.dropWhile_suffix _).isInfix
      obtain ⟨before, after, hparts⟩ := hsegment.trans htrim
      rw [List.any_eq_false] at htails
      have htail : segment ++ after <:+ path := by
        refine ⟨before, ?_⟩
        rw [← List.append_assoc, hparts]
      refine htails (segment ++ after) ((List.mem_tails _ _).mpr htail) ?_
      rw [heq]
      exact List.isPrefixOf_iff_prefix.mpr (List.prefix_append _ _)

/-- A segment longer than the dots is a directory or a file of its own. -/
theorem kept_of_long {segment : Text} (h : 2 < segment.length) :
    segment ≠ [DOT, DOT] ∧ stays segment = true := by
  refine ⟨fun heq => ?_, ?_⟩
  · rw [heq] at h
    exact absurd h (by decide)
  · rw [stays, Bool.and_eq_true, decide_eq_true_iff, decide_eq_true_iff]
    constructor
    · intro heq
      rw [heq] at h
      exact absurd h (by decide)
    · intro heq
      rw [heq] at h
      exact absurd h (by decide)

theorem kept_tenant (tenantId : Guid) : TENANT_KEY_PREFIX ++ guidText tenantId ≠ [DOT, DOT] ∧
    stays (TENANT_KEY_PREFIX ++ guidText tenantId) = true :=
  kept_of_long (by
    rw [List.length_append, length_guidText]
    omega)

theorem kept_file (fileId : Guid) (extension : Text) :
    guidText fileId ++ extension ≠ [DOT, DOT] ∧ stays (guidText fileId ++ extension) = true :=
  kept_of_long (by
    rw [List.length_append, length_guidText]
    omega)

theorem kept_bucket (hbucket : CreateBucketValidator.isNameValid bucketName = true) :
    bucketName ≠ [DOT, DOT] ∧ stays bucketName = true := by
  obtain ⟨hname, -, hdot⟩ := CreateBucketValidator.ne_of_isNameValid hbucket
  refine ⟨fun heq => hdot (heq ▸ List.mem_cons_self), ?_⟩
  rw [stays, Bool.and_eq_true, decide_eq_true_iff, decide_eq_true_iff]
  exact ⟨hname, fun heq => hdot (heq ▸ List.mem_cons_self)⟩

/-- No segment of a key goes up. -/
theorem not_dots_of_mem_buildStorageKey {unicode : UnicodeTables}
    (hbucket : CreateBucketValidator.isNameValid bucketName = true)
    (hpath : (path.map (UploadFileValidator.containsPathTraversal unicode)).getD false = false)
    (hextension : SLASH ∉ extension) :
    ∀ segment ∈ segments (buildStorageKey tenantId bucketName path fileId extension),
      segment ≠ [DOT, DOT] := by
  rw [segments_buildStorageKey (CreateBucketValidator.ne_of_isNameValid hbucket).2.1 hextension]
  intro segment hmem
  cases List.mem_append.mp hmem with
  | inl hfront =>
    cases List.mem_cons.mp hfront with
    | inl heq => exact heq ▸ (kept_tenant tenantId).1
    | inr hfront =>
      cases List.mem_cons.mp hfront with
      | inl heq => exact heq ▸ (kept_bucket hbucket).1
      | inr hfolder => exact not_dots_of_mem_folderSegments hpath segment hfolder
  | inr hlast => exact List.mem_singleton.mp hlast ▸ (kept_file fileId extension).1

/-- Only its folder can have segments that stand for nothing. -/
theorem filter_segments_buildStorageKey
    (hbucket : CreateBucketValidator.isNameValid bucketName = true)
    (hextension : SLASH ∉ extension) :
    (segments (buildStorageKey tenantId bucketName path fileId extension)).filter stays =
      [TENANT_KEY_PREFIX ++ guidText tenantId, bucketName] ++
        ((folderSegments path).filter stays ++ [guidText fileId ++ extension]) := by
  rw [segments_buildStorageKey (CreateBucketValidator.ne_of_isNameValid hbucket).2.1 hextension,
    List.filter_append, List.filter_cons_of_pos (kept_tenant tenantId).2,
    List.filter_cons_of_pos (kept_bucket hbucket).2,
    List.filter_cons_of_pos (kept_file fileId extension).2, List.filter_nil]
  rfl

/-- A key of a file whose request passed the validators is listed as itself exactly when its folder
has no empty and no `.` segment; one with a NUL is never stored. -/
theorem listsAsItself_buildStorageKey_iff {unicode : UnicodeTables} {base : BaseDirectory}
    (hbucket : CreateBucketValidator.isNameValid bucketName = true)
    (hpath : (path.map (UploadFileValidator.containsPathTraversal unicode)).getD false = false)
    (hextension : SLASH ∉ extension) :
    (KeySpelling.files base).ListsAsItself
        (buildStorageKey tenantId bucketName path fileId extension) ↔
      NUL ∈ buildStorageKey tenantId bucketName path fileId extension ∨
        (folderSegments path).all stays = true := by
  by_cases hnul : NUL ∈ buildStorageKey tenantId bucketName path fileId extension
  · refine iff_of_true (fun filePath hfile => ?_) (.inl hnul)
    have hkey : getFilePath base
        (buildStorageKey tenantId bucketName path fileId extension) = some filePath := hfile
    exact absurd hnul (getFilePath_eq_some hkey).1
  · have hne : (segments (buildStorageKey tenantId bucketName path fileId extension)).filter
        stays ≠ [] := by
      rw [filter_segments_buildStorageKey hbucket hextension]
      exact List.cons_ne_nil _ _
    rw [listsAsItself_iff hnul isRelative_buildStorageKey
      (not_dots_of_mem_buildStorageKey hbucket hpath hextension) hne, or_iff_right hnul,
      segments_buildStorageKey (CreateBucketValidator.ne_of_isNameValid hbucket).2.1 hextension,
      List.all_append, List.all_cons, List.all_cons, List.all_cons, (kept_tenant tenantId).2,
      (kept_bucket hbucket).2, (kept_file fileId extension).2]
    simp

end Keys

end Wallow.Storage
