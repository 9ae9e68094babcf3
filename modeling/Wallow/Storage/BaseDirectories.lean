import Wallow.Storage.FileStore
import Wallow.Storage.LocalStorage

/-!
# Inside the base directory

`LocalStorageProvider.GetFilePath` asks whether the text of a file's path starts with the text of
the base directory, each as `Path.GetFullPath` spells it.
-/

namespace Wallow.Storage

open LocalStorageProvider (BaseDirectory IsName segments enter pathText stays)

/-! ## `System.IO.Path` in a process with a working directory -/

namespace UnixPath

def isPathRooted (path : Text) : Bool := [SLASH].isPrefixOf path

def endsInDirectorySeparator (path : Text) : Bool := path.getLast? = some SLASH

def combine (path1 path2 : Text) : Text :=
  if path1 = [] then path2
  else if path2 = [] then path1
  else if isPathRooted path2 then path2
  else if endsInDirectorySeparator path1 then path1 ++ path2
  else path1 ++ SLASH :: path2

/-- An absolute path; a separator at its end stays there. -/
def spell (directory : List Text) (trailing : Bool) : Text :=
  if directory = [] then [SLASH]
  else pathText directory ++ if trailing then [SLASH] else []

/-- `none` is an exception. -/
def getFullPath (workingDirectory : BaseDirectory) (path : Text) : Option Text :=
  if path = [] ∨ NUL ∈ path then none
  else
    let path := if isPathRooted path then path
      else combine (spell workingDirectory.segments false) path
    some (spell (LocalStorageProvider.getFullPath (segments path))
      (endsInDirectorySeparator path))

end UnixPath

structure LocalStorageOptions where
  basePath : Text

open UnixPath in
/-- `LocalStorageProvider.GetFilePath`; on this host its separators are the key's. -/
def LocalStorageOptions.getFilePath (workingDirectory : BaseDirectory)
    (options : LocalStorageOptions) (key : Text) : Option Text :=
  match UnixPath.getFullPath workingDirectory (combine options.basePath key),
      UnixPath.getFullPath workingDirectory options.basePath with
  | some filePath, some baseDirectory =>
    if baseDirectory.isPrefixOf filePath then some filePath else none
  | _, _ => none

/-! ## The directory a path denotes -/

namespace UnixPath

/-- The names from the root on. -/
def directoryOf (workingDirectory : BaseDirectory) (path : Text) : List Text :=
  (segments path).foldl enter (if isPathRooted path then [] else workingDirectory.segments)

section

variable {workingDirectory : BaseDirectory} {path path1 path2 : Text} {names : List Text}

theorem segments_append (xs ys : Text) :
    segments (xs ++ SLASH :: ys) = segments xs ++ segments ys :=
  List.splitOn_append_cons_self ..

theorem endsInDirectorySeparator_append (xs : Text) {ys : Text} (h : ys ≠ []) :
    endsInDirectorySeparator (xs ++ ys) = endsInDirectorySeparator ys := by
  unfold endsInDirectorySeparator
  rw [List.getLast?_append_of_ne_nil xs h]

theorem endsInDirectorySeparator_iff :
    endsInDirectorySeparator path = true ↔ ∃ front, path = front ++ [SLASH] := by
  unfold endsInDirectorySeparator
  rw [decide_eq_true_eq, List.getLast?_eq_some_iff]

theorem isPathRooted_append {xs : Text} (h : xs ≠ []) (ys : Text) :
    isPathRooted (xs ++ ys) = isPathRooted xs := by
  have ⟨c, rest, hxs⟩ := List.exists_cons_of_ne_nil h
  rw [hxs]
  rfl

/-! ### Spelled directories -/

theorem segments_pathText (hnames : ∀ name ∈ names, IsName name) :
    segments (pathText names) = [] :: names := by
  by_cases hne : names = []
  · rw [hne]
    rfl
  · rw [LocalStorageProvider.pathText_eq hne]
    show segments ([] ++ SLASH :: _) = _
    rw [segments_append]
    have hsplit : segments ([SLASH].intercalate names) = names :=
      List.splitOn_intercalate SLASH (fun name hmem => (hnames name hmem).slash_not_mem) hne
    rw [hsplit]
    rfl

theorem enter_nil (directory : List Text) : enter directory [] = directory :=
  if_pos (.inl rfl)

theorem foldl_names (hnames : ∀ name ∈ names, IsName name) (directory : List Text) :
    names.foldl enter directory = directory ++ names := by
  rw [LocalStorageProvider.foldl_enter fun name hmem => (hnames name hmem).not_dots,
    List.filter_eq_self.mpr fun name hmem => (hnames name hmem).stays]

/-- A spelled directory, taken apart, is the directory. -/
theorem getFullPath_segments_spell (hnames : ∀ name ∈ names, IsName name) (trailing : Bool) :
    LocalStorageProvider.getFullPath (segments (spell names trailing)) = names := by
  unfold LocalStorageProvider.getFullPath spell
  by_cases hne : names = []
  · rw [if_pos hne, hne]
    rfl
  · rw [if_neg hne]
    cases trailing with
    | false =>
      show (segments (pathText names ++ [])).foldl enter [] = names
      rw [List.append_nil, segments_pathText hnames, List.foldl_cons, enter_nil,
        foldl_names hnames, List.nil_append]
    | true =>
      show (segments (pathText names ++ SLASH :: [])).foldl enter [] = names
      rw [segments_append, segments_pathText hnames, List.foldl_append, List.foldl_cons,
        enter_nil, foldl_names hnames, List.nil_append]
      exact enter_nil names

/-- The names of a directory end in no separator. -/
theorem pathText_ne_concat (hnames : ∀ name ∈ names, IsName name) (front : Text) :
    pathText names ≠ front ++ [SLASH] := by
  intro h
  cases List.eq_nil_or_concat names with
  | inl hnil =>
    rw [hnil] at h
    exact absurd h.symm (by simp [pathText])
  | inr hlast =>
    have ⟨parent, name, hparent⟩ := hlast
    have hname := hnames name (by rw [hparent]; simp)
    have htext : pathText names = pathText parent ++ SLASH :: name := by
      rw [hparent, List.concat_eq_append, LocalStorageProvider.pathText_append]
      simp [pathText]
    -- the last unit is one of the name
    have hend := congrArg List.getLast? (htext.symm.trans h)
    rw [List.getLast?_append_of_ne_nil _ (List.cons_ne_nil _ _),
      List.getLast?_cons_of_ne_nil hname.not_nil, List.getLast?_concat] at hend
    exact hname.slash_not_mem (List.mem_of_getLast? hend)

theorem spell_eq (names : List Text) (trailing : Bool) : spell names trailing =
    pathText names ++ if names = [] ∨ trailing = true then [SLASH] else [] := by
  unfold spell
  by_cases hne : names = []
  · rw [if_pos hne, if_pos (.inl hne), hne]
    rfl
  · simp only [hne, if_false, false_or]

/-! ### One directory's text in front of another's -/

/-- Next to the directory, under a name that goes on where the directory's ends. -/
def Sibling (directory names : List Text) : Prop :=
  ∃ parent name more rest, directory = parent ++ [name] ∧ more ≠ [] ∧
    names = parent ++ (name ++ more) :: rest

/-- What follows a first part, joined. -/
theorem intercalate_cons (first : Text) (rest : List Text) :
    ∃ tail, [SLASH].intercalate (first :: rest) = first ++ tail ∧
      (tail = [] ∨ ∃ later, tail = SLASH :: later) := by
  by_cases hrest : rest = []
  · refine ⟨[], ?_, .inl rfl⟩
    rw [hrest, List.intercalate_singleton, List.append_nil]
  · refine ⟨SLASH :: [SLASH].intercalate rest, ?_, .inr ⟨_, rfl⟩⟩
    rw [List.intercalate_cons_of_ne_nil hrest]
    simp

/-- A name with more of it than a segment takes is the start of a longer segment. -/
theorem exists_more {name first tail more : Text} {c : UInt16} (hslash : SLASH ∉ name)
    (hc : c ≠ SLASH) (htail : tail = [] ∨ ∃ later, tail = SLASH :: later)
    (h : name ++ c :: more = first ++ tail) : ∃ extra, extra ≠ [] ∧ first = name ++ extra := by
  have hname : name <+: first ++ tail := ⟨c :: more, h⟩
  cases List.prefix_or_prefix_of_prefix hname (List.prefix_append first tail) with
  | inl hbegins =>
    have ⟨extra, hextra⟩ := hbegins
    refine ⟨extra, fun hnil => ?_, hextra.symm⟩
    rw [← hextra, hnil, List.append_nil, List.append_cancel_left_eq] at h
    cases htail with
    | inl hempty => rw [hempty] at h; cases h
    | inr hmore =>
      have ⟨later, hlater⟩ := hmore
      rw [hlater] at h
      exact hc (List.cons.inj h).1
  | inr hbegins =>
    have ⟨extra, hextra⟩ := hbegins
    rw [← hextra, List.append_assoc, List.append_cancel_left_eq] at h
    cases htail with
    | inl hempty =>
      rw [hempty] at h
      exact absurd h (by simp)
    | inr hmore =>
      have ⟨later, hlater⟩ := hmore
      rw [hlater] at h
      cases extra with
      | nil => exact absurd (List.cons.inj h).1 hc
      | cons d extra =>
        have hd : d = SLASH := (List.cons.inj h).1
        rw [← hextra, hd] at hslash
        exact absurd (by simp) hslash

variable {directory : List Text}

theorem pathText_injective (hdirectory : ∀ name ∈ directory, IsName name)
    (hnames : ∀ name ∈ names, IsName name) (h : pathText directory = pathText names) :
    directory = names := by
  have hsegments := congrArg segments h
  rw [segments_pathText hdirectory, segments_pathText hnames] at hsegments
  exact (List.cons.inj hsegments).2

theorem pathText_separator_prefix_iff (hdirectory : ∀ name ∈ directory, IsName name)
    (hnames : ∀ name ∈ names, IsName name) :
    pathText directory ++ [SLASH] <+: pathText names ↔ directory <+: names ∧ directory ≠ names := by
  constructor
  · intro ⟨rest, hrest⟩
    have htext : pathText names = pathText directory ++ SLASH :: rest := by
      rw [← hrest, List.append_assoc]
      rfl
    have ⟨more, hmore, hne, _⟩ := LocalStorageProvider.exists_of_pathText_eq
      (fun name hmem => (hdirectory name hmem).slash_not_mem)
      (fun name hmem => (hnames name hmem).slash_not_mem) htext
    refine ⟨⟨more, hmore.symm⟩, fun hsame => hne ?_⟩
    rw [← hsame] at hmore
    exact List.append_cancel_left (hmore.symm.trans (List.append_nil _).symm)
  · intro ⟨hbegins, hne⟩
    have ⟨more, hmore⟩ := hbegins
    have hrest : more ≠ [] := fun hnil => hne (by rw [← hmore, hnil, List.append_nil])
    rw [← hmore, LocalStorageProvider.pathText_append, LocalStorageProvider.pathText_eq hrest]
    exact (List.prefix_append_right_inj _).mpr ⟨_, rfl⟩

theorem pathText_prefix_iff (hdirectory : ∀ name ∈ directory, IsName name)
    (hnames : ∀ name ∈ names, IsName name) :
    pathText directory <+: pathText names ↔ directory <+: names ∨ Sibling directory names := by
  constructor
  · intro ⟨rest, hrest⟩
    cases rest with
    | nil =>
      left
      rw [List.append_nil] at hrest
      exact pathText_injective hdirectory hnames hrest ▸ List.prefix_rfl
    | cons c more =>
      by_cases hc : c = SLASH
      · left
        rw [hc] at hrest
        have hseparated : pathText directory ++ [SLASH] <+: pathText names :=
          ⟨more, by rw [← hrest, List.append_assoc]; rfl⟩
        exact ((pathText_separator_prefix_iff hdirectory hnames).mp hseparated).1
      · right
        cases List.eq_nil_or_concat directory with
        | inl hnil =>
          rw [hnil] at hrest
          cases names with
          | nil => cases hrest
          | cons first others => exact absurd (List.cons.inj hrest).1 hc
        | inr hlast =>
          have ⟨parent, name, hparent⟩ := hlast
          rw [List.concat_eq_append] at hparent
          have htext : pathText names = pathText parent ++ SLASH :: (name ++ c :: more) := by
            rw [← hrest, hparent, LocalStorageProvider.pathText_append]
            simp [pathText]
          have ⟨later, hlater, hne, hjoined⟩ := LocalStorageProvider.exists_of_pathText_eq
            (fun name hmem => (hdirectory name (by rw [hparent]; simp [hmem])).slash_not_mem)
            (fun name hmem => (hnames name hmem).slash_not_mem) htext
          have ⟨first, others, hfirst⟩ := List.exists_cons_of_ne_nil hne
          have ⟨tail, htail, hshape⟩ := intercalate_cons first others
          rw [hfirst, htail] at hjoined
          have hname := hdirectory name (by rw [hparent]; simp)
          have ⟨extra, hextra, hlonger⟩ := exists_more hname.slash_not_mem hc hshape hjoined
          exact ⟨parent, name, extra, others, hparent, hextra, by rw [hlater, hfirst, hlonger]⟩
  · intro h
    cases h with
    | inl hbegins =>
      have ⟨more, hmore⟩ := hbegins
      rw [← hmore, LocalStorageProvider.pathText_append]
      exact List.prefix_append _ _
    | inr hsibling =>
      have ⟨parent, name, more, rest, hparent, _, hlonger⟩ := hsibling
      rw [hparent, hlonger, LocalStorageProvider.pathText_append,
        LocalStorageProvider.pathText_append]
      refine (List.prefix_append_right_inj _).mpr ⟨more ++ pathText rest, ?_⟩
      simp [pathText]

theorem not_prefix_of_sibling {directory : List Text} (h : Sibling directory names) :
    ¬directory <+: names := by
  have ⟨parent, name, more, rest, hparent, hmore, hlonger⟩ := h
  rw [hparent, hlonger, List.prefix_append_right_inj, List.cons_prefix_cons]
  intro hsame
  exact hmore (List.append_cancel_left (hsame.1.symm.trans (List.append_nil _).symm))

theorem not_sibling_nil : ¬Sibling [] names := by
  intro ⟨parent, name, _, _, hparent, _⟩
  exact absurd hparent.symm (by simp)

/-- One spelling starts with the other below the directory, at the directory where that leaves no
separator over, and, where the directory has none at its end, next to it. -/
theorem spell_prefix_iff (hdirectory : ∀ name ∈ directory, IsName name)
    (hnames : ∀ name ∈ names, IsName name) (trailing trailing' : Bool) :
    spell directory trailing <+: spell names trailing' ↔
      (directory <+: names ∧ directory ≠ names) ∨
      (directory = names ∧ (trailing = false ∨ directory = [] ∨ trailing' = true)) ∨
      (trailing = false ∧ Sibling directory names) := by
  have hseparator := pathText_separator_prefix_iff hdirectory hnames
  have hplain := pathText_prefix_iff hdirectory hnames
  rw [spell_eq directory, spell_eq names]
  by_cases hend : directory = [] ∨ trailing = true
  · -- the base ends in a separator, so only names can follow
    have hsibling : ¬(trailing = false ∧ Sibling directory names) := by
      intro ⟨hnot, hnext⟩
      cases hend with
      | inl hnil => exact not_sibling_nil (hnil ▸ hnext)
      | inr htrailing => exact absurd (htrailing.symm.trans hnot) Bool.noConfusion
    rw [if_pos hend, or_iff_left hsibling]
    by_cases hend' : names = [] ∨ trailing' = true
    · rw [if_pos hend', List.prefix_concat_iff, hseparator, List.append_cancel_right_eq, or_comm]
      refine or_congr_right ⟨fun h => ?_, fun h => congrArg pathText h.1⟩
      have hsame := pathText_injective hdirectory hnames h
      exact ⟨hsame, .inr (hsame ▸ hend')⟩
    · rw [if_neg hend', List.append_nil, hseparator]
      refine (or_iff_left fun h => ?_).symm
      have ⟨hsame, hkind⟩ := h
      rw [hsame] at hkind hend
      cases hkind with
      | inl hnot =>
        cases hend with
        | inl hnil => exact hend' (.inl hnil)
        | inr htrailing => exact absurd (htrailing.symm.trans hnot) Bool.noConfusion
      | inr hkind => exact hend' hkind
  · have hfalse : trailing = false := Bool.eq_false_iff.mpr fun h => hend (.inr h)
    have htext : pathText directory <+: (pathText names ++
        if names = [] ∨ trailing' = true then [SLASH] else []) ↔
          pathText directory <+: pathText names := by
      by_cases hend' : names = [] ∨ trailing' = true
      · rw [if_pos hend', List.prefix_concat_iff]
        exact or_iff_right (pathText_ne_concat hdirectory _)
      · rw [if_neg hend', List.append_nil]
    rw [if_neg hend, List.append_nil, htext, hplain]
    simp only [hfalse, true_or, and_true, true_and]
    by_cases hsame : directory = names
    · simp [hsame]
    · simp [hsame]

/-! ### Full paths -/

theorem isName_directoryOf (hnul : NUL ∉ path) :
    ∀ name ∈ directoryOf workingDirectory path, IsName name := by
  unfold directoryOf
  refine LocalStorageProvider.isName_of_mem_foldl_enter
    (LocalStorageProvider.slash_nul_not_mem_segments hnul) ?_
  split
  · exact fun _ hmem => absurd hmem List.not_mem_nil
  · exact workingDirectory.isName

theorem combine_spell (hnames : ∀ name ∈ names, IsName name) (hne : path ≠ [])
    (hrooted : isPathRooted path = false) :
    combine (spell names false) path = pathText names ++ SLASH :: path := by
  unfold combine
  by_cases hnil : names = []
  · have hroot : spell [] false ≠ [] := List.cons_ne_nil _ _
    rw [hnil, if_neg hroot, if_neg hne, hrooted]
    rfl
  · have hspelled : spell names false = pathText names := by
      unfold spell
      rw [if_neg hnil]
      exact List.append_nil _
    have hstart : pathText names ≠ [] := by
      rw [LocalStorageProvider.pathText_eq hnil]
      exact List.cons_ne_nil _ _
    have hend : endsInDirectorySeparator (pathText names) = false := by
      rw [Bool.eq_false_iff, Ne, endsInDirectorySeparator_iff, not_exists]
      exact pathText_ne_concat hnames
    rw [hspelled, if_neg hstart, if_neg hne, hrooted, hend]
    rfl

theorem getFullPath_eq (hne : path ≠ []) (hnul : NUL ∉ path) :
    getFullPath workingDirectory path =
      some (spell (directoryOf workingDirectory path) (endsInDirectorySeparator path)) := by
  unfold getFullPath directoryOf
  rw [if_neg (not_or.mpr ⟨hne, hnul⟩)]
  by_cases hrooted : isPathRooted path = true
  · simp only [hrooted, if_true]
    rfl
  · have hcombined := combine_spell workingDirectory.isName hne (Bool.eq_false_iff.mpr hrooted)
    simp only [hrooted, if_false, Bool.false_eq_true, hcombined]
    have hdirectory : (segments (pathText workingDirectory.segments ++ SLASH :: path)).foldl
        enter [] = (segments path).foldl enter workingDirectory.segments := by
      rw [segments_append, segments_pathText workingDirectory.isName, List.foldl_append,
        List.foldl_cons, enter_nil, foldl_names workingDirectory.isName, List.nil_append]
    have hend : endsInDirectorySeparator (pathText workingDirectory.segments ++ SLASH :: path) =
        endsInDirectorySeparator path :=
      (endsInDirectorySeparator_append _ (List.cons_ne_nil _ _)).trans
        (endsInDirectorySeparator_append [SLASH] hne)
    rw [LocalStorageProvider.getFullPath, hdirectory, hend]

/-- Where a combined path leads: from the root, or from the first path's directory. -/
def target (workingDirectory : BaseDirectory) (path1 path2 : Text) : List Text :=
  (segments path2).foldl enter
    (if isPathRooted path2 then [] else directoryOf workingDirectory path1)

theorem directoryOf_combine (hne : path1 ≠ []) :
    directoryOf workingDirectory (combine path1 path2) = target workingDirectory path1 path2 := by
  unfold combine target
  rw [if_neg hne]
  split
  · rename_i hnil
    rw [hnil]
    exact (enter_nil _).symm
  · split
    · rename_i hrooted
      unfold directoryOf
      rw [if_pos hrooted]
    · unfold directoryOf
      split
      · rename_i hend
        have ⟨front, hfront⟩ := endsInDirectorySeparator_iff.mp hend
        -- the empty segment behind the separator is dropped
        have hcombined : segments (path1 ++ path2) = segments front ++ segments path2 := by
          rw [hfront, List.append_assoc]
          exact segments_append front path2
        have hpath : segments path1 = segments front ++ [[]] := by
          rw [hfront]
          exact segments_append front []
        rw [isPathRooted_append hne, hcombined, hpath, List.foldl_append, List.foldl_append]
        exact congrArg (fun d => (segments path2).foldl enter d) (enter_nil _).symm
      · rw [isPathRooted_append hne, segments_append, List.foldl_append]

theorem endsInDirectorySeparator_combine (hne : path1 ≠ []) :
    endsInDirectorySeparator (combine path1 path2) =
      if path2 = [] then endsInDirectorySeparator path1 else endsInDirectorySeparator path2 := by
  unfold combine
  rw [if_neg hne]
  split
  · rfl
  · rename_i hpath2
    split
    · rfl
    · split
      · exact endsInDirectorySeparator_append _ hpath2
      · exact (endsInDirectorySeparator_append _ (List.cons_ne_nil _ _)).trans
          (endsInDirectorySeparator_append [SLASH] hpath2)

theorem combine_ne_nil (hne : path1 ≠ []) : combine path1 path2 ≠ [] := by
  unfold combine
  rw [if_neg hne]
  split
  · exact hne
  · rename_i hpath2
    split
    · exact hpath2
    · split
      · exact List.append_ne_nil_of_left_ne_nil hne _
      · exact List.append_ne_nil_of_left_ne_nil hne _

/-- A NUL of the second path is one of the combined path. -/
theorem nul_mem_combine_iff (hnul1 : NUL ∉ path1) : NUL ∈ combine path1 path2 ↔ NUL ∈ path2 := by
  have hslash : NUL ≠ SLASH := by decide
  unfold combine
  split
  · rfl
  · split
    · rename_i hnil
      rw [hnil]
      exact iff_of_false hnul1 List.not_mem_nil
    · split
      · rfl
      · split
        · rw [List.mem_append, or_iff_right hnul1]
        · rw [List.mem_append, or_iff_right hnul1, List.mem_cons, or_iff_right hslash]

end

end UnixPath

/-! ## Where a key leads -/

namespace LocalStorageOptions

open UnixPath

section

variable (workingDirectory : BaseDirectory) (options : LocalStorageOptions) (key : Text)

def baseDirectory : List Text :=
  directoryOf workingDirectory options.basePath

/-- Below the directory, not the directory itself. -/
def IsStrictlyInside (directory : List Text) (filePath : Text) : Prop :=
  ∃ names, names ≠ [] ∧
    LocalStorageProvider.getFullPath (segments filePath) = directory ++ names

/-- The paths of the two are valid. -/
structure IsUsable : Prop where
  base_ne_nil : options.basePath ≠ []
  nul_not_mem_base : NUL ∉ options.basePath
  nul_not_mem_key : NUL ∉ key

/-- The key leads to the base directory itself, unless the base path ends in a separator that the
key does not repeat, or to a sibling whose name starts with the name of the base directory, unless
the base path ends in a separator. -/
def Strays : Prop :=
  (target workingDirectory options.basePath key = options.baseDirectory workingDirectory ∧
    (endsInDirectorySeparator options.basePath = false ∨
      options.baseDirectory workingDirectory = [] ∨ key = [] ∨
      endsInDirectorySeparator key = true)) ∨
  (endsInDirectorySeparator options.basePath = false ∧
    Sibling (options.baseDirectory workingDirectory)
      (target workingDirectory options.basePath key))

variable {workingDirectory options key}

theorem getFilePath_of_not_usable (h : ¬options.IsUsable key) :
    options.getFilePath workingDirectory key = none := by
  unfold getFilePath
  by_cases hbase : options.basePath = [] ∨ NUL ∈ options.basePath
  · have hnone : UnixPath.getFullPath workingDirectory options.basePath = none := if_pos hbase
    rw [hnone]
    split
    · rename_i hsome
      cases hsome
    · rfl
  · rw [not_or] at hbase
    have hkey : NUL ∈ key := by
      by_contra hnul
      exact h ⟨hbase.1, hbase.2, hnul⟩
    have hnone : UnixPath.getFullPath workingDirectory (combine options.basePath key) = none :=
      if_pos (.inr ((nul_mem_combine_iff hbase.2).mpr hkey))
    rw [hnone]

theorem isName_target (h : options.IsUsable key) :
    ∀ name ∈ target workingDirectory options.basePath key, IsName name := by
  rw [← directoryOf_combine h.base_ne_nil]
  exact isName_directoryOf (mt (nul_mem_combine_iff h.nul_not_mem_base).mp h.nul_not_mem_key)

theorem getFilePath_eq (h : options.IsUsable key) :
    options.getFilePath workingDirectory key =
      if spell (options.baseDirectory workingDirectory)
          (endsInDirectorySeparator options.basePath) <+:
        spell (target workingDirectory options.basePath key)
          (if key = [] then endsInDirectorySeparator options.basePath
          else endsInDirectorySeparator key)
      then some (spell (target workingDirectory options.basePath key)
        (if key = [] then endsInDirectorySeparator options.basePath
        else endsInDirectorySeparator key))
      else none := by
  have hfile := @getFullPath_eq workingDirectory _ (@combine_ne_nil _ key h.base_ne_nil)
    (mt (nul_mem_combine_iff h.nul_not_mem_base).mp h.nul_not_mem_key)
  have hbase := @getFullPath_eq workingDirectory _ h.base_ne_nil h.nul_not_mem_base
  rw [directoryOf_combine h.base_ne_nil, endsInDirectorySeparator_combine h.base_ne_nil] at hfile
  unfold getFilePath
  rw [hfile, hbase]
  simp only [List.isPrefixOf_iff_prefix]
  rfl

/-- What is returned is the target, which the base directory's text starts. -/
theorem isStrictlyInside_spell_iff {directory names : List Text}
    (hnames : ∀ name ∈ names, IsName name) (trailing : Bool) :
    IsStrictlyInside directory (spell names trailing) ↔
      directory <+: names ∧ directory ≠ names := by
  unfold IsStrictlyInside
  rw [getFullPath_segments_spell hnames]
  constructor
  · intro ⟨more, hne, hmore⟩
    refine ⟨⟨more, hmore.symm⟩, fun hsame => hne ?_⟩
    rw [← hsame] at hmore
    exact List.append_cancel_left (hmore.symm.trans (List.append_nil _).symm)
  · intro ⟨⟨more, hmore⟩, hne⟩
    exact ⟨more, fun hnil => hne (by rw [← hmore, hnil, List.append_nil]), hmore.symm⟩

theorem strays_iff : options.Strays workingDirectory key ↔
    (options.baseDirectory workingDirectory = target workingDirectory options.basePath key ∧
      (endsInDirectorySeparator options.basePath = false ∨
        options.baseDirectory workingDirectory = [] ∨
        (if key = [] then endsInDirectorySeparator options.basePath
          else endsInDirectorySeparator key) = true)) ∨
    (endsInDirectorySeparator options.basePath = false ∧
      Sibling (options.baseDirectory workingDirectory)
        (target workingDirectory options.basePath key)) := by
  unfold Strays
  refine or_congr_left ?_
  rw [eq_comm]
  refine and_congr_right fun _ => ?_
  by_cases hkey : key = []
  · rw [if_pos hkey]
    cases endsInDirectorySeparator options.basePath with
    | false => simp
    | true => simp [hkey]
  · simp [hkey]

/-- A key is thrown back or leads into the base directory exactly when it does not stray. -/
theorem inside_iff (workingDirectory : BaseDirectory) (options : LocalStorageOptions)
    (key : Text) : (∀ filePath, options.getFilePath workingDirectory key = some filePath →
      IsStrictlyInside (options.baseDirectory workingDirectory) filePath) ↔
    ¬(options.IsUsable key ∧ options.Strays workingDirectory key) := by
  by_cases husable : options.IsUsable key
  · have hnames := @isName_target workingDirectory _ _ husable
    have hbase : ∀ name ∈ options.baseDirectory workingDirectory, IsName name :=
      isName_directoryOf husable.nul_not_mem_base
    have hbegins := spell_prefix_iff hbase hnames (endsInDirectorySeparator options.basePath)
      (if key = [] then endsInDirectorySeparator options.basePath
        else endsInDirectorySeparator key)
    rw [← strays_iff] at hbegins
    rw [getFilePath_eq husable]
    simp only [Option.ite_none_right_eq_some, Option.some.injEq, and_imp, husable, true_and,
      hbegins]
    constructor
    · intro hinside hstrays
      have hin := (isStrictlyInside_spell_iff hnames _).mp (hinside _ (.inr hstrays) rfl)
      cases hstrays with
      | inl hself => exact hin.2 hself.1.symm
      | inr hsibling => exact not_prefix_of_sibling hsibling.2 hin.1
    · intro hnot filePath hstart hpath
      rw [← hpath]
      exact (isStrictlyInside_spell_iff hnames _).mpr (hstart.resolve_right hnot)
  · rw [getFilePath_of_not_usable husable]
    exact iff_of_true (fun _ h => nomatch h) fun h => husable h.1

/-! ## The keys of accepted requests -/

variable {unicode : UnicodeTables} {tenantId fileId : Guid} {bucketName extension : Text}
  {path : Option Text}

def tenantFolder (tenantId : Guid) (bucketName : Text) : List Text :=
  [TENANT_KEY_PREFIX ++ guidText tenantId, bucketName]

theorem target_buildStorageKey (hbucket : CreateBucketValidator.isNameValid bucketName = true)
    (hpath : (path.map (UploadFileValidator.containsPathTraversal unicode)).getD false = false)
    (hextension : SLASH ∉ extension) : target workingDirectory options.basePath
        (buildStorageKey tenantId bucketName path fileId extension) =
      options.baseDirectory workingDirectory ++ tenantFolder tenantId bucketName ++
        ((folderSegments path).filter stays ++ [guidText fileId ++ extension]) := by
  unfold target
  have hrooted : isPathRooted (buildStorageKey tenantId bucketName path fileId extension) =
      false := isRelative_buildStorageKey
  rw [hrooted, if_neg Bool.false_ne_true, LocalStorageProvider.foldl_enter
    (not_dots_of_mem_buildStorageKey hbucket hpath hextension),
    filter_segments_buildStorageKey hbucket hextension, List.append_assoc]
  rfl

/-- The file of an accepted request is in the folder of its tenant and bucket. -/
theorem inside_tenantFolder (hbucket : CreateBucketValidator.isNameValid bucketName = true)
    (hpath : (path.map (UploadFileValidator.containsPathTraversal unicode)).getD false = false)
    (hextension : SLASH ∉ extension)
    (husable : options.IsUsable (buildStorageKey tenantId bucketName path fileId extension)) :
    ∃ filePath, options.getFilePath workingDirectory
        (buildStorageKey tenantId bucketName path fileId extension) = some filePath ∧
      IsStrictlyInside (options.baseDirectory workingDirectory ++
        tenantFolder tenantId bucketName) filePath := by
  have htarget := @target_buildStorageKey workingDirectory options unicode tenantId fileId
    bucketName extension path hbucket hpath hextension
  have hnames := @isName_target workingDirectory _ _ husable
  have hbase : ∀ name ∈ options.baseDirectory workingDirectory, IsName name :=
    isName_directoryOf husable.nul_not_mem_base
  have hlast : (folderSegments path).filter stays ++ [guidText fileId ++ extension] ≠ [] :=
    List.append_ne_nil_of_right_ne_nil _ (List.cons_ne_nil _ _)
  have hbelow : options.baseDirectory workingDirectory <+:
      target workingDirectory options.basePath
        (buildStorageKey tenantId bucketName path fileId extension) ∧
      options.baseDirectory workingDirectory ≠ target workingDirectory options.basePath
        (buildStorageKey tenantId bucketName path fileId extension) := by
    rw [htarget, List.append_assoc]
    refine ⟨List.prefix_append _ _, fun hsame => ?_⟩
    have hnil := List.append_cancel_left ((List.append_nil _).trans hsame)
    exact absurd hnil (List.cons_ne_nil _ _).symm
  refine ⟨_, (getFilePath_eq husable).trans (if_pos ?_), ?_⟩
  · exact (spell_prefix_iff hbase hnames _ _).mpr (.inl hbelow)
  · rw [isStrictlyInside_spell_iff hnames, htarget]
    refine ⟨List.prefix_append _ _, fun hsame => hlast ?_⟩
    exact (List.append_cancel_left ((List.append_nil _).trans hsame)).symm

theorem inside_of_built (hbucket : CreateBucketValidator.isNameValid bucketName = true)
    (hpath : (path.map (UploadFileValidator.containsPathTraversal unicode)).getD false = false)
    (hextension : SLASH ∉ extension) {filePath : Text}
    (h : options.getFilePath workingDirectory
      (buildStorageKey tenantId bucketName path fileId extension) = some filePath) :
    IsStrictlyInside (options.baseDirectory workingDirectory ++
      tenantFolder tenantId bucketName) filePath := by
  have husable : options.IsUsable (buildStorageKey tenantId bucketName path fileId extension) := by
    by_contra hnot
    rw [getFilePath_of_not_usable hnot] at h
    cases h
  have ⟨filePath', hsome, hinside⟩ := @inside_tenantFolder workingDirectory options unicode tenantId
    fileId bucketName extension path hbucket hpath hextension husable
  rw [h] at hsome
  exact Option.some.inj hsome ▸ hinside

def sampleOptions : LocalStorageOptions := ⟨text "/var/wallow/storage"⟩

def rootDirectory : BaseDirectory := ⟨[], fun _ hmem => absurd hmem List.not_mem_nil⟩

def sampleCommand : UploadFileCommand :=
  ⟨7, 5, text "files", text "note.txt", text "text/plain",
    ReadStream.Stream.opened [0x68, 0x69], 2, some (text "a/./b"), false, none⟩

end

end LocalStorageOptions

end Wallow.Storage
