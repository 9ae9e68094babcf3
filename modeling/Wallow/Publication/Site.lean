import Mathlib.Data.List.Dedup
import Mathlib.Data.List.Sort
import Wallow.Publication.BoundedArchive

/-!
# The site archive

`prepare_site` of `publication_site.py` packs the files of a checked archive anew.  Names are bytes:
the order of UTF-8 texts is the order of their bytes, and a slash, a dot or a control character is
one byte.  A tar file that is written is the members that were added; the bytes `tarfile` makes of
them, `image`, are a parameter.
-/

namespace Wallow.Publication.Site

open Tar

def slash : UInt8 := 0x2F

/-- The root directory. -/
def dot : Bytes := [0x2E]

def dotSlash : Bytes := [0x2E, 0x2F]

def indexHtml : Bytes := [0x69, 0x6E, 0x64, 0x65, 0x78, 0x2E, 0x68, 0x74, 0x6D, 0x6C]

/-! ## Names -/

def parts (name : Bytes) : List Bytes := name.splitOn slash

/-- `'/'.join(parts[:length])` for every length but the whole. -/
def parents (name : Bytes) : List Bytes :=
  (List.range' 1 ((parts name).length - 1)).map fun length =>
    [slash].intercalate ((parts name).take length)

def withoutDotSlash (name : Bytes) : Bytes := if dotSlash <+: name then name.drop 2 else name

/-- The member is the root directory. -/
def isRoot (m : Member) : Bool := withoutDotSlash m.info.name ∈ [[], dot] ∧ m.info.isdir

/-- The name a member is entered under. -/
def memberPath (m : Member) : Bytes :=
  if m.info.isdir then removeSlash (withoutDotSlash m.info.name) else withoutDotSlash m.info.name

def unsafeName (name : Bytes) : Bool :=
  name = [] ∨ 4096 < name.length ∨ (parts name).any (· ∈ [[], dot, [0x2E, 0x2E]]) ∨ 0x5C ∈ name ∨
    0x3A ∈ name ∨ name.any fun b => b < 0x20 ∨ b = 0x7F

/-! ## The entries -/

/-- The dictionary of the members, in the order they came in. -/
abbrev Entries := List (Bytes × Member)

def readEntries (limit : Int) : Entries → Bool → List Member → Except Caught Entries
  | entries, _, [] => .ok entries
  | entries, rootSeen, member :: rest =>
    if 100000 ≤ entries.length then .error (.publication "Site has too many members")
    else if isRoot member then
      if rootSeen ∨ member.info.size ≠ 0 then
        .error (.publication "Site contains an invalid or duplicate root directory")
      else readEntries limit entries true rest
    else if memberPath member ≠ [] ∧ validUtf8 (memberPath member) = false then
      .error (.tar .unicode)
    else if unsafeName (memberPath member) ∨ entries.any (·.1 = memberPath member) ∨
        member.info.type ∉ plainTypes ∨ member.info.size < 0 ∨ limit < member.info.size ∨
        (member.info.isdir ∧ member.info.size ≠ 0) then
      .error (.publication "Site contains an unsafe or duplicate member")
    else readEntries limit (entries ++ [(memberPath member, member)]) rootSeen rest

/-- The entries of an archive that passes the checks. -/
def siteEntries (limit : Int) (raw : Bytes) : Except Caught Entries :=
  match readEntries limit [] false (members raw).1 with
  | .error error => .error error
  | .ok entries =>
    match (members raw).2 with
    | some failure => .error (.tar failure)
    | none =>
      if !entries.any (fun e => e.1 = indexHtml ∧ e.2.info.isreg) then
        .error (.publication "Site requires a regular root index.html")
      else if entries.any (fun e => (parents e.1).any fun p =>
          entries.any fun parent => parent.1 = p ∧ !parent.2.info.isdir) then
        .error (.publication "Site file conflicts with a parent directory")
      else .ok entries

/-! ## What is written -/

/-- `(name.count('/'), name)` as a sort key. -/
def DirectoryLe (a b : Bytes) : Prop :=
  a.count slash < b.count slash ∨ a.count slash = b.count slash ∧ a ≤ b

instance : DecidableRel DirectoryLe := fun _ _ => inferInstanceAs (Decidable (_ ∨ _ ∧ _))

/-- The root, the directories and the parents of everything. -/
def directories (entries : Entries) : List Bytes :=
  (dot :: entries.flatMap fun e => (if e.2.info.isdir then [e.1] else []) ++ parents e.1).dedup

def sortedDirectories (entries : Entries) : List Bytes :=
  (directories entries).insertionSort DirectoryLe

def sortedFiles (entries : Entries) : Entries :=
  (entries.filter fun e => !e.2.info.isdir).insertionSort fun a b => a.1 ≤ b.1

/-- A member as it is added: a `TarInfo` with the fields that are set, and its data. -/
structure Added where
  name : Bytes
  type : UInt8
  mode : Nat
  data : Bytes
  deriving DecidableEq

def directoryMember (name : Bytes) : Added :=
  ⟨if name = dot then dotSlash else dotSlash ++ name ++ [slash], dirType, 0o755, []⟩

def fileMember (raw : Bytes) (e : Bytes × Member) : Added :=
  ⟨dotSlash ++ e.1, regType, 0o644, e.2.contents raw⟩

def addedMembers (raw : Bytes) (entries : Entries) : List Added :=
  (sortedDirectories entries).map directoryMember ++ (sortedFiles entries).map (fileMember raw)

/-! ## The host -/

/-- What may fail with an `OSError` on the destination. -/
structure Disk where
  creates : Bool
  /-- There is room for these members. -/
  holds : List Added → Bool
  readsBack : Bool

/-- A file: what was there before, or an archive that was written. -/
inductive File
  | other (bytes : Bytes)
  | archive (members : List Added)

structure Call where
  /-- The source is a file and no link. -/
  regularSource : Bool
  stream : GzipStream
  destination : Option File
  limit : Int

structure PreparedFile (δ : Type) where
  path : Bytes
  size : Nat
  sha256 : δ

structure Prepared (δ : Type) where
  sha256 : δ
  size : Nat
  files : List (PreparedFile δ)

/-- The members go into the destination one by one: what stops it, and what was added until then. -/
def writeAll (disk : Disk) : List Added → List Added → Option Caught × List Added
  | written, [] => (none, written)
  | written, member :: rest =>
    if disk.holds (written ++ [member]) then writeAll disk (written ++ [member]) rest
    else (some .os, written)

/-- What becomes of a caught error. -/
def invalidSite : Raised := .caught (.publication "Invalid site archive")

variable {δ : Type} (image : List Added → Bytes) (sha256 : Bytes → δ) (disk : Disk)

/-- The result, and the destination afterwards: what was created is unlinked on every failure. -/
def prepareSite (call : Call) : Except Raised (Prepared δ) × Option File :=
  if call.regularSource = false then
    (.error (.caught (.publication "Site archive must be a regular file")), call.destination)
  else if call.destination.isSome then
    (.error (.caught (.publication "Pages archive destination must be new")), call.destination)
  else
    match boundedTar call.limit 4097 call.stream with
    | .error .zlib => (.error .zlib, none)
    | .error (.caught _) => (.error invalidSite, none)
    | .ok (raw, _) =>
      match siteEntries call.limit raw with
      | .error _ => (.error invalidSite, none)
      | .ok entries =>
        if disk.creates = false then (.error invalidSite, none)
        else
          match writeAll disk [] (addedMembers raw entries) with
          | (some _, _) => (.error invalidSite, none)
          | (none, written) =>
            if disk.readsBack then
              (.ok ⟨sha256 (image written), (image written).length,
                (sortedFiles entries).map fun e =>
                  ⟨e.1, (e.2.contents raw).length, sha256 (e.2.contents raw)⟩⟩,
                some (.archive written))
            else (.error invalidSite, none)

/-! ## What is promised -/

/-- A member of an archive: its path without a leading `./`, its type and its bytes. -/
structure Entry where
  path : Bytes
  type : UInt8
  data : Bytes

def entriesOf (raw : Bytes) : List Entry :=
  (members raw).1.map fun m => ⟨memberPath m, m.info.type, m.contents raw⟩

/-- A directory's name is added with a slash at its end. -/
def Added.entry (a : Added) : Entry :=
  ⟨withoutDotSlash (if a.type = dirType then removeSlash a.name else a.name), a.type, a.data⟩

/-- The paths and bytes of the regular files. -/
def regularFiles (entries : List Entry) : List (Bytes × Bytes) :=
  (entries.filter fun e => e.type ∈ regularTypes).map fun e => (e.path, e.data)

/-- Relative, without empty, dot and dot-dot parts, backslashes, colons and control characters. -/
structure SafePath (path : Bytes) : Prop where
  parts : ∀ part ∈ parts path, part ≠ [] ∧ part ≠ dot ∧ part ≠ [0x2E, 0x2E]
  bytes : ∀ b ∈ path, b ≠ 0x5C ∧ b ≠ 0x3A ∧ 0x20 ≤ b ∧ b ≠ 0x7F

/-- The output has the files of the input, and before each member its parent directories. -/
structure Repackaged (input output : List Entry) : Prop where
  files : (regularFiles output).Perm (regularFiles input)
  once : (output.map Entry.path).Nodup
  kinds : ∀ e ∈ output, e.type = regType ∨ e.type = dirType
  names : ∀ e ∈ output, SafePath e.path ∨ e.path = dot ∧ e.type = dirType
  parents : ∀ before e after, output = before ++ e :: after → e.path ≠ dot →
    ∀ p ∈ dot :: parents e.path, ∃ d ∈ before, d.path = p ∧ d.type = dirType

/-- All or nothing. -/
def KeepsPromise (call : Call) : Prop :=
  (∃ message, (prepareSite image sha256 disk call).1 = .error (.caught (.publication message)) ∧
    (prepareSite image sha256 disk call).2 = call.destination) ∨
  ∃ prepared added, prepareSite image sha256 disk call = (.ok prepared, some (.archive added)) ∧
    Repackaged (entriesOf call.stream.bytes) (added.map Added.entry)

/-- The rules of the header pass hold of the very members the reader yields. -/
def ReadersAgree (raw : Bytes) (checked : List Checked) : Prop :=
  (∀ c ∈ checked, Admitted raw 4097 c) ∧
    (members raw).1.map (fun m => (m.info.type, m.info.size, m.offsetData)) =
      (checked.filter (·.info.type ≠ gnuLongName)).map
        fun c => (c.info.type, c.info.size, c.offset + blockSize)

/-- No top-level directory, be it a member or only a parent of one, sorts before the root. -/
def RootFirst (ms : List Member) : Prop :=
  ∀ m ∈ ms, isRoot m = false → ∀ d, (m.info.isdir = true ∧ d = memberPath m) ∨
    d ∈ parents (memberPath m) → slash ∉ d → dot ≤ d

/-- Where the call gets to the archive, its compressed data is not damaged, and if it passes the
checks, its root is sorted first. -/
structure Sound (call : Call) : Prop where
  undamaged : call.regularSource = true → call.destination = none → 0 < call.limit →
    ¬ReachesCorrupt call.limit call.stream
  rootFirst : call.regularSource = true → call.destination = none →
    (boundedTar call.limit 4097 call.stream).isOk = true →
    (siteEntries call.limit call.stream.bytes).isOk = true →
    RootFirst (members call.stream.bytes).1

/-! ## Parents -/

theorem intercalate_append {xs ys : List Bytes} (hx : xs ≠ []) (hy : ys ≠ []) :
    [slash].intercalate (xs ++ ys) =
      [slash].intercalate xs ++ slash :: [slash].intercalate ys := by
  induction xs with
  | nil => exact absurd rfl hx
  | cons x xs ih =>
    cases xs with
    | nil => simp [List.intercalate_cons_of_ne_nil hy]
    | cons x' xs =>
      rw [List.cons_append, List.intercalate_cons_of_ne_nil (by simp), ih (List.cons_ne_nil _ _),
        List.intercalate_cons_of_ne_nil (List.cons_ne_nil _ _)]
      simp

/-- The parents of a path are what stands before its slashes. -/
theorem mem_parents {p name : Bytes} : p ∈ parents name ↔ ∃ rest, name = p ++ slash :: rest := by
  have hjoin : [slash].intercalate (parts name) = name := List.intercalate_splitOn slash
  rw [parents, List.mem_map]
  constructor
  · rintro ⟨k, hk, rfl⟩
    rw [List.mem_range'_1] at hk
    refine ⟨[slash].intercalate ((parts name).drop k), ?_⟩
    rw [← intercalate_append, List.take_append_drop, hjoin]
    · exact List.ne_nil_of_length_pos (by rw [List.length_take]; omega)
    · exact List.ne_nil_of_length_pos (by rw [List.length_drop]; omega)
  · rintro ⟨rest, rfl⟩
    have hparts : parts (p ++ slash :: rest) = parts p ++ parts rest :=
      List.splitOn_append_cons_self p rest
    have hp := List.length_pos_of_ne_nil (List.splitOn_ne_nil slash p)
    have hrest := List.length_pos_of_ne_nil (List.splitOn_ne_nil slash rest)
    refine ⟨(parts p).length, ?_, ?_⟩
    · rw [List.mem_range'_1, hparts, List.length_append]
      unfold parts
      omega
    · rw [hparts, List.take_left]
      exact List.intercalate_splitOn slash

theorem SafePath.of_safeName {name : Bytes} (h : unsafeName name = false) : SafePath name := by
  simp only [unsafeName, decide_eq_false_iff_not, not_or, List.any_eq_true, not_exists, not_and,
    decide_eq_true_eq, List.mem_cons, List.not_mem_nil, or_false] at h
  obtain ⟨_, _, hparts, hback, hcolon, hcontrol⟩ := h
  refine ⟨hparts, fun b hb => ⟨?_, ?_, UInt8.not_lt.mp (hcontrol b hb).1, (hcontrol b hb).2⟩⟩
  · rintro rfl
    exact hback hb
  · rintro rfl
    exact hcolon hb

/-- A parent of a safe path is one. -/
theorem SafePath.parent {p name : Bytes} (h : SafePath name) (hp : p ∈ parents name) :
    SafePath p := by
  obtain ⟨rest, rfl⟩ := mem_parents.mp hp
  have hparts : Site.parts (p ++ slash :: rest) = Site.parts p ++ Site.parts rest :=
    List.splitOn_append_cons_self p rest
  exact ⟨fun part hpart => h.parts part (hparts ▸ List.mem_append_left _ hpart),
    fun b hb => h.bytes b (List.mem_append_left _ hb)⟩

/-- A safe path is not empty, is not the root and does not end with a slash. -/
theorem SafePath.ends {name : Bytes} (h : SafePath name) :
    name ≠ [] ∧ name ≠ dot ∧ name.getLast? ≠ some slash := by
  refine ⟨?_, ?_, ?_⟩
  · rintro rfl
    exact (h.parts [] List.mem_cons_self).1 rfl
  · rintro rfl
    exact (h.parts dot (by decide +kernel)).2.1 rfl
  · intro hlast
    obtain ⟨start, rfl⟩ := List.getLast?_eq_some_iff.mp hlast
    have hparts : Site.parts (start ++ [slash]) = Site.parts start ++ [[]] :=
      List.splitOn_append_cons_self start []
    exact (h.parts [] (hparts ▸ List.mem_append_right _ List.mem_cons_self)).1 rfl

/-! ## Entries that pass the checks -/

/-- What the checks make sure of. -/
structure Checks (raw : Bytes) (entries : Entries) : Prop where
  entries_eq : entries =
    ((members raw).1.filter fun m => !isRoot m).map fun m => (memberPath m, m)
  nodup : (entries.map Prod.fst).Nodup
  safe : ∀ e ∈ entries, unsafeName e.1 = false ∧ e.2.info.type ∈ plainTypes
  parents : ∀ e ∈ entries, ∀ p ∈ parents e.1, ∀ d ∈ entries, d.1 = p → d.2.info.isdir = true

theorem readEntries_ok {limit : Int} {ms : List Member} : ∀ {entries result : Entries} {rootSeen},
    readEntries limit entries rootSeen ms = .ok result →
      result = entries ++ (ms.filter fun m => !isRoot m).map (fun m => (memberPath m, m)) ∧
      ((∀ e ∈ entries, unsafeName e.1 = false ∧ e.2.info.type ∈ plainTypes) →
        ∀ e ∈ result, unsafeName e.1 = false ∧ e.2.info.type ∈ plainTypes) ∧
      ((entries.map Prod.fst).Nodup → (result.map Prod.fst).Nodup) := by
  induction ms with
  | nil =>
    intro entries result rootSeen h
    rw [readEntries] at h
    rw [← Except.ok.inj h]
    exact ⟨(List.append_nil _).symm, id, id⟩
  | cons m ms ih =>
    intro entries result rootSeen h
    rw [readEntries] at h
    split at h
    · cases h
    · split at h
      · rename_i hroot
        split at h
        · cases h
        · rw [List.filter_cons_of_neg (by simp [hroot])]
          exact ih h
      · rename_i hroot
        split at h
        · cases h
        · split at h
          · cases h
          · rename_i hsafe
            have ⟨heq, hall, hnodup⟩ := ih h
            rw [not_or, not_or, not_or] at hsafe
            refine ⟨?_, fun hold => hall fun e he => ?_, fun hold => hnodup ?_⟩
            · rw [heq, List.filter_cons_of_pos (by simpa using hroot), List.map_cons,
                List.append_assoc, List.singleton_append]
            · rcases List.mem_append.mp he with he | he
              · exact hold e he
              · rw [List.mem_singleton.mp he]
                exact ⟨Bool.eq_false_iff.mpr hsafe.1, Decidable.not_not.mp hsafe.2.2.1⟩
            · rw [List.map_append, List.nodup_append]
              refine ⟨hold, List.nodup_singleton _, fun a ha b hb hab => hsafe.2.1 ?_⟩
              have ⟨e, he, hname⟩ := List.mem_map.mp ha
              rw [List.any_eq_true]
              exact ⟨e, he, by simpa [hname, hab] using List.mem_singleton.mp hb⟩

theorem Checks.of_siteEntries {limit : Int} {raw : Bytes} {entries : Entries}
    (h : siteEntries limit raw = .ok entries) : Checks raw entries := by
  rw [siteEntries] at h
  split at h
  · cases h
  · rename_i result hread
    have ⟨heq, hall, hnodup⟩ := readEntries_ok hread
    split at h
    · cases h
    · split at h
      · cases h
      · split at h
        · cases h
        · rename_i hconflict
          have hresult : result = entries := Except.ok.inj h
          subst hresult
          refine ⟨heq, hnodup List.nodup_nil, hall fun e he => absurd he List.not_mem_nil, ?_⟩
          intro e he p hp d hd hname
          apply Decidable.byContradiction
          intro hdir
          apply hconflict
          simp only [List.any_eq_true]
          exact ⟨e, he, p, hp, d, hd, by simpa [hname] using hdir⟩

/-! ## The order of the output -/

instance : Std.Total DirectoryLe where
  total a b := by
    rcases Nat.lt_trichotomy (a.count slash) (b.count slash) with h | h | h
    · exact Or.inl (Or.inl h)
    · rcases List.le_total a b with hle | hle
      · exact Or.inl (Or.inr ⟨h, hle⟩)
      · exact Or.inr (Or.inr ⟨h.symm, hle⟩)
    · exact Or.inr (Or.inl h)

instance : IsTrans Bytes DirectoryLe where
  trans a b c hab hbc := by
    rcases hab with hab | ⟨hab, hle⟩
    · rcases hbc with hbc | ⟨hbc, _⟩ <;> exact Or.inl (by omega)
    · rcases hbc with hbc | ⟨hbc, hle'⟩
      · exact Or.inl (by omega)
      · exact Or.inr ⟨hab.trans hbc, List.le_trans hle hle'⟩

theorem mem_sortedDirectories {entries : Entries} {d : Bytes} :
    d ∈ sortedDirectories entries ↔ d = dot ∨ ∃ e ∈ entries,
      (e.2.info.isdir = true ∧ d = e.1) ∨ d ∈ parents e.1 := by
  rw [sortedDirectories, List.mem_insertionSort, directories, List.mem_dedup, List.mem_cons,
    List.mem_flatMap]
  refine or_congr_right (exists_congr fun e => and_congr_right fun _ => ?_)
  rw [List.mem_append]
  refine or_congr_left ?_
  split
  · rename_i hdir
    rw [List.mem_singleton, and_iff_right hdir]
  · rename_i hdir
    exact ⟨fun h => absurd h List.not_mem_nil, fun h => absurd h.1 hdir⟩

theorem mem_sortedFiles {entries : Entries} {e : Bytes × Member} :
    e ∈ sortedFiles entries ↔ e ∈ entries ∧ e.2.info.isdir = false := by
  rw [sortedFiles, List.mem_insertionSort, List.mem_filter, Bool.not_eq_true']

theorem nodup_sortedDirectories (entries : Entries) : (sortedDirectories entries).Nodup :=
  (List.perm_insertionSort _ _).nodup_iff.mpr (List.nodup_dedup _)

/-- In a sorted list stands before an element what is not behind it in the order. -/
theorem mem_before {entries : Entries} {before after : List Bytes} {d p : Bytes}
    (h : sortedDirectories entries = before ++ d :: after) (hp : p ∈ sortedDirectories entries)
    (hle : ¬DirectoryLe d p) : p ∈ before := by
  have hsorted : (sortedDirectories entries).Pairwise DirectoryLe := List.pairwise_insertionSort _ _
  rw [h] at hsorted hp
  rcases List.mem_append.mp hp with hp | hp
  · exact hp
  · rcases List.mem_cons.mp hp with rfl | hp
    · exact absurd (Or.inr ⟨rfl, List.le_refl _⟩) hle
    · exact absurd ((List.pairwise_append.mp hsorted).2.1 |> List.rel_of_pairwise_cons <| hp) hle

section

variable {raw : Bytes} {entries : Entries} (hc : Checks raw entries)

include hc

theorem Checks.safe_directory {d : Bytes} (hd : d ∈ sortedDirectories entries) :
    d = dot ∨ SafePath d := by
  rcases mem_sortedDirectories.mp hd with hd | ⟨e, he, hd⟩
  · exact Or.inl hd
  · have hsafe := SafePath.of_safeName (hc.safe e he).1
    rcases hd with ⟨_, rfl⟩ | hd
    · exact Or.inr hsafe
    · exact Or.inr (hsafe.parent hd)

/-- No path is a directory's and a file's. -/
theorem Checks.file_not_directory {e : Bytes × Member} (he : e ∈ sortedFiles entries) :
    e.1 ∉ sortedDirectories entries := by
  have ⟨hmem, hfile⟩ := mem_sortedFiles.mp he
  intro hd
  rcases mem_sortedDirectories.mp hd with hd | ⟨e', he', hd⟩
  · exact (SafePath.of_safeName (hc.safe e hmem).1).ends.2.1 hd
  · have hdir : e.2.info.isdir = true := by
      rcases hd with ⟨hdir, hd⟩ | hd
      · have heq : e' = e := List.inj_on_of_nodup_map hc.nodup he' hmem hd.symm
        rw [← heq]
        exact hdir
      · exact hc.parents e' he' e.1 hd e hmem rfl
    rw [hfile] at hdir
    exact absurd hdir Bool.false_ne_true

/-- The root is first exactly if no top-level directory sorts before it. -/
theorem Checks.rootFirst_iff :
    RootFirst (members raw).1 ↔
      ∀ d ∈ sortedDirectories entries, slash ∉ d → dot ≤ d := by
  have hmem : ∀ m ∈ (members raw).1, isRoot m = false → (memberPath m, m) ∈ entries := by
    intro m hm hroot
    rw [hc.entries_eq]
    exact List.mem_map.mpr ⟨m, List.mem_filter.mpr ⟨hm, by rw [hroot]; rfl⟩, rfl⟩
  constructor
  · intro hfirst d hd hslash
    rcases mem_sortedDirectories.mp hd with rfl | ⟨e, he, hd⟩
    · exact List.le_refl _
    · rw [hc.entries_eq] at he
      obtain ⟨m, hm, rfl⟩ := List.mem_map.mp he
      have ⟨hm, hroot⟩ := List.mem_filter.mp hm
      exact hfirst m hm (by simpa using hroot) d hd hslash
  · intro hall m hm hroot d hd hslash
    exact hall d (mem_sortedDirectories.mpr (Or.inr ⟨_, hmem m hm hroot, hd⟩)) hslash

/-! ## The added members -/

omit hc in
theorem withoutDotSlash_append (name : Bytes) : withoutDotSlash (dotSlash ++ name) = name :=
  if_pos (List.prefix_append dotSlash name)

/-- The members that are written, by their paths. -/
def outputEntries (raw : Bytes) (entries : Entries) : List Entry :=
  (sortedDirectories entries).map (fun d => ⟨d, dirType, []⟩) ++
    (sortedFiles entries).map fun e => ⟨e.1, regType, e.2.contents raw⟩

omit hc in
theorem directoryMember_entry (d : Bytes) : (directoryMember d).entry = ⟨d, dirType, []⟩ := by
  rw [Added.entry, directoryMember]
  split
  · rename_i hd
    rw [hd]
    rfl
  · rw [if_pos rfl, removeSlash, List.getLast?_concat]
    exact congrArg (fun path => Entry.mk path dirType [])
      ((congrArg withoutDotSlash List.dropLast_concat).trans (withoutDotSlash_append d))

omit hc in
theorem entries_addedMembers :
    (addedMembers raw entries).map Added.entry = outputEntries raw entries := by
  rw [addedMembers, List.map_append, List.map_map, List.map_map, outputEntries]
  refine congrArg₂ (· ++ ·) (List.map_congr_left fun d _ => directoryMember_entry d) ?_
  exact List.map_congr_left fun e _ =>
    congrArg (fun path => Entry.mk path regType (e.2.contents raw)) (withoutDotSlash_append e.1)

theorem Checks.safe_file {e : Bytes × Member} (he : e ∈ sortedFiles entries) : SafePath e.1 :=
  SafePath.of_safeName (hc.safe e (mem_sortedFiles.mp he).1).1

/-! ## The output keeps the promise -/

omit hc in
/-- A directory stands with its parents in the list, whether it is a member or a parent of one. -/
theorem parents_mem {name p : Bytes} {e : Bytes × Member} (he : e ∈ entries)
    (hname : name = e.1 ∨ name ∈ parents e.1) (hp : p ∈ dot :: parents name) :
    p ∈ sortedDirectories entries := by
  apply mem_sortedDirectories.mpr
  rcases List.mem_cons.mp hp with hp | hp
  · exact Or.inl hp
  · refine Or.inr ⟨e, he, Or.inr ?_⟩
    rcases hname with rfl | hname
    · exact hp
    · obtain ⟨rest, rfl⟩ := mem_parents.mp hp
      obtain ⟨rest', hrest⟩ := mem_parents.mp hname
      exact mem_parents.mpr ⟨rest ++ slash :: rest', by rw [hrest]; simp⟩

omit hc in
/-- In the order a directory is behind its parents, and behind the root if that comes first. -/
theorem not_directoryLe {d p : Bytes} (hne : d ≠ dot) (hroot : slash ∉ d → dot ≤ d)
    (hp : p ∈ dot :: parents d) : ¬DirectoryLe d p := by
  rcases List.mem_cons.mp hp with rfl | hp
  · have hcount : dot.count slash = 0 := by decide
    by_cases hd : slash ∈ d
    · have := List.count_pos_iff.mpr hd
      rintro (h | ⟨h, _⟩) <;> omega
    · have := List.count_eq_zero.mpr hd
      rintro (h | ⟨_, h⟩)
      · omega
      · exact hne (List.le_antisymm h (hroot hd))
  · obtain ⟨rest, rfl⟩ := mem_parents.mp hp
    have hcount : (p ++ slash :: rest).count slash = p.count slash + (rest.count slash + 1) := by
      rw [List.count_append, List.count_cons_self]
    rintro (h | ⟨h, _⟩) <;> omega

theorem Checks.files_perm :
    (regularFiles (outputEntries raw entries)).Perm (regularFiles (entriesOf raw)) := by
  have hout : regularFiles (outputEntries raw entries) =
      (sortedFiles entries).map fun e => (e.1, e.2.contents raw) := by
    have hnone : ((sortedDirectories entries).map fun d => Entry.mk d dirType []).filter
        (fun e => e.type ∈ regularTypes) = [] := by
      rw [List.filter_map, List.filter_eq_nil_iff.mpr, List.map_nil]
      exact fun _ _ => (by decide : ¬decide (dirType ∈ regularTypes) = true)
    have hall : ((sortedFiles entries).filter fun _ => decide (regType ∈ regularTypes)) =
        sortedFiles entries :=
      List.filter_eq_self.mpr fun _ _ => (by decide : decide (regType ∈ regularTypes) = true)
    rw [regularFiles, outputEntries, List.filter_append, hnone, List.nil_append, List.filter_map,
      List.map_map]
    exact congrArg (List.map fun e => (e.1, e.2.contents raw)) hall
  have hin : regularFiles (entriesOf raw) =
      (entries.filter fun e => !e.2.info.isdir).map fun e => (e.1, e.2.contents raw) := by
    have hfilter : (members raw).1.filter (fun m => m.info.type ∈ regularTypes) =
        ((members raw).1.filter fun m => !isRoot m).filter fun m => !m.info.isdir := by
      rw [List.filter_filter]
      refine List.filter_congr fun m hm => ?_
      cases hroot : isRoot m with
      | true =>
        have htype : m.info.type = dirType := by
          simp only [isRoot, TarInfo.isdir, decide_eq_true_eq] at hroot
          exact hroot.2
        simp only [htype, TarInfo.isdir]
        decide
      | false =>
        have hmem : (memberPath m, m) ∈ entries := by
          rw [hc.entries_eq]
          exact List.mem_map.mpr ⟨m, List.mem_filter.mpr ⟨hm, by rw [hroot]; rfl⟩, rfl⟩
        rcases plain_cases (hc.safe _ hmem).2 with (h | h) | h <;>
          simp only [TarInfo.isdir, show m.info.type = _ from h] <;> decide
    conv_rhs => rw [hc.entries_eq, List.filter_map, List.map_map]
    rw [regularFiles, entriesOf, List.filter_map, List.map_map]
    exact congrArg (List.map _) hfilter
  rw [hout, hin]
  exact (List.perm_insertionSort _ _).map _

/-- The output is the input packed anew, if the root is sorted first. -/
theorem Checks.repackaged (hfirst : RootFirst (members raw).1) :
    Repackaged (entriesOf raw) (outputEntries raw entries) where
  files := hc.files_perm
  once := by
    rw [outputEntries, List.map_append, List.map_map, List.map_map, List.nodup_append]
    refine ⟨?_, ?_, ?_⟩
    · exact (List.map_id (sortedDirectories entries)).symm ▸ nodup_sortedDirectories entries
    · have hsub := (List.filter_sublist (l := entries) (p := fun e => !e.2.info.isdir)).map Prod.fst
      exact (((List.perm_insertionSort _ _).map Prod.fst).nodup_iff).mpr (hsub.nodup hc.nodup)
    · intro a ha b hb hab
      obtain ⟨d, hd, rfl⟩ := List.mem_map.mp ha
      obtain ⟨e, he, rfl⟩ := List.mem_map.mp hb
      exact hc.file_not_directory he ((show d = e.1 from hab) ▸ hd)
  kinds := by
    intro e he
    rcases List.mem_append.mp he with he | he
    · obtain ⟨d, _, rfl⟩ := List.mem_map.mp he
      exact Or.inr rfl
    · obtain ⟨f, _, rfl⟩ := List.mem_map.mp he
      exact Or.inl rfl
  names := by
    intro e he
    rcases List.mem_append.mp he with he | he
    · obtain ⟨d, hd, rfl⟩ := List.mem_map.mp he
      exact (hc.safe_directory hd).elim (fun h => Or.inr ⟨h, rfl⟩) Or.inl
    · obtain ⟨f, hf, rfl⟩ := List.mem_map.mp he
      exact Or.inl (hc.safe_file hf)
  parents := by
    intro before e after h hne p hp
    rcases List.append_eq_append_iff.mp h with ⟨mid, hbefore, hfiles⟩ | ⟨mid, hdirs, hmid⟩
    · -- a file: all directories are in front of it
      have he : e ∈ (sortedFiles entries).map fun e => Entry.mk e.1 regType (e.2.contents raw) :=
        hfiles ▸ List.mem_append_right _ List.mem_cons_self
      obtain ⟨f, hf, rfl⟩ := List.mem_map.mp he
      refine ⟨⟨p, dirType, []⟩, hbefore ▸ List.mem_append_left _ (List.mem_map.mpr ⟨p, ?_, rfl⟩),
        rfl, rfl⟩
      exact parents_mem (mem_sortedFiles.mp hf).1 (Or.inl rfl) hp
    · cases mid with
      | nil =>
        rw [List.nil_append] at hmid
        have he : e ∈ (sortedFiles entries).map fun e => Entry.mk e.1 regType (e.2.contents raw) :=
          hmid ▸ List.mem_cons_self
        obtain ⟨f, hf, rfl⟩ := List.mem_map.mp he
        rw [List.append_nil] at hdirs
        exact ⟨⟨p, dirType, []⟩, hdirs ▸ List.mem_map.mpr
          ⟨p, parents_mem (mem_sortedFiles.mp hf).1 (Or.inl rfl) hp, rfl⟩, rfl, rfl⟩
      | cons first mid =>
        have ⟨front, back, hsorted, hfront, hback⟩ := List.map_eq_append_iff.mp hdirs
        obtain ⟨d, back', rfl, hd, _⟩ := List.map_eq_cons_iff.mp hback
        have he : e = ⟨d, dirType, []⟩ := (List.cons.inj hmid).1.trans hd.symm
        rw [he] at hne hp
        have hmem : d ∈ sortedDirectories entries :=
          hsorted ▸ List.mem_append_right _ List.mem_cons_self
        have hpmem : p ∈ sortedDirectories entries := by
          rcases mem_sortedDirectories.mp hmem with hd | ⟨e', he', hd⟩
          · exact absurd hd hne
          · exact parents_mem he' (hd.imp And.right id) hp
        have hin := mem_before hsorted hpmem
          (not_directoryLe hne (hc.rootFirst_iff.mp hfirst d hmem) hp)
        exact ⟨⟨p, dirType, []⟩, hfront ▸ List.mem_map.mpr ⟨p, hin, rfl⟩, rfl, rfl⟩

/-- Where the root is before every other member, no top-level directory sorts before it. -/
theorem Checks.rootFirst_of_repackaged
    (h : Repackaged (entriesOf raw) (outputEntries raw entries)) : RootFirst (members raw).1 := by
  refine hc.rootFirst_iff.mpr fun d hd hslash => ?_
  by_cases hne : d = dot
  · rw [hne]
    exact List.le_refl _
  · have ⟨front, back, hsorted⟩ := List.append_of_mem hd
    have hout : outputEntries raw entries = front.map (fun d => ⟨d, dirType, []⟩) ++
        ⟨d, dirType, []⟩ :: (back.map (fun d => ⟨d, dirType, []⟩) ++
          (sortedFiles entries).map fun e => ⟨e.1, regType, e.2.contents raw⟩) := by
      rw [outputEntries, hsorted, List.map_append, List.map_cons, List.append_assoc,
        List.cons_append]
    have ⟨_, hmem, hpath, _⟩ := h.parents _ _ _ hout hne dot List.mem_cons_self
    obtain ⟨d', hd', rfl⟩ := List.mem_map.mp hmem
    have hle : (sortedDirectories entries).Pairwise DirectoryLe := List.pairwise_insertionSort _ _
    rw [hsorted] at hle
    rcases (List.pairwise_append.mp hle).2.2 d' hd' d List.mem_cons_self with hlt | ⟨_, hle⟩
    · rw [List.count_eq_zero.mpr hslash] at hlt
      exact absurd hlt (Nat.not_lt_zero _)
    · exact (show d' = dot from hpath) ▸ hle

end

/-! ## The law -/

theorem writeAll_ok {disk : Disk} {added written out : List Added}
    (h : writeAll disk written added = (none, out)) : out = written ++ added := by
  induction added generalizing written with
  | nil => exact (congrArg Prod.snd h).symm.trans (List.append_nil _).symm
  | cons member rest ih =>
    rw [writeAll] at h
    split at h
    · rw [ih h, List.append_assoc, List.singleton_append]
    · cases congrArg Prod.fst h

/-- A disk on which nothing fails. -/
def goodDisk : Disk := ⟨true, fun _ => true, true⟩

theorem writeAll_goodDisk (written added : List Added) :
    writeAll goodDisk written added = (none, written ++ added) := by
  induction added generalizing written with
  | nil => rw [writeAll, List.append_nil]
  | cons member rest ih =>
    rw [writeAll]
    exact (if_pos rfl).trans (by rw [ih, List.append_assoc, List.singleton_append])

theorem readersAgree {limit : Int} {stream : GzipStream} {raw : Bytes} {checked : List Checked}
    (h : boundedTar limit 4097 stream = .ok (raw, checked)) : ReadersAgree raw checked := by
  have hchecked := (boundedTar_ok h).2.2
  refine ⟨Admitted.of_checkHeaders hchecked, ?_⟩
  rw [(members_announced hchecked).1]
  exact announced_blocks none checked

/-- An archive that passes the checks is written on a disk on which nothing fails. -/
theorem prepareSite_goodDisk (call : Call) {checked : List Checked} {entries : Entries}
    (hsource : call.regularSource = true) (hnew : call.destination = none)
    (hopen : boundedTar call.limit 4097 call.stream = .ok (call.stream.bytes, checked))
    (hentries : siteEntries call.limit call.stream.bytes = .ok entries) :
    ∃ prepared, prepareSite image sha256 goodDisk call =
      (.ok prepared, some (.archive (addedMembers call.stream.bytes entries))) := by
  rw [prepareSite, if_neg (by rw [hsource]; decide), if_neg (by rw [hnew]; decide), hopen]
  dsimp only
  rw [hentries]
  dsimp only
  rw [if_neg (by decide), writeAll_goodDisk]
  exact ⟨_, rfl⟩

theorem prepareSite_spec (call : Call) :
    ((∀ disk, KeepsPromise image sha256 disk call) ∧ ∀ raw checked,
      boundedTar call.limit 4097 call.stream = .ok (raw, checked) → ReadersAgree raw checked) ↔
    Sound call := by
  constructor
  · rintro ⟨hkeeps, _⟩
    constructor
    · intro hsource hnew hlimit hcorrupt
      have hp : prepareSite image sha256 goodDisk call = (.error .zlib, none) := by
        rw [prepareSite, if_neg (by rw [hsource]; decide), if_neg (by rw [hnew]; decide),
          boundedTar_zlib.mpr ⟨hlimit, hcorrupt⟩]
      rcases hkeeps goodDisk with ⟨_, h, _⟩ | ⟨_, _, h, _⟩ <;> rw [hp] at h <;> cases h
    · intro hsource hnew hopen hpasses
      cases hbounded : boundedTar call.limit 4097 call.stream with
      | error error =>
        rw [hbounded] at hopen
        cases hopen
      | ok opened =>
        obtain ⟨raw, checked⟩ := opened
        have hraw : raw = call.stream.bytes := (boundedTar_ok hbounded).2.1
        rw [hraw] at hbounded
        cases hentries : siteEntries call.limit call.stream.bytes with
        | error error =>
          rw [hentries] at hpasses
          cases hpasses
        | ok entries =>
          have ⟨prepared, hp⟩ :=
            prepareSite_goodDisk image sha256 call hsource hnew hbounded hentries
          rcases hkeeps goodDisk with ⟨_, h, _⟩ | ⟨_, added, h, hrepackaged⟩
          · rw [hp] at h
            cases h
          · rw [hp] at h
            have hadded := File.archive.inj (Option.some.inj (congrArg Prod.snd h))
            rw [← hadded, entries_addedMembers] at hrepackaged
            exact (Checks.of_siteEntries hentries).rootFirst_of_repackaged hrepackaged
  · intro hsound
    refine ⟨fun disk => ?_, fun raw checked h => readersAgree h⟩
    unfold KeepsPromise
    rw [prepareSite]
    split
    · exact Or.inl ⟨_, rfl, rfl⟩
    · rename_i hsource
      have hsource : call.regularSource = true := by simpa using hsource
      split
      · exact Or.inl ⟨_, rfl, rfl⟩
      · rename_i hnew
        have hnew : call.destination = none := by simpa using hnew
        rw [hnew]
        split
        · rename_i hzlib
          have ⟨hlimit, hcorrupt⟩ := boundedTar_zlib.mp hzlib
          exact absurd hcorrupt (hsound.undamaged hsource hnew hlimit)
        · exact Or.inl ⟨_, rfl, rfl⟩
        · rename_i raw checked hbounded
          have hraw : raw = call.stream.bytes := (boundedTar_ok hbounded).2.1
          subst hraw
          split
          · exact Or.inl ⟨_, rfl, rfl⟩
          · rename_i entries hentries
            split
            · exact Or.inl ⟨_, rfl, rfl⟩
            · split
              · exact Or.inl ⟨_, rfl, rfl⟩
              · rename_i written hwritten
                split
                · refine Or.inr ⟨_, written, rfl, ?_⟩
                  rw [writeAll_ok hwritten, List.nil_append, entries_addedMembers]
                  refine (Checks.of_siteEntries hentries).repackaged ?_
                  exact hsound.rootFirst hsource hnew (by rw [hbounded]; rfl)
                    (by rw [hentries]; rfl)
                · exact Or.inl ⟨_, rfl, rfl⟩

/-! ## Two calls that fail -/

/-- A call whose compressed data breaks off at once. -/
def damagedCall : Call := ⟨true, ⟨[], .corrupt⟩, none, 1⟩

/-- The header of an empty file, with its checksum. -/
def emptyFile (name chksum : Bytes) : Bytes :=
  name ++ List.replicate (148 - name.length) 0 ++ chksum ++ List.replicate (364 - chksum.length) 0

/-- `index.html`, and a file under a directory whose name is a hyphen. -/
def earlyCall : Call where
  regularSource := true
  stream := ⟨[emptyFile indexHtml [0x32, 0x33, 0x37, 0x33] ++
    emptyFile [0x2D, slash, 0x61] [0x36, 0x37, 0x35]], .complete⟩
  destination := none
  limit := 1024

/-- The first failure is no `PublicationError`; the second output has the hyphen before the root. -/
theorem damaged_and_early :
    ¬KeepsPromise (fun _ => []) (fun bytes => bytes) goodDisk damagedCall ∧
      ¬KeepsPromise (fun _ => []) (fun bytes => bytes) goodDisk earlyCall := by
  constructor
  · rintro (⟨_, herror, _⟩ | ⟨_, _, hok, _⟩)
    · cases herror
    · cases hok
  · intro hkeeps
    have hopen : (boundedTar 1024 4097 earlyCall.stream).isOk = true := by decide +kernel
    have hpasses : (siteEntries 1024 earlyCall.stream.bytes).isOk = true := by decide +kernel
    cases hbounded : boundedTar 1024 4097 earlyCall.stream with
    | error error =>
      rw [hbounded] at hopen
      cases hopen
    | ok opened =>
      obtain ⟨raw, checked⟩ := opened
      have hraw : raw = earlyCall.stream.bytes := (boundedTar_ok hbounded).2.1
      rw [hraw] at hbounded
      cases hentries : siteEntries 1024 earlyCall.stream.bytes with
      | error error =>
        rw [hentries] at hpasses
        cases hpasses
      | ok entries =>
        have ⟨prepared, hp⟩ := prepareSite_goodDisk (fun _ => []) (fun bytes => bytes) earlyCall rfl
          rfl hbounded hentries
        rcases hkeeps with ⟨_, h, _⟩ | ⟨_, added, h, hrepackaged⟩
        · rw [hp] at h
          cases h
        · rw [hp] at h
          have hadded := File.archive.inj (Option.some.inj (congrArg Prod.snd h))
          rw [← hadded, entries_addedMembers] at hrepackaged
          have hfirst := (Checks.of_siteEntries hentries).rootFirst_of_repackaged hrepackaged
          have ⟨m, hm, hroot, hparent⟩ : ∃ m ∈ (members earlyCall.stream.bytes).1,
              isRoot m = false ∧ [0x2D] ∈ parents (memberPath m) := by decide +kernel
          exact absurd (hfirst m hm hroot [0x2D] (Or.inr hparent) (by decide)) (by decide)

/-! ## One output for one site -/

/-- What an archive holds: the paths without the root, what is a directory, and the bytes. -/
def contentsOf (raw : Bytes) : List (Bytes × Bool × Bytes) :=
  ((members raw).1.filter fun m => !isRoot m).map fun m =>
    (memberPath m, m.info.isdir, m.contents raw)

/-- The call gets through every check. -/
def Call.passes (call : Call) : Bool :=
  call.regularSource && call.destination.isNone &&
    (boundedTar call.limit 4097 call.stream).isOk &&
    (siteEntries call.limit call.stream.bytes).isOk

section

variable {raw raw' : Bytes} {entries entries' : Entries} (hc : Checks raw entries)
  (hc' : Checks raw' entries') (hsame : (contentsOf raw).Perm (contentsOf raw'))

include hc

theorem Checks.contentsOf_eq :
    contentsOf raw = entries.map fun e => (e.1, e.2.info.isdir, e.2.contents raw) := by
  rw [hc.entries_eq, List.map_map]
  rfl

include hc' hsame

theorem Checks.sortedDirectories_congr :
    sortedDirectories entries = sortedDirectories entries' := by
  have hmem : ∀ {raw : Bytes} {entries : Entries}, Checks raw entries → ∀ d,
      d ∈ sortedDirectories entries ↔ d = dot ∨ ∃ c ∈ contentsOf raw,
        (c.2.1 = true ∧ d = c.1) ∨ d ∈ Site.parents c.1 := by
    intro raw entries hc d
    rw [mem_sortedDirectories, hc.contentsOf_eq]
    simp only [List.mem_map, exists_exists_and_eq_and]
  have hperm : (sortedDirectories entries).Perm (sortedDirectories entries') := by
    apply (List.perm_ext_iff_of_nodup (nodup_sortedDirectories _) (nodup_sortedDirectories _)).mpr
    intro d
    rw [hmem hc, hmem hc']
    exact or_congr_right (exists_congr fun c => and_congr_left fun _ => hsame.mem_iff)
  refine List.Perm.eq_of_pairwise (fun a b _ _ hab hba => ?_) (List.pairwise_insertionSort _ _)
    (List.pairwise_insertionSort _ _) hperm
  rcases hab with hab | ⟨_, hab⟩ <;> rcases hba with hba | ⟨_, hba⟩ <;> try omega
  exact List.le_antisymm hab hba

theorem Checks.files_congr :
    (sortedFiles entries).map (fun e => (e.1, e.2.contents raw)) =
      (sortedFiles entries').map fun e => (e.1, e.2.contents raw') := by
  have hfiles : ∀ {raw : Bytes} {entries : Entries}, Checks raw entries →
      ((sortedFiles entries).map fun e => (e.1, e.2.contents raw)).Perm
        (((contentsOf raw).filter fun c => !c.2.1).map fun c => (c.1, c.2.2)) := by
    intro raw entries hc
    rw [hc.contentsOf_eq, List.filter_map, List.map_map]
    exact (List.perm_insertionSort _ _).map _
  have hsorted : ∀ (raw : Bytes) (entries : Entries), ((sortedFiles entries).map fun e =>
      (e.1, e.2.contents raw)).Pairwise fun a b => a.1 ≤ b.1 :=
    fun raw entries => List.pairwise_map.mpr (List.pairwise_insertionSort _ _)
  have hperm := (hfiles hc).trans (((hsame.filter _).map _).trans (hfiles hc').symm)
  refine List.Perm.eq_of_pairwise (fun a b ha hb hab hba => ?_) (hsorted raw entries)
    (hsorted raw' entries') hperm
  -- one path has one file
  have ⟨e, he, hea⟩ := List.mem_map.mp ha
  have ⟨e', he', heb⟩ := List.mem_map.mp (hperm.mem_iff.mpr hb)
  have hpath : e = e' := List.inj_on_of_nodup_map hc.nodup (mem_sortedFiles.mp he).1
    (mem_sortedFiles.mp he').1 (by
      rw [← hea, ← heb] at hab hba
      exact List.le_antisymm hab hba)
  rw [← hea, ← heb, hpath]

end

/-- Two archives that hold the same, in whatever order and however packed, give one output. -/
theorem prepareSite_canonical {call call' : Call} (h : call.passes = true)
    (h' : call'.passes = true)
    (hsame : (contentsOf call.stream.bytes).Perm (contentsOf call'.stream.bytes)) :
    prepareSite image sha256 disk call = prepareSite image sha256 disk call' := by
  have hpass : ∀ {call : Call}, call.passes = true → ∃ checked entries,
      call.regularSource = true ∧ call.destination = none ∧
      boundedTar call.limit 4097 call.stream = .ok (call.stream.bytes, checked) ∧
      siteEntries call.limit call.stream.bytes = .ok entries := by
    intro call h
    simp only [Call.passes, Bool.and_eq_true, Option.isNone_iff_eq_none] at h
    have ⟨⟨⟨hsource, hnew⟩, hopen⟩, hchecks⟩ := h
    cases hbounded : boundedTar call.limit 4097 call.stream with
    | error error =>
      rw [hbounded] at hopen
      cases hopen
    | ok opened =>
      have hraw := (boundedTar_ok hbounded).2.1
      cases hentries : siteEntries call.limit call.stream.bytes with
      | error error =>
        rw [hentries] at hchecks
        cases hchecks
      | ok entries => exact ⟨opened.2, entries, hsource, hnew, by rw [← hraw], rfl⟩
  have ⟨checked, entries, hsource, hnew, hopen, hentries⟩ := hpass h
  have ⟨checked', entries', hsource', hnew', hopen', hentries'⟩ := hpass h'
  have hc := Checks.of_siteEntries hentries
  have hc' := Checks.of_siteEntries hentries'
  have hdirectories := hc.sortedDirectories_congr hc' hsame
  have hfiles := hc.files_congr hc' hsame
  have hmap : ∀ {β : Type} (f : Bytes × Bytes → β),
      (sortedFiles entries).map (fun e => f (e.1, e.2.contents call.stream.bytes)) =
        (sortedFiles entries').map fun e => f (e.1, e.2.contents call'.stream.bytes) := by
    intro β f
    have hmapped := congrArg (List.map f) hfiles
    rwa [List.map_map, List.map_map] at hmapped
  have hadded : addedMembers call.stream.bytes entries = addedMembers call'.stream.bytes entries' :=
    congrArg₂ (· ++ ·) (congrArg (List.map directoryMember) hdirectories)
      (hmap fun f => Added.mk (dotSlash ++ f.1) regType 0o644 f.2)
  have hprepared := hmap fun f => PreparedFile.mk f.1 f.2.length (sha256 f.2)
  unfold prepareSite
  rw [hsource, hsource', hnew, hnew', hopen, hopen']
  dsimp only
  rw [hentries, hentries']
  dsimp only
  rw [hadded, hprepared]

/-- `index.html` behind the other file. -/
def lateCall : Call where
  regularSource := true
  stream := ⟨[emptyFile [0x2D, slash, 0x61] [0x36, 0x37, 0x35] ++
    emptyFile indexHtml [0x32, 0x33, 0x37, 0x33]], .complete⟩
  destination := none
  limit := 4096

theorem prepareSite_canonical_late :
    prepareSite (fun _ => []) (fun bytes => bytes) goodDisk earlyCall =
      prepareSite (fun _ => []) (fun bytes => bytes) goodDisk lateCall :=
  prepareSite_canonical _ _ goodDisk (by decide +kernel) (by decide +kernel) (by decide +kernel)

end Wallow.Publication.Site
