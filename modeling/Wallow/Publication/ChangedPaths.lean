import Wallow.Lib.SplitText

/-!
# The route of a change

`classify_diff` of `validation.py` reads what `git diff --name-status -z` wrote.  Only where every
path of it is documentation may the full validation be left out.
-/

namespace Wallow.Publication.ChangedPaths

inductive Route
  | docs
  | full
  deriving DecidableEq

/-! ## The allowlist -/

/-- Two slashes in front, and no more, are a root of their own. -/
def posixRoot (path : List Char) : List (List Char) :=
  if path.head? ≠ some '/' then []
  else if path.take 2 = ['/', '/'] ∧ path.take 3 ≠ ['/', '/', '/'] then [['/', '/']]
  else [['/']]

/-- `PurePosixPath(path).parts`. -/
def purePosixParts (path : List Char) : List (List Char) :=
  posixRoot path ++ (path.splitOn '/').filter fun part => part ≠ [] ∧ part ≠ ['.']

def rootDocuments : List (List Char) :=
  ["README.md".toList, "CONTRIBUTING.md".toList, "CODE_OF_CONDUCT.md".toList,
    "SECURITY.md".toList]

local instance path_lawful : LawfulBEq (List Char) := inferInstance

def docsPath (path : List Char) : Bool :=
  let parts := purePosixParts path
  if parts = [] ∨ path.head? = some '/' ∨
      (path.splitOn '/').any (fun part => part = ['.'] ∨ part = ['.', '.']) then false
  else
    path ∈ rootDocuments ∨
      (1 < parts.length ∧ parts.head? = some "docs".toList ∧
        (".md".toList <:+ path ∨ parts.getLast? = some "toc.yml".toList))

/-! ## The records of a diff -/

/-- `re.fullmatch` of a status. -/
def statusMatches : List Char → Bool
  | [letter] => letter ∈ ['A', 'M', 'D', 'T']
  | letter :: score =>
    letter ∈ ['R', 'C'] && 1 ≤ score.length && score.length ≤ 3 && score.all Char.isDigit
  | [] => false

/-- How many paths come after a status. -/
def pathCount (status : List Char) : Nat :=
  if status.head? = some 'R' ∨ status.head? = some 'C' then 2 else 1

/-- The paths of all records, `none` where one is malformed. -/
def readPaths : List (List Char) → Option (List (List Char))
  | [] => some []
  | status :: fields =>
    if !statusMatches status then none
    else if fields.length < pathCount status ∨
        (fields.take (pathCount status)).any (fun path => path = []) then none
    else
      (readPaths (fields.drop (pathCount status))).map (fields.take (pathCount status) ++ ·)
  termination_by fields => fields.length
  decreasing_by
    rw [List.length_drop, List.length_cons]
    omega

def classifyDiff (data : ByteArray) : Route × String :=
  if data.size = 0 ∨ data.data.toList.getLast? ≠ some 0 then
    (.full, "empty or malformed diff")
  else
    match String.fromUTF8? data with
    | none => (.full, "empty or malformed diff")
    | some text =>
      match readPaths (text.toList.splitOn '\x00').dropLast with
      | none => (.full, "empty or malformed diff")
      | some paths =>
        if paths.all docsPath then
          (.docs, "all changed paths are in the documentation allowlist")
        else (.full, "changed paths require full validation")

/-! ## What a diff says -/

/-- A path as git writes it between two terminators. -/
@[ext]
structure PathText where
  text : List Char
  nonempty : text ≠ []
  unterminated : '\x00' ∉ text

/-- The digits after the letter of a rename or a copy. -/
@[ext]
structure Score where
  digits : List Char
  length : 1 ≤ digits.length ∧ digits.length ≤ 3
  decimal : digits.all Char.isDigit = true

inductive ChangeKind
  | added
  | modified
  | deleted
  | typeChanged

def ChangeKind.letter : ChangeKind → Char
  | .added => 'A'
  | .modified => 'M'
  | .deleted => 'D'
  | .typeChanged => 'T'

inductive MoveKind
  | renamed
  | copied

def MoveKind.letter : MoveKind → Char
  | .renamed => 'R'
  | .copied => 'C'

/-- A record of a diff in the name-status form. -/
inductive Record
  | change (kind : ChangeKind) (path : PathText)
  | move (kind : MoveKind) (score : Score) (source target : PathText)

def Record.status : Record → List Char
  | .change kind _ => [kind.letter]
  | .move kind score _ _ => kind.letter :: score.digits

/-- Both sides of a rename or a copy are paths of it. -/
def Record.paths : Record → List (List Char)
  | .change _ path => [path.text]
  | .move _ _ source target => [source.text, target.text]

def Record.fields (record : Record) : List (List Char) := record.status :: record.paths

/-- Each field of the records with a NUL after it. -/
def nameStatus (records : List Record) : List Char :=
  SplitText.terminated '\x00' (records.flatMap Record.fields)

/-- A path of the allowlist that has no dot segment. -/
structure Documentation (path : List Char) : Prop where
  relative : path.head? ≠ some '/'
  undotted : ∀ segment ∈ path.splitOn '/', segment ≠ ['.'] ∧ segment ≠ ['.', '.']
  listed : path ∈ rootDocuments ∨ ∃ names, names ≠ [] ∧
    (path.splitOn '/').filter (fun segment => segment ≠ []) = "docs".toList :: names ∧
    (".md".toList <:+ path ∨ names.getLast? = some "toc.yml".toList)

/-! ## The allowlist is what it is meant to be -/

theorem purePosixParts_of_relative {path : List Char} (h : path.head? ≠ some '/')
    (hdots : ∀ segment ∈ path.splitOn '/', segment ≠ ['.'] ∧ segment ≠ ['.', '.']) :
    purePosixParts path = (path.splitOn '/').filter fun segment => segment ≠ [] := by
  rw [purePosixParts, posixRoot, if_pos h, List.nil_append]
  apply List.filter_congr
  intro segment hsegment
  rw [decide_eq_decide]
  exact and_iff_left (hdots segment hsegment).1

theorem two_parts_iff {parts : List (List Char)} {first last : List Char} {ending : Prop} :
    (1 < parts.length ∧ parts.head? = some first ∧ (ending ∨ parts.getLast? = some last)) ↔
      ∃ names, names ≠ [] ∧ parts = first :: names ∧ (ending ∨ names.getLast? = some last) := by
  constructor
  · intro h
    cases parts with
    | nil => exact absurd h.1 (by decide)
    | cons part names =>
      cases names with
      | nil => exact absurd h.1 (Nat.lt_irrefl 1)
      | cons name names =>
        have ⟨_, hfirst, hlast⟩ := h
        rw [List.head?_cons, Option.some.injEq] at hfirst
        rw [List.getLast?_cons_cons] at hlast
        exact ⟨name :: names, List.cons_ne_nil _ _, by rw [hfirst], hlast⟩
  · intro h
    have ⟨names, hnames, hparts, hlast⟩ := h
    cases names with
    | nil => exact absurd rfl hnames
    | cons name names =>
      rw [hparts, List.getLast?_cons_cons]
      exact ⟨by rw [List.length_cons, List.length_cons]; omega, rfl, hlast⟩

theorem rootDocuments_segments : ∀ path ∈ rootDocuments,
    (path.splitOn '/').filter (fun segment => segment ≠ []) ≠ [] := by
  decide

theorem docsPath_iff (path : List Char) : docsPath path = true ↔ Documentation path := by
  rw [docsPath]
  constructor
  · intro hdocs
    split at hdocs
    · cases hdocs
    · rename_i hguard
      rw [not_or, not_or, Bool.not_eq_true, List.any_eq_false] at hguard
      have hdots : ∀ segment ∈ path.splitOn '/', segment ≠ ['.'] ∧ segment ≠ ['.', '.'] := by
        intro segment hsegment
        have hneither := hguard.2.2 segment hsegment
        rw [decide_eq_true_eq, not_or] at hneither
        exact hneither
      rw [purePosixParts_of_relative hguard.2.1 hdots, decide_eq_true_eq, two_parts_iff] at hdocs
      exact ⟨hguard.2.1, hdots, hdocs⟩
  · intro h
    have hparts := purePosixParts_of_relative h.relative h.undotted
    have hnonempty : purePosixParts path ≠ [] := by
      rw [hparts]
      cases h.listed with
      | inl hroot => exact rootDocuments_segments path hroot
      | inr hunder =>
        have ⟨names, _, hnames, _⟩ := hunder
        rw [hnames]
        exact List.cons_ne_nil _ _
    have hdots : ¬(path.splitOn '/').any (fun part => part = ['.'] ∨ part = ['.', '.']) := by
      rw [Bool.not_eq_true, List.any_eq_false]
      intro segment hsegment
      rw [decide_eq_true_eq, not_or]
      exact h.undotted segment hsegment
    rw [if_neg (not_or.mpr ⟨hnonempty, not_or.mpr ⟨h.relative, hdots⟩⟩), hparts,
      decide_eq_true_eq, two_parts_iff]
    exact h.listed

/-! ## The fields of a record -/

theorem Record.paths_length (record : Record) : record.paths.length = pathCount record.status := by
  cases record with
  | change kind path => cases kind <;> rfl
  | move kind score source target => cases kind <;> rfl

theorem statusMatches_move (kind : MoveKind) (score : Score) :
    statusMatches (kind.letter :: score.digits) = true := by
  have ⟨digits, hlength, hdecimal⟩ := score
  cases digits with
  | nil => exact absurd hlength.1 (by decide)
  | cons digit rest =>
    have hletter : decide (kind.letter ∈ ['R', 'C']) = true := by cases kind <;> rfl
    show (_ && decide (1 ≤ (digit :: rest).length) && decide ((digit :: rest).length ≤ 3) &&
      (digit :: rest).all Char.isDigit) = true
    rw [hletter, decide_eq_true hlength.1, decide_eq_true hlength.2, hdecimal]
    rfl

theorem Record.status_matches (record : Record) : statusMatches record.status = true := by
  cases record with
  | change kind path => cases kind <;> rfl
  | move kind score source target => exact statusMatches_move kind score

theorem exists_changeKind {letter : Char} (h : statusMatches [letter] = true) :
    ∃ kind : ChangeKind, kind.letter = letter := by
  have hletter : letter ∈ ['A', 'M', 'D', 'T'] := of_decide_eq_true h
  rw [List.mem_cons, List.mem_cons, List.mem_cons, List.mem_singleton] at hletter
  cases hletter with
  | inl hadded => exact ⟨.added, hadded.symm⟩
  | inr hother =>
    cases hother with
    | inl hmodified => exact ⟨.modified, hmodified.symm⟩
    | inr hother =>
      cases hother with
      | inl hdeleted => exact ⟨.deleted, hdeleted.symm⟩
      | inr htype => exact ⟨.typeChanged, htype.symm⟩

theorem exists_moveKind {letter digit : Char} {rest : List Char}
    (h : statusMatches (letter :: digit :: rest) = true) :
    ∃ (kind : MoveKind) (score : Score), kind.letter = letter ∧ score.digits = digit :: rest := by
  have hall : (decide (letter ∈ ['R', 'C']) && decide (1 ≤ (digit :: rest).length) &&
      decide ((digit :: rest).length ≤ 3) && (digit :: rest).all Char.isDigit) = true := h
  rw [Bool.and_eq_true, Bool.and_eq_true, Bool.and_eq_true, decide_eq_true_eq, decide_eq_true_eq,
    decide_eq_true_eq, List.mem_cons, List.mem_singleton] at hall
  have ⟨⟨⟨hletter, hshort⟩, hlong⟩, hdecimal⟩ := hall
  cases hletter with
  | inl hrenamed => exact ⟨.renamed, ⟨_, ⟨hshort, hlong⟩, hdecimal⟩, hrenamed.symm, rfl⟩
  | inr hcopied => exact ⟨.copied, ⟨_, ⟨hshort, hlong⟩, hdecimal⟩, hcopied.symm, rfl⟩

/-- A status that matches is that of a record with the paths after it. -/
theorem exists_record {status : List Char} (h : statusMatches status = true)
    {paths : List (List Char)} (hcount : paths.length = pathCount status)
    (hpaths : ∀ path ∈ paths, path ≠ [] ∧ '\x00' ∉ path) :
    ∃ record : Record, record.status = status ∧ record.paths = paths := by
  match status, h, hcount with
  | [letter], h, hcount =>
    have ⟨kind, hkind⟩ := exists_changeKind h
    have hone : pathCount [letter] = 1 := by
      rw [← hkind]
      cases kind <;> rfl
    have ⟨path, hpath⟩ := List.length_eq_one_iff.mp (hcount.trans hone)
    have htext := hpaths path (hpath ▸ List.mem_singleton_self path)
    exact ⟨.change kind ⟨path, htext.1, htext.2⟩, by rw [Record.status, hkind], hpath.symm⟩
  | letter :: digit :: rest, h, hcount =>
    have ⟨kind, score, hkind, hdigits⟩ := exists_moveKind h
    have htwo : pathCount (letter :: digit :: rest) = 2 := by
      rw [← hkind]
      cases kind <;> rfl
    have ⟨source, target, hboth⟩ := List.length_eq_two.mp (hcount.trans htwo)
    have hsource := hpaths source (hboth ▸ List.mem_cons_self)
    have htarget := hpaths target (hboth ▸ List.mem_cons_of_mem _ (List.mem_singleton_self _))
    exact ⟨.move kind score ⟨source, hsource.1, hsource.2⟩ ⟨target, htarget.1, htarget.2⟩,
      by rw [Record.status, hkind, hdigits], hboth.symm⟩

theorem Record.mem_paths {record : Record} {path : List Char} (h : path ∈ record.paths) :
    path ≠ [] ∧ '\x00' ∉ path := by
  cases record with
  | change kind only =>
    rw [List.mem_singleton.mp h]
    exact ⟨only.nonempty, only.unterminated⟩
  | move kind score source target =>
    cases List.mem_cons.mp h with
    | inl hsource =>
      rw [hsource]
      exact ⟨source.nonempty, source.unterminated⟩
    | inr htarget =>
      rw [List.mem_singleton.mp htarget]
      exact ⟨target.nonempty, target.unterminated⟩

theorem Record.unterminated {record : Record} {field : List Char} (h : field ∈ record.fields) :
    '\x00' ∉ field := by
  cases List.mem_cons.mp h with
  | inr hpath => exact (Record.mem_paths hpath).2
  | inl hstatus =>
    rw [hstatus]
    cases record with
    | change kind path =>
      show '\x00' ∉ [kind.letter]
      cases kind <;> decide
    | move kind score source target =>
      show '\x00' ∉ kind.letter :: score.digits
      rw [List.mem_cons, not_or]
      constructor
      · cases kind <;> decide
      · intro hnul
        have hdigit := List.all_eq_true.mp score.decimal _ hnul
        exact absurd hdigit (by decide)

theorem ChangeKind.letter_inj {kind kind' : ChangeKind} (h : kind.letter = kind'.letter) :
    kind = kind' := by
  cases kind <;> cases kind' <;> first | rfl | exact absurd h (by decide)

theorem MoveKind.letter_inj {kind kind' : MoveKind} (h : kind.letter = kind'.letter) :
    kind = kind' := by
  cases kind <;> cases kind' <;> first | rfl | exact absurd h (by decide)

theorem Record.eq_of_paths {record record' : Record} (hstatus : record.status = record'.status)
    (hpaths : record.paths = record'.paths) : record = record' := by
  match record, record' with
  | .change kind path, .change kind' path' =>
    have hkind := ChangeKind.letter_inj (List.cons.inj hstatus).1
    have hpath := PathText.ext (List.cons.inj hpaths).1
    rw [hkind, hpath]
  | .move kind score source target, .move kind' score' source' target' =>
    have ⟨hletter, hdigits⟩ := List.cons.inj hstatus
    have ⟨hsource, hrest⟩ := List.cons.inj hpaths
    rw [MoveKind.letter_inj hletter, Score.ext hdigits, PathText.ext hsource,
      PathText.ext (List.cons.inj hrest).1]
  | .change _ _, .move _ _ _ _ => cases (List.cons.inj hpaths).2
  | .move _ _ _ _, .change _ _ => cases (List.cons.inj hpaths).2

/-- The status of a record tells how many of the next fields are its paths. -/
theorem Record.fields_append_inj {record record' : Record} {rest rest' : List (List Char)}
    (h : record.fields ++ rest = record'.fields ++ rest') : record = record' ∧ rest = rest' := by
  have ⟨hstatus, htail⟩ := List.cons.inj h
  have hlength : record.paths.length = record'.paths.length := by
    rw [record.paths_length, record'.paths_length, hstatus]
  have ⟨hpaths, hrest⟩ := List.append_inj htail hlength
  exact ⟨Record.eq_of_paths hstatus hpaths, hrest⟩

theorem flatMap_fields_inj {records records' : List Record}
    (h : records.flatMap Record.fields = records'.flatMap Record.fields) : records = records' := by
  induction records generalizing records' with
  | nil =>
    cases records' with
    | nil => rfl
    | cons record' rest' => cases h
  | cons record rest ih =>
    cases records' with
    | nil => cases h
    | cons record' rest' =>
      have ⟨hrecord, hrest⟩ := Record.fields_append_inj h
      rw [hrecord, ih hrest]

/-! ## Reading the fields -/

theorem readPaths_fields (record : Record) (fields : List (List Char)) :
    readPaths (record.fields ++ fields) = (readPaths fields).map (record.paths ++ ·) := by
  have hcount := record.paths_length
  have htake : (record.paths ++ fields).take (pathCount record.status) = record.paths := by
    rw [← hcount, List.take_left]
  have hdrop : (record.paths ++ fields).drop (pathCount record.status) = fields := by
    rw [← hcount, List.drop_left]
  have hnonempty : ¬record.paths.any (fun path => path = []) := by
    rw [Bool.not_eq_true, List.any_eq_false]
    intro path hpath
    rw [decide_eq_true_eq]
    exact (Record.mem_paths hpath).1
  show readPaths (record.status :: (record.paths ++ fields)) = _
  rw [readPaths, htake, hdrop, record.status_matches, if_neg (by decide), if_neg]
  rw [not_or]
  exact ⟨by rw [List.length_append]; omega, hnonempty⟩

theorem readPaths_records (records : List Record) :
    readPaths (records.flatMap Record.fields) = some (records.flatMap Record.paths) := by
  induction records with
  | nil => rw [List.flatMap_nil, List.flatMap_nil, readPaths]
  | cons record rest ih =>
    rw [List.flatMap_cons, List.flatMap_cons, readPaths_fields, ih]
    rfl

/-- Fields that are read are those of records. -/
theorem exists_records {fields paths : List (List Char)}
    (hfields : ∀ field ∈ fields, '\x00' ∉ field) (hread : readPaths fields = some paths) :
    ∃ records : List Record, records.flatMap Record.fields = fields := by
  fun_induction readPaths fields generalizing paths with
  | case1 => exact ⟨[], rfl⟩
  | case2 => cases hread
  | case3 => cases hread
  | case4 status fields hstatus hfull ih =>
    rw [not_or] at hfull
    have ⟨rest, hrest, _⟩ := Option.map_eq_some_iff.mp hread
    have hfields' := fun field hfield => hfields field (List.mem_cons_of_mem status hfield)
    have ⟨records, hrecords⟩ := ih (fun field hfield =>
      hfields' field (List.mem_of_mem_drop hfield)) hrest
    have hcount : (fields.take (pathCount status)).length = pathCount status := by
      rw [List.length_take]
      omega
    have hpaths : ∀ path ∈ fields.take (pathCount status), path ≠ [] ∧ '\x00' ∉ path := by
      intro path hpath
      have hnonempty := List.any_eq_false.mp (Bool.not_eq_true _ ▸ hfull.2) path hpath
      rw [decide_eq_true_eq] at hnonempty
      exact ⟨hnonempty, hfields' path (List.mem_of_mem_take hpath)⟩
    have ⟨record, hrecord, hown⟩ := exists_record (by simpa using hstatus) hcount hpaths
    apply Exists.intro (record :: records)
    rw [List.flatMap_cons, hrecords, Record.fields, hrecord, hown, List.cons_append,
      List.take_append_drop]

/-! ## The bytes -/

/-- Only NUL ends in a zero byte. -/
theorem getLast?_utf8EncodeChar (c : Char) :
    (String.utf8EncodeChar c).getLast? = some 0 ↔ c = '\x00' := by
  have hlow : ∀ n : Nat, UInt8.ofNat (n % 64 + 128) ≠ 0 := by
    intro n h
    have hnat := congrArg UInt8.toNat h
    rw [UInt8.toNat_ofNat'] at hnat
    have hzero : (0 : UInt8).toNat = 0 := rfl
    omega
  by_cases hascii : c.val.toNat ≤ 0x7f
  · have hencode : String.utf8EncodeChar c = [UInt8.ofNat c.val.toNat] := if_pos hascii
    rw [hencode, List.getLast?_singleton, Option.some.injEq]
    constructor
    · intro h
      have hnat := congrArg UInt8.toNat h
      rw [UInt8.toNat_ofNat'] at hnat
      have hzero : (0 : UInt8).toNat = 0 := rfl
      have hc : c.toNat = 0 := by
        show c.val.toNat = 0
        omega
      exact Char.toNat_inj.mp hc
    · intro h
      rw [h]
      rfl
  · have hne : c ≠ '\x00' := by
      intro h
      rw [h] at hascii
      exact hascii (by decide)
    apply iff_of_false _ hne
    rw [String.utf8EncodeChar]
    simp only [if_neg hascii]
    split
    · exact fun h => hlow _ (Option.some.inj h)
    · split <;> exact fun h => hlow _ (Option.some.inj h)

theorem toList_toByteArray (text : String) :
    text.toByteArray.data.toList = text.toList.flatMap String.utf8EncodeChar := by
  rw [← String.utf8Encode_toList]
  exact List.toList_data_toByteArray

theorem getLast?_toByteArray (text : String) :
    text.toByteArray.data.toList.getLast? = some 0 ↔ text.toList.getLast? = some '\x00' := by
  rw [toList_toByteArray]
  cases List.eq_nil_or_concat text.toList with
  | inl hempty => rw [hempty, List.flatMap_nil, List.getLast?_nil, List.getLast?_nil]; decide
  | inr hconcat =>
    have ⟨front, last, htext⟩ := hconcat
    have hsome : (String.utf8EncodeChar last).getLast? ≠ none := by
      rw [ne_eq, List.getLast?_eq_none_iff]
      exact String.utf8EncodeChar_ne_nil
    have ⟨byte, hbyte⟩ := Option.ne_none_iff_exists'.mp hsome
    have hchar := getLast?_utf8EncodeChar last
    rw [hbyte] at hchar
    rw [htext, List.concat_eq_append, List.flatMap_append, List.flatMap_singleton,
      List.getLast?_append, hbyte, List.getLast?_concat, Option.some_or]
    exact hchar.trans Option.some_inj.symm

theorem fromUTF8?_eq_some {data : ByteArray} {text : String} :
    String.fromUTF8? data = some text ↔ text.toUTF8 = data := by
  rw [String.fromUTF8?]
  constructor
  · intro h
    split at h
    · rw [← Option.some.inj h]
      rfl
    · cases h
  · intro h
    rw [← h]
    exact dif_pos text.isValidUTF8

/-! ## The route -/

/-- The bytes are a diff of these records. -/
def Diff (data : ByteArray) (records : List Record) : Prop :=
  records ≠ [] ∧ data = (String.ofList (nameStatus records)).toUTF8

theorem splitOn_nameStatus (records : List Record) :
    ((nameStatus records).splitOn '\x00').dropLast = records.flatMap Record.fields := by
  rw [nameStatus, SplitText.splitOn_terminated, List.dropLast_concat]
  intro field hfield
  have ⟨record, _, hof⟩ := List.mem_flatMap.mp hfield
  exact Record.unterminated hof

theorem getLast?_nameStatus {records : List Record} (h : records ≠ []) :
    (nameStatus records).getLast? = some '\x00' := by
  have hfields : records.flatMap Record.fields ≠ [] := by
    cases records with
    | nil => exact absurd rfl h
    | cons record rest => exact List.cons_ne_nil _ _
  rw [nameStatus, SplitText.terminated_eq_intercalate hfields, List.getLast?_concat]

theorem Diff.inj {data : ByteArray} {records records' : List Record} (h : Diff data records)
    (h' : Diff data records') : records = records' := by
  have htext : nameStatus records = nameStatus records' := by
    have hbytes := String.toByteArray_inj.mp (h.2.symm.trans h'.2)
    exact String.ofList_injective hbytes
  apply flatMap_fields_inj
  rw [← splitOn_nameStatus, htext, splitOn_nameStatus]

/-- A diff goes where its paths send it. -/
theorem classifyDiff_of_diff {data : ByteArray} {records : List Record} (h : Diff data records) :
    classifyDiff data = if (records.flatMap Record.paths).all docsPath then
        (.docs, "all changed paths are in the documentation allowlist")
      else (.full, "changed paths require full validation") := by
  have hlast : data.data.toList.getLast? = some 0 := by
    rw [h.2]
    apply (getLast?_toByteArray _).mpr
    rw [String.toList_ofList]
    exact getLast?_nameStatus h.1
  have hsize : data.size ≠ 0 := by
    intro hzero
    have hempty : data.data.toList = [] := List.eq_nil_of_length_eq_zero hzero
    rw [hempty] at hlast
    cases hlast
  have hdecode : String.fromUTF8? data = some (String.ofList (nameStatus records)) :=
    fromUTF8?_eq_some.mpr h.2.symm
  rw [classifyDiff, if_neg (not_or.mpr ⟨hsize, fun hne => hne hlast⟩), hdecode]
  simp only [String.toList_ofList, splitOn_nameStatus, readPaths_records]

/-- What is no diff is malformed. -/
theorem classifyDiff_of_malformed {data : ByteArray} (h : ∀ records, ¬Diff data records) :
    classifyDiff data = (.full, "empty or malformed diff") := by
  rw [classifyDiff]
  split
  · rfl
  · rename_i hends
    rw [not_or, not_not] at hends
    split
    · rfl
    · rename_i text htext
      split
      · rfl
      · rename_i paths hread
        have hdata := fromUTF8?_eq_some.mp htext
        have hlast : text.toList.getLast? = some '\x00' := by
          apply (getLast?_toByteArray text).mp
          rw [← hends.2, ← hdata]
          rfl
        have hfields : ∀ field ∈ (text.toList.splitOn '\x00').dropLast, '\x00' ∉ field :=
          fun field hfield =>
            SplitText.sep_not_mem_of_mem_splitOn (List.dropLast_subset _ hfield)
        have ⟨records, hrecords⟩ := exists_records hfields hread
        have hstatus : nameStatus records = text.toList := by
          rw [nameStatus, hrecords, SplitText.terminated_splitOn hlast]
        have hsome : records ≠ [] := by
          intro hnil
          rw [hnil] at hstatus
          rw [← hstatus] at hlast
          cases hlast
        exact absurd ⟨hsome, by rw [hstatus, String.ofList_toList, hdata]⟩ (h records)

/-- The full validation is left out for the records of documentation, and for nothing else. -/
theorem classifyDiff_spec (data : ByteArray) :
    ((classifyDiff data).1 = .docs ↔
      ∃ records, Diff data records ∧
        ∀ record ∈ records, ∀ path ∈ record.paths, Documentation path) ∧
      ((classifyDiff data).1 ≠ .docs → (classifyDiff data).1 = .full) ∧
      ∀ records records', Diff data records → Diff data records' → records = records' := by
  constructor
  · constructor
    · intro hdocs
      by_cases hdiff : ∃ records, Diff data records
      · have ⟨records, hrecords⟩ := hdiff
        rw [classifyDiff_of_diff hrecords] at hdocs
        split at hdocs
        · rename_i hall
          apply Exists.intro records
          apply And.intro hrecords
          intro record hrecord path hpath
          apply (docsPath_iff path).mp
          exact List.all_eq_true.mp hall path (List.mem_flatMap.mpr ⟨record, hrecord, hpath⟩)
        · cases hdocs
      · rw [classifyDiff_of_malformed (not_exists.mp hdiff)] at hdocs
        cases hdocs
    · intro hrecords
      have ⟨records, hdiff, hpaths⟩ := hrecords
      have hall : (records.flatMap Record.paths).all docsPath = true := by
        apply List.all_eq_true.mpr
        intro path hpath
        have ⟨record, hrecord, hof⟩ := List.mem_flatMap.mp hpath
        exact (docsPath_iff path).mpr (hpaths record hrecord path hof)
      rw [classifyDiff_of_diff hdiff, if_pos hall]
  · constructor
    · intro hdocs
      cases hroute : (classifyDiff data).1 with
      | docs => exact absurd hroute hdocs
      | full => rfl
    · exact fun records records' h h' => h.inj h'

end Wallow.Publication.ChangedPaths
