import Wallow.Lib.SplitText
import Mathlib.Data.List.Basic

/-!
# Private source maps

`PrivateSourceMaps.cs`: what is kept of an uploaded map, the decoder of its mappings, and the
position it answers.  `none` is a thrown exception: an answer of 400 at an upload, and uncaught at
a lookup.
-/

namespace Wallow.Telemetry.PrivateSourceMaps

open SplitText

def ALPHABET : List Char :=
  "ABCDEFGHIJKLMNOPQRSTUVWXYZabcdefghijklmnopqrstuvwxyz0123456789+/".toList
def MAP_BYTES : Nat := 64 * 1024
def MAX_SEGMENTS : Nat := 16384
def INT_MIN : Int := -2147483648
def INT_MAX : Int := 2147483647

/-- `checked` arithmetic on an `int`. -/
def checked (n : Int) : Option Int := if INT_MIN ≤ n ∧ n ≤ INT_MAX then some n else none

/-! ## What is stored -/

structure StoredMap where
  sources : List String
  names : List String
  mappings : String
  deriving DecidableEq

structure SourcePosition where
  file : String
  line : Int
  column : Int
  function : Option String
  deriving DecidableEq

def label (value : List Char) : Bool :=
  0 < value.length && value.length ≤ 128 &&
    value.all fun c => c.isAlphanum || c = '_' || c = '-' || c = '.'

def safeName (value : List Char) : String :=
  if label value then String.ofList value else "unknown"

def basename (value : List Char) : String :=
  let slashes := value.map fun c => if c = '\\' then '/' else c
  let path := slashes.takeWhile fun c => c ≠ '?' && c ≠ '#'
  safeName ((split '/' path).getLast (split_ne_nil '/' path))

/-! ## The decoder -/

/-- The sums that run through all lines, and the segments counted so far. -/
structure Running where
  source : Int
  originalLine : Int
  originalColumn : Int
  name : Int
  segments : Nat
  deriving DecidableEq

/-- A segment with its column, and the position it maps to, where it has a source. -/
structure Located where
  column : Int
  position : Option SourcePosition
  deriving DecidableEq

/-- The number in the low bit of which stands its sign. -/
def signed (value : BitVec 32) : Option Int :=
  if value &&& 1 = 0 then checked (value >>> 1).toNat
  else (checked (value >>> 1).toNat).map (- ·)

/-- The loops over a segment: between two numbers `shift` is 0. -/
def readValues (value : BitVec 32) (shift : Nat) (values : List Int) :
    List Char → Option (List Int)
  | [] => if shift = 0 then some values else none
  | c :: rest =>
    if shift > 30 then none
    else
      match ALPHABET.idxOf? c with
      | none => none
      | some digit =>
        if shift = 30 ∧ digit &&& 31 > 3 then none
        else
          let value := value ||| (BitVec.ofNat 32 (digit &&& 31) <<< shift)
          if digit &&& 32 ≠ 0 then readValues value (shift + 5) values rest
          else
            match signed value with
            | none => none
            | some n =>
              if (values ++ [n]).length > 5 then none
              else readValues 0 0 (values ++ [n]) rest

/-- The name of a fifth value. -/
def readName (map : StoredMap) (name : Int) (delta : Option Int) : Option (Int × Option String) :=
  match delta with
  | none => some (name, none)
  | some delta => do
    let name ← checked (name + delta)
    if name < 0 ∨ name ≥ map.names.length then none
    else some (name, map.names[name.toNat]?)

def readPosition (map : StoredMap) (running : Running) (source line column : Int)
    (name : Option Int) : Option (Running × SourcePosition) := do
  let source ← checked (running.source + source)
  let originalLine ← checked (running.originalLine + line)
  let originalColumn ← checked (running.originalColumn + column)
  if source < 0 ∨ source ≥ map.sources.length ∨ originalLine < 0 ∨ originalColumn < 0 then none
  else do
    let (name, function) ← readName map running.name name
    let line ← checked (originalLine + 1)
    let column ← checked (originalColumn + 1)
    some ({ running with source, originalLine, originalColumn, name },
      ⟨map.sources.getD source.toNat "", line, column, function⟩)

/-- One segment of a line, up to the comparison with what is asked for. -/
def readSegment (map : StoredMap) (running : Running) (generatedColumn : Int)
    (segment : List Char) : Option (Running × Located) :=
  if running.segments + 1 > MAX_SEGMENTS then none
  else do
    let running := { running with segments := running.segments + 1 }
    let values ← readValues 0 0 [] segment
    match values with
    | [column] => do
      let column ← checked (generatedColumn + column)
      if column < 0 then none else some (running, ⟨column, none⟩)
    | column :: source :: line :: originalColumn :: name => do
      -- at most five values are read
      let column ← checked (generatedColumn + column)
      if column < 0 then none
      else do
        let (running, position) ← readPosition map running source line originalColumn name.head?
        some (running, ⟨column, some position⟩)
    | _ => none

/-- The loop over the segments of a line; `asked` is the column, on the line that is asked for. -/
def decodeLine (map : StoredMap) (asked : Option Int) (running : Running) (generatedColumn : Int)
    (result : Option SourcePosition) :
    List (List Char) → Option (Running × Option SourcePosition)
  | [] => some (running, result)
  | segment :: rest => do
    let (running, located) ← readSegment map running generatedColumn segment
    let result :=
      if asked.any fun column => located.column ≤ column then located.position else result
    decodeLine map asked running located.column result rest

/-- `Split(',', RemoveEmptyEntries)`. -/
def segmentsOf (line : List Char) : List (List Char) := (split ',' line).filter (· ≠ [])

def decodeLines (map : StoredMap) (requestedLine requestedColumn : Int) (running : Running)
    (generatedLine : Int) (result : Option SourcePosition) :
    List (List Char) → Option (Option SourcePosition)
  | [] => some result
  | line :: rest => do
    let asked := if generatedLine = requestedLine then some requestedColumn else none
    let (running, result) ← decodeLine map asked running 0 result (segmentsOf line)
    decodeLines map requestedLine requestedColumn running (generatedLine + 1) result rest

def Running.initial : Running := ⟨0, 0, 0, 0, 0⟩

def decode (map : StoredMap) (requestedLine requestedColumn : Int) :
    Option (Option SourcePosition) :=
  decodeLines map requestedLine requestedColumn .initial 0 none (split ';' map.mappings.toList)

/-! ## Upload and lookup -/

/-- What an upload stores of the three fields it reads; `none` is its 400. -/
def upload (sources names : List (List Char)) (mappings : String) : Option StoredMap :=
  if sources.length > 1024 ∨ names.length > 4096 ∨ mappings.length > MAP_BYTES then none
  else
    let sanitized : StoredMap := ⟨sources.map basename, names.map safeName, mappings⟩
    (decode sanitized 0 0).map fun _ => sanitized

/-- How a lookup ends: refused, decoded, or failed with an exception nothing catches. -/
inductive LookupAnswer
  | badRequest
  | found (position : Option SourcePosition)
  | failed
  deriving DecidableEq

def lookup (map : StoredMap) (line column : Int) : LookupAnswer :=
  if line < 1 ∨ line > 1000000 ∨ column < 1 ∨ column > 1000000 then .badRequest
  else
    match decode map (line - 1) (column - 1) with
    | none => .failed
    | some position => .found position

/-! ## The decoded lines -/

/-- The located segments of a line, whatever is asked for. -/
def locateLine (map : StoredMap) (running : Running) (generatedColumn : Int) :
    List (List Char) → Option (Running × List Located)
  | [] => some (running, [])
  | segment :: rest => do
    let (running, located) ← readSegment map running generatedColumn segment
    let (running, others) ← locateLine map running located.column rest
    some (running, located :: others)

def locateLines (map : StoredMap) (running : Running) :
    List (List Char) → Option (List (List Located))
  | [] => some []
  | line :: rest => do
    let (running, segments) ← locateLine map running 0 (segmentsOf line)
    let others ← locateLines map running rest
    some (segments :: others)

/-- The segments of every line of a map. -/
def locate (map : StoredMap) : Option (List (List Located)) :=
  locateLines map .initial (split ';' map.mappings.toList)

/-- The segments in range. -/
def inRange (column : Int) (segments : List Located) : List Located :=
  segments.filter fun s => s.column ≤ column

/-- The position the last segment in range maps to. -/
def lastInRange (column : Int) (segments : List Located) : Option SourcePosition :=
  (inRange column segments).getLast?.bind (·.position)

/-- The segments of the line that is asked for, if there is such a line. -/
def lineOf (lines : List (List Located)) (requestedLine : Int) : List Located :=
  if requestedLine < 0 then [] else lines.getD requestedLine.toNat []

/-- What the loop of a line leaves is the last segment in range, or what it was given. -/
theorem decodeLine_eq (map : StoredMap) (asked : Option Int) (texts : List (List Char))
    (running : Running) (generatedColumn : Int) (result : Option SourcePosition) :
    decodeLine map asked running generatedColumn result texts =
      (locateLine map running generatedColumn texts).map fun (running, segments) =>
        (running, match asked.bind fun column => (inRange column segments).getLast? with
          | none => result
          | some last => last.position) := by
  induction texts generalizing running generatedColumn result with
  | nil => cases asked <;> rfl
  | cons text rest ih =>
    rw [decodeLine, locateLine]
    cases hsegment : readSegment map running generatedColumn text with
    | none => rfl
    | some read =>
      obtain ⟨running', located⟩ := read
      simp only [Option.bind_eq_bind, Option.bind_some, ih]
      cases hrest : locateLine map running' located.column rest with
      | none => rfl
      | some rest =>
        obtain ⟨final, others⟩ := rest
        simp only [Option.map_some, Option.bind_some]
        cases asked with
        | none => rfl
        | some column =>
          congr 2
          simp only [Option.any_some, Option.bind_some, inRange, List.filter_cons]
          by_cases hcolumn : located.column ≤ column
          · simp only [hcolumn, decide_true, if_true, List.getLast?_cons]
            cases (others.filter fun s => decide (s.column ≤ column)).getLast? <;> rfl
          · simp only [hcolumn, decide_false, Bool.false_eq_true, if_false]

theorem lineOf_cons (segments : List Located) (others : List (List Located)) {n : Int}
    (h : n ≠ 0) : lineOf (segments :: others) n = lineOf others (n - 1) := by
  unfold lineOf
  by_cases hneg : n < 0
  · rw [if_pos hneg, if_pos (by omega)]
  · have hsucc : n.toNat = (n - 1).toNat + 1 := by omega
    rw [if_neg hneg, if_neg (by omega), hsucc, List.getD_cons_succ]

theorem decodeLines_eq (map : StoredMap) (requestedLine requestedColumn : Int)
    (lines : List (List Char)) (running : Running) (generatedLine : Int)
    (result : Option SourcePosition) :
    decodeLines map requestedLine requestedColumn running generatedLine result lines =
      (locateLines map running lines).map fun located =>
        match (inRange requestedColumn
          (lineOf located (requestedLine - generatedLine))).getLast? with
        | none => result
        | some last => last.position := by
  induction lines generalizing running generatedLine result with
  | nil =>
    have hempty : lineOf [] (requestedLine - generatedLine) = [] := by
      unfold lineOf
      split <;> rfl
    rw [decodeLines, locateLines, Option.map_some, hempty]
    rfl
  | cons line rest ih =>
    rw [decodeLines, locateLines]
    simp only [Option.bind_eq_bind, decodeLine_eq]
    cases hline : locateLine map running 0 (segmentsOf line) with
    | none => rfl
    | some read =>
      obtain ⟨running', segments⟩ := read
      simp only [Option.map_some, Option.bind_some, ih]
      cases hrest : locateLines map running' rest with
      | none => rfl
      | some others =>
        simp only [Option.map_some, Option.bind_some, Option.some.injEq]
        by_cases hasked : generatedLine = requestedLine
        · -- the lines after the one that is asked for keep the result
          have hpast : lineOf others (requestedLine - (generatedLine + 1)) = [] := by
            unfold lineOf
            rw [if_pos (by omega)]
          have hhere : lineOf (segments :: others) (requestedLine - generatedLine) = segments := by
            rw [hasked, Int.sub_self]
            rfl
          rw [hpast, hhere, if_pos hasked]
          rfl
        · have hnext : lineOf (segments :: others) (requestedLine - generatedLine) =
              lineOf others (requestedLine - (generatedLine + 1)) := by
            rw [lineOf_cons segments others (by omega)]
            congr 1
            omega
          rw [hnext, if_neg hasked]
          rfl

/-- The decoder answers the position of the last segment in range on the line that is asked for,
and throws for a map whose segments cannot be read, whatever is asked for. -/
theorem decode_eq (map : StoredMap) (requestedLine requestedColumn : Int) :
    decode map requestedLine requestedColumn =
      (locate map).map fun lines => lastInRange requestedColumn (lineOf lines requestedLine) := by
  unfold decode locate
  rw [decodeLines_eq, Int.sub_zero]
  congr 1
  funext lines
  unfold lastInRange
  cases (inRange requestedColumn (lineOf lines requestedLine)).getLast? <;> rfl

/-! ## The nearest segment -/

/-- The position that the segment with the greatest column in range maps to; none where no segment
is in range. -/
def Nearest (segments : List Located) (column : Int) (result : Option SourcePosition) : Prop :=
  ((∀ s ∈ segments, column < s.column) ∧ result = none) ∨
    ∃ s ∈ segments, s.column ≤ column ∧ (∀ t ∈ segments, t.column ≤ column → t.column ≤ s.column) ∧
      result = s.position

instance (segments : List Located) (column : Int) (result : Option SourcePosition) :
    Decidable (Nearest segments column result) :=
  inferInstanceAs (Decidable (_ ∨ _))

/-- The last segment in range stands behind one of a greater column in range, and maps to another
position than each segment of the greatest column in range. -/
def Overtaken (segments : List Located) (column : Int) : Prop :=
  ∃ before last after, segments = before ++ last :: after ∧ last.column ≤ column ∧
    (∀ t ∈ after, column < t.column) ∧
    (∃ s ∈ before, s.column ≤ column ∧ last.column < s.column) ∧
    ∀ s ∈ before, s.column ≤ column → (∀ t ∈ before, t.column ≤ column → t.column ≤ s.column) →
      s.position ≠ last.position

/-- Where there is a segment in range, there is a last one. -/
theorem exists_last_inRange {segments : List Located} {column : Int}
    (h : ∃ s ∈ segments, s.column ≤ column) :
    ∃ before last after, segments = before ++ last :: after ∧ last.column ≤ column ∧
      (∀ t ∈ after, column < t.column) := by
  induction segments with
  | nil =>
    obtain ⟨s, hs, -⟩ := h
    exact absurd hs List.not_mem_nil
  | cons first rest ih =>
    by_cases hrest : ∃ s ∈ rest, s.column ≤ column
    · obtain ⟨before, last, after, rfl, hlast, hafter⟩ := ih hrest
      exact ⟨first :: before, last, after, rfl, hlast, hafter⟩
    · obtain ⟨s, hs, hcolumn⟩ := h
      rcases List.mem_cons.mp hs with rfl | hlater
      · refine ⟨[], s, rest, rfl, hcolumn, fun t ht => ?_⟩
        by_contra hle
        exact hrest ⟨t, ht, Int.not_lt.mp hle⟩
      · exact absurd ⟨s, hlater, hcolumn⟩ hrest

theorem lastInRange_of_split {before after : List Located} {last : Located} {column : Int}
    (hlast : last.column ≤ column) (hafter : ∀ t ∈ after, column < t.column) :
    lastInRange column (before ++ last :: after) = last.position := by
  have hnone : inRange column after = [] :=
    List.filter_eq_nil_iff.mpr fun t ht => by
      rw [decide_eq_true_iff]
      exact Int.not_le.mpr (hafter t ht)
  unfold lastInRange inRange
  rw [List.filter_append, List.filter_cons, decide_eq_true hlast, if_pos rfl]
  unfold inRange at hnone
  rw [hnone, List.getLast?_concat]
  rfl

/-- A segment in range is the last one in range or stands before it. -/
theorem mem_before_or_last {before after : List Located} {last s : Located} {column : Int}
    (hafter : ∀ t ∈ after, column < t.column) (hs : s ∈ before ++ last :: after)
    (hcolumn : s.column ≤ column) : s ∈ before ∨ s = last := by
  rcases List.mem_append.mp hs with hbefore | hrest
  · exact .inl hbefore
  · rcases List.mem_cons.mp hrest with rfl | hlater
    · exact .inr rfl
    · exact absurd (hafter s hlater) (Int.not_lt.mpr hcolumn)

/-- The last segment in range has the nearest position unless it is overtaken. -/
theorem nearest_iff_not_overtaken (segments : List Located) (column : Int) :
    Nearest segments column (lastInRange column segments) ↔ ¬Overtaken segments column := by
  by_cases hany : ∃ s ∈ segments, s.column ≤ column
  · constructor
    · rintro hnearest ⟨before, last, after, rfl, hlast, hafter, ⟨t, ht, htcolumn, hless⟩, hdiffer⟩
      rw [lastInRange_of_split hlast hafter] at hnearest
      rcases hnearest with ⟨hnone, -⟩ | ⟨s, hs, hcolumn, hmax, hposition⟩
      · obtain ⟨s, hs, hcolumn⟩ := hany
        exact absurd (hnone s hs) (Int.not_lt.mpr hcolumn)
      · -- the greatest column in range is that of `s`, which stands before the last segment
        have hgreater : last.column < s.column :=
          Int.lt_of_lt_of_le hless (hmax t (List.mem_append_left _ ht) htcolumn)
        have hbefore : s ∈ before := by
          rcases mem_before_or_last hafter hs hcolumn with hbefore | rfl
          · exact hbefore
          · exact absurd hgreater (Int.lt_irrefl _)
        exact hdiffer s hbefore hcolumn
          (fun u hu => hmax u (List.mem_append_left _ hu)) hposition.symm
    · intro hnot
      obtain ⟨before, last, after, rfl, hlast, hafter⟩ := exists_last_inRange hany
      rw [lastInRange_of_split hlast hafter]
      by_cases hless : ∃ t ∈ before, t.column ≤ column ∧ last.column < t.column
      · have hsame : ∃ s ∈ before, s.column ≤ column ∧
            (∀ t ∈ before, t.column ≤ column → t.column ≤ s.column) ∧
            s.position = last.position := by
          by_contra hdiffer
          refine hnot ⟨before, last, after, rfl, hlast, hafter, hless, ?_⟩
          intro s hs hcolumn hmax hposition
          exact hdiffer ⟨s, hs, hcolumn, hmax, hposition⟩
        obtain ⟨s, hs, hcolumn, hmax, hposition⟩ := hsame
        obtain ⟨t, ht, htcolumn, hgreater⟩ := hless
        refine .inr ⟨s, List.mem_append_left _ hs, hcolumn, fun u hu hucolumn => ?_, hposition.symm⟩
        rcases mem_before_or_last hafter hu hucolumn with hbefore | rfl
        · exact hmax u hbefore hucolumn
        · exact Int.le_of_lt (Int.lt_of_lt_of_le hgreater (hmax t ht htcolumn))
      · refine .inr ⟨last, List.mem_append_right _ List.mem_cons_self, hlast,
          fun u hu hucolumn => ?_, rfl⟩
        rcases mem_before_or_last hafter hu hucolumn with hbefore | rfl
        · by_contra hle
          exact hless ⟨u, hbefore, hucolumn, Int.not_le.mp hle⟩
        · exact Int.le_refl _
  · have hout : ∀ s ∈ segments, column < s.column := by
      intro s hs
      by_contra hle
      exact hany ⟨s, hs, Int.not_lt.mp hle⟩
    have hnone : lastInRange column segments = none := by
      have hfilter : inRange column segments = [] :=
        List.filter_eq_nil_iff.mpr fun t ht => by
          rw [decide_eq_true_iff]
          exact Int.not_le.mpr (hout t ht)
      unfold lastInRange
      rw [hfilter]
      rfl
    refine iff_of_true (.inl ⟨hout, hnone⟩) ?_
    rintro ⟨before, last, after, rfl, hlast, -⟩
    exact absurd (hout last (List.mem_append_right _ List.mem_cons_self)) (Int.not_lt.mpr hlast)

/-- For an accepted map the position answered is the nearest one exactly where the last segment in
range is not overtaken. -/
theorem decode_nearest_iff (map : StoredMap) (haccepted : (decode map 0 0).isSome) :
    ∃ lines, locate map = some lines ∧ ∀ requestedLine requestedColumn : Int,
      ∃ position, decode map requestedLine requestedColumn = some position ∧
        (Nearest (lineOf lines requestedLine) requestedColumn position ↔
          ¬Overtaken (lineOf lines requestedLine) requestedColumn) := by
  have hlocate : (locate map).isSome := by
    rw [decode_eq, Option.isSome_map] at haccepted
    exact haccepted
  obtain ⟨lines, hlines⟩ := Option.isSome_iff_exists.mp hlocate
  refine ⟨lines, hlines, fun requestedLine requestedColumn => ?_⟩
  refine ⟨lastInRange requestedColumn (lineOf lines requestedLine), ?_,
    nearest_iff_not_overtaken _ _⟩
  rw [decode_eq, hlines]
  rfl

theorem decode_nearest_iff_example :
    let map : StoredMap := ⟨["operation.ts"], ["performOperation"], "AAAAA,KACEA"⟩
    ∃ lines, locate map = some lines ∧ ∀ requestedLine requestedColumn : Int,
      ∃ position, decode map requestedLine requestedColumn = some position ∧
        (Nearest (lineOf lines requestedLine) requestedColumn position ↔
          ¬Overtaken (lineOf lines requestedLine) requestedColumn) :=
  decode_nearest_iff ⟨["operation.ts"], ["performOperation"], "AAAAA,KACEA"⟩ (by decide +kernel)

/-- A second segment three columns back is answered for column 5, where the first one stands. -/
theorem last_segment_answered :
    ∃ map lines position, upload ["a.ts".toList] [] "KAAA,FAAC" = some map ∧
      locate map = some lines ∧ lookup map 1 6 = .found position ∧
      ¬Nearest (lineOf lines 0) 5 position :=
  ⟨⟨["a.ts"], [], "KAAA,FAAC"⟩,
    [[⟨5, some ⟨"a.ts", 1, 1, none⟩⟩, ⟨3, some ⟨"a.ts", 1, 2, none⟩⟩]], some ⟨"a.ts", 1, 2, none⟩,
    by decide +kernel, by decide +kernel, by decide +kernel, by decide +kernel⟩

end Wallow.Telemetry.PrivateSourceMaps
