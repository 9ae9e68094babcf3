import Mathlib
import Wallow.Telemetry.SanitizedFields

/-!
# Batches sanitized again

A batch is sanitized by the page, by its queue and by the relay.  After the first pass it stays as
it is where `text` leaves every text of an attribute alone and every number has a text in JSON, and
nowhere else.
-/

namespace Wallow.Telemetry.Sanitizer

open Js Privacy

/-! ## What stays as it is -/

/-- A record that is kept: it is not too long, and not left out for another reason. -/
def isKept (toJson : FaroRecord → Json) (more : FaroRecord → Bool) (r : FaroRecord) : Bool :=
  more r && fits toJson r

section Stable

variable {ν Ref : Type} [DecidableEq Ref] (P : Platform ν) (heap : Heap ν Ref)

/-- `text` leaves the texts of these attributes alone. -/
def StableContext (value : Value ν Ref) : Prop :=
  ∀ a ∈ sanitizeAttributes P.numbers P.hosts heap value, FixedText P.hosts (attributeText a.2)

def StableOtlp (value : Value ν Ref) : Prop :=
  StableContext P (heap.withObject (otlpEntries heap value)) (.reference none)

def StableFrame (item : Value ν Ref) : Prop :=
  Finite P.numbers (member (record heap item) "lineno") ∧
    Finite P.numbers (member (record heap item) "colno")

def StableException (error : List (String × Value ν Ref)) : Prop :=
  (∀ item ∈ (list heap (member (record heap (member error "stacktrace")) "frames")).take
      BROWSER_LIMITS.attributes, StableFrame P heap item) ∧
    StableContext P heap (member error "context")

def StableSpan (span : List (String × Value ν Ref)) : Prop :=
  Finite P.numbers (member span "kind") ∧
    Finite P.numbers (member (record heap (member span "status")) "code") ∧
    (∀ event ∈ list heap (member span "events"),
      StableOtlp P heap (member (record heap event) "attributes")) ∧
    StableOtlp P heap (member span "attributes")

/-- The spans of a scope that are kept. -/
def StableScope (scope : Value ν Ref) : Prop :=
  ∀ item ∈ list heap (member (record heap scope) "spans"),
    isKept FaroRecord.spanJson isIdentified (span P heap (record heap item)) = true →
      StableSpan P heap (record heap item)

/-- What is said of the records that are kept, and of the spans among them. -/
structure StableBatch (now : String) (input : Value ν Ref) : Prop where
  logs : ∀ item ∈ list heap (member (record heap input) "logs"),
    fits (·.toJson "context") (log P now heap (record heap item)) = true →
      StableContext P heap (member (record heap item) "context")
  exceptions : ∀ item ∈ list heap (member (record heap input) "exceptions"),
    fits (·.toJson "context") (exception P now heap (record heap item)) = true →
      StableException P heap (record heap item)
  measurements : ∀ item ∈ list heap (member (record heap input) "measurements"),
    fits (·.toJson "context") (measurement P now heap (record heap item)) = true →
      StableContext P heap (member (record heap item) "context")
  events : ∀ item ∈ list heap (member (record heap input) "events"),
    fits (·.toJson "attributes") (event P now heap (record heap item)) = true →
      StableContext P heap (member (record heap item) "attributes")
  traces : ∀ resource ∈
      list heap (member (record heap (member (record heap input) "traces")) "resourceSpans"),
    ∀ scope ∈ list heap (member (record heap resource) "scopeSpans"), StableScope P heap scope

end Stable

/-! ## Fields that may be left out -/

/-- At most one field, with this key. -/
def Optional (key : String) (fields : List (String × Json)) : Prop :=
  fields = [] ∨ ∃ json, fields = [(key, json)]

variable {key other : String} {fields fields' : List (String × Json)}

theorem Optional.lookup_ne (h : Optional key fields) (hne : other ≠ key) :
    fields.lookup other = none := by
  cases h with
  | inl hnone =>
    rw [hnone]
    rfl
  | inr hsome =>
    have ⟨json, hfields⟩ := hsome
    rw [hfields, List.lookup_cons, beq_eq_false_iff_ne.mpr hne]
    rfl

theorem Optional.ext (h : Optional key fields) (h' : Optional key fields')
    (hlookup : fields.lookup key = fields'.lookup key) : fields = fields' := by
  cases h with
  | inl hnone =>
    cases h' with
    | inl hnone' => rw [hnone, hnone']
    | inr hsome' =>
      have ⟨json, hfields⟩ := hsome'
      rw [hnone, hfields, List.lookup_cons_self] at hlookup
      cases hlookup
  | inr hsome =>
    have ⟨json, hfields⟩ := hsome
    cases h' with
    | inl hnone' =>
      rw [hnone', hfields, List.lookup_cons_self] at hlookup
      cases hlookup
    | inr hsome' =>
      have ⟨json', hfields'⟩ := hsome'
      rw [hfields, hfields', List.lookup_cons_self, List.lookup_cons_self] at hlookup
      rw [hfields, hfields', Option.some.inj hlookup]

theorem Optional.keys_sublist (h : Optional key fields) : (fields.map (·.1)).Sublist [key] := by
  cases h with
  | inl hnone =>
    rw [hnone]
    exact List.nil_sublist _
  | inr hsome =>
    have ⟨json, hfields⟩ := hsome
    rw [hfields]
    exact List.Sublist.refl _

theorem Optional.append_eq_iff {rest rest' : List (String × Json)} (h : Optional key fields)
    (h' : Optional key fields') (hrest : rest.lookup key = none)
    (hrest' : rest'.lookup key = none) :
    fields ++ rest = fields' ++ rest' ↔ fields = fields' ∧ rest = rest' := by
  refine ⟨fun hsame => ?_, fun hboth => by rw [hboth.1, hboth.2]⟩
  have hlookup := congrArg (List.lookup key) hsame
  rw [List.lookup_append, List.lookup_append, hrest, hrest', Option.or_none, Option.or_none]
    at hlookup
  have hfields := h.ext h' hlookup
  rw [hfields] at hsame
  exact ⟨hfields, List.append_cancel_left hsame⟩

variable {ν Ref Ref' : Type} {P : Platform ν} {heap : Heap ν Ref} {heap' : Heap ν Ref'}
  {now : String}

theorem optional_hexField (key : String) (n : Nat) (value : Value ν Ref) :
    Optional key (hexField key n value) := by
  cases hexField_cases key n value with
  | inl hnone => exact Or.inl hnone
  | inr hsome =>
    have ⟨text, _, hfield⟩ := hsome
    exact Or.inr ⟨_, hfield⟩

theorem optional_numberField (key : String) (value : Value ν Ref) :
    Optional key (numberField P key value) := by
  cases value with
  | number n => exact Or.inr ⟨_, rfl⟩
  | _ => exact Or.inl rfl

theorem lookup_hexField (n : Nat) (value : Value ν Ref) (hne : other ≠ key) :
    (hexField key n value).lookup other = none :=
  (optional_hexField key n value).lookup_ne hne

theorem lookup_numberField (value : Value ν Ref) (hne : other ≠ key) :
    (numberField P key value).lookup other = none :=
  (optional_numberField key value).lookup_ne hne

/-! ## Records -/

/-- Two maps of lists that stand for each other agree where they agree on every item. -/
theorem map_eq_map_iff {α β γ : Type} {R : β → α → Prop} {f : α → γ} {g : β → γ} {S : α → Prop}
    {ys : List β} {xs : List α} (hread : List.Forall₂ R ys xs)
    (h : ∀ x ∈ xs, ∀ y, R y x → (g y = f x ↔ S x)) : ys.map g = xs.map f ↔ ∀ x ∈ xs, S x := by
  induction hread with
  | nil => exact ⟨fun _ x hx => absurd hx List.not_mem_nil, fun _ => rfl⟩
  | cons hfirst hrest ih =>
    rename_i y x ys xs
    rw [List.map_cons, List.map_cons, List.cons.injEq, List.forall_mem_cons,
      h x List.mem_cons_self y hfirst, ih fun x' hx' => h x' (List.mem_cons_of_mem x hx')]

/-- The same for maps to what is kept and a number of what is dropped. -/
theorem map_fst_eq_map_fst_iff {α β γ : Type} {R : β → α → Prop} {f : α → γ × Nat}
    {g : β → γ × Nat} {S : α → Prop} {ys : List β} {xs : List α} (hread : List.Forall₂ R ys xs)
    (h : ∀ x ∈ xs, ∀ y, R y x → ((g y).1 = (f x).1 ↔ S x) ∧ (S x → (g y).2 = 0)) :
    ((ys.map g).map (·.1) = (xs.map f).map (·.1) ↔ ∀ x ∈ xs, S x) ∧
      ((∀ x ∈ xs, S x) → ((ys.map g).map (·.2)).sum = 0) := by
  rw [List.map_map, List.map_map]
  refine ⟨map_eq_map_iff hread fun x hx y hy => (h x hx y hy).1, fun hall => ?_⟩
  induction hread with
  | nil => rfl
  | cons hfirst hrest ih =>
    rename_i y x ys xs
    have hzero := (h x List.mem_cons_self y hfirst).2 (hall x List.mem_cons_self)
    have hzeros := ih (fun x' hx' => h x' (List.mem_cons_of_mem x hx'))
      fun x' hx' => hall x' (List.mem_cons_of_mem x hx')
    rw [List.map_cons, List.map_cons, List.sum_cons, hzero, hzeros]

theorem frame_again {item : Value ν Ref} {read : Value ν Ref'}
    (h : Denotes P.numbers heap' read (frame P heap item)) :
    frame P heap' read = frame P heap item ↔ StableFrame P heap item := by
  have hreads := reads_record h
  have hfilename : member (record heap' read) "filename" =
      .string (fileName (member (record heap item) "filename")) := hreads.string rfl
  have hlineno := hreads.field "lineno"
  have hcolno := hreads.field "colno"
  have hnone : ∀ value : Value ν Ref, (numberField P "colno" value).lookup "lineno" = none :=
    fun value => (optional_numberField "colno" value).lookup_ne (by decide)
  have hnone' : ∀ value : Value ν Ref', (numberField P "colno" value).lookup "lineno" = none :=
    fun value => (optional_numberField "colno" value).lookup_ne (by decide)
  rw [List.lookup_append, hnone, Option.or_none] at hlineno
  rw [List.lookup_append, List.lookup_append,
    (optional_numberField "lineno" _).lookup_ne (by decide)] at hcolno
  have hlineno' := numberField_numberField (P := P) hlineno
  have hcolno' := numberField_numberField (P := P) hcolno
  rw [StableFrame, ← hlineno', ← hcolno', frame, frame]
  simp only [hfilename, fileName_fileName]
  rw [Json.object.injEq, List.append_assoc, List.append_assoc, List.append_cancel_left_eq,
    Optional.append_eq_iff (optional_numberField "lineno" _) (optional_numberField "lineno" _)
      (hnone' _) (hnone _)]

theorem frames_again {value : Value ν Ref} {read : Value ν Ref'}
    (h : Denotes P.numbers heap' read (.object [("frames", .array (frames P heap value))])) :
    frames P heap' read = frames P heap value ↔
      ∀ item ∈ (list heap (member (record heap value) "frames")).take BROWSER_LIMITS.attributes,
        StableFrame P heap item := by
  have hbound : BROWSER_LIMITS.attributes ≤ BROWSER_LIMITS.events := by decide
  have hlength : (frames P heap value).length ≤ BROWSER_LIMITS.attributes := by
    rw [frames, List.length_map]
    exact List.length_take_le _ _
  have hframes : Denotes P.numbers heap' (member (record heap' read) "frames")
      (.array (frames P heap value)) := (reads_record h).member_some rfl
  have hlist := denotes_list hframes (by omega)
  rw [frames, List.take_of_length_le (hlist.length_eq ▸ hlength)]
  rw [frames, List.forall₂_map_right_iff] at hlist
  exact map_eq_map_iff hlist fun item _ y hy => frame_again hy

theorem measured_spec (values : List (String × Value ν Ref)) :
    Arranged (measured P values) ∧ (measured P values).length ≤ BROWSER_LIMITS.attributes ∧
      ∀ field ∈ measured P values, nameText field.1 "" ≠ "" ∧
        ∃ n literal, P.numbers.text n = some literal ∧ field.2 = .number literal := by
  refine ⟨arranged_fromEntries _, ?_, fun field hfield => ?_⟩
  · exact Nat.le_trans (length_fromEntries_le _)
      (Nat.le_trans (List.length_filterMap_le _ _) (List.length_take_le _ _))
  · have ⟨entry, _, hentry⟩ := List.mem_filterMap.mp (mem_fromEntries hfield)
    rw [measuredEntry] at hentry
    split at hentry
    · rename_i n _
      split at hentry
      · cases hentry
      · rename_i hname
        have ⟨literal, htext, heq⟩ := Option.map_eq_some_iff.mp hentry
        rw [← heq]
        exact ⟨hname, n, literal, htext, rfl⟩
    · cases hentry

theorem measured_again {values : List (String × Value ν Ref)} {read : Value ν Ref'}
    (h : Denotes P.numbers heap' read (.object (measured P values))) :
    measured P (record heap' read) = measured P values := by
  have ⟨harranged, hlength, hfields⟩ := measured_spec (P := P) values
  have hreads := reads_record h
  generalize measured P values = fields at harranged hlength hfields hreads
  have hfilter : (record heap' read).filterMap (measuredEntry P) = fields := by
    generalize record heap' read = entries at hreads
    clear harranged hlength h
    induction hreads with
    | nil => rfl
    | cons hfirst hrest ih =>
      rename_i entry field entries fields
      have ⟨hname, n, literal, htext, hvalue⟩ := hfields field List.mem_cons_self
      have ⟨key, value⟩ := entry
      have ⟨key', value'⟩ := field
      dsimp only at hfirst hname hvalue
      rw [hvalue] at hfirst
      have ⟨n', hnumber, htext'⟩ := hfirst.2.exists_number
      have hentry : measuredEntry P (key', (.number n' : Value ν Ref')) =
          some (key', .number literal) := by
        rw [measuredEntry]
        dsimp only
        rw [if_neg hname, htext']
        rfl
      rw [hnumber, hfirst.1, hvalue, List.filterMap_cons, hentry]
      dsimp only
      rw [ih fun field hfield => hfields field (List.mem_cons_of_mem _ hfield)]
  rw [measured, List.take_of_length_le (hreads.length_eq ▸ hlength), hfilter,
    fromEntries_of_arranged harranged]

/-- The records of a list that are kept, read back. -/
theorem bounded_again {toJson : FaroRecord → Json} {source : Value ν Ref} {read : Value ν Ref'}
    {transform : List (String × Value ν Ref) → FaroRecord}
    {transform' : List (String × Value ν Ref') → FaroRecord}
    {Stable : List (String × Value ν Ref) → Prop} {more : FaroRecord → Bool}
    (hagain : ∀ item y, Denotes P.numbers heap' y (toJson (transform item)) →
      (transform' (record heap' y) = transform item ↔ Stable item))
    (hread : Denotes P.numbers heap' read
      (.array (((bounded heap toJson source transform).1.filter more).map toJson))) :
    ((bounded heap' toJson read transform').1.filter more =
        (bounded heap toJson source transform).1.filter more ↔
      ∀ item ∈ list heap source, isKept toJson more (transform (record heap item)) = true →
        Stable (record heap item)) ∧
    ((∀ item ∈ list heap source, isKept toJson more (transform (record heap item)) = true →
        Stable (record heap item)) → (bounded heap' toJson read transform').2 = 0) := by
  have hboth : ∀ records : List FaroRecord,
      (records.filter (fits toJson)).filter more = records.filter (isKept toJson more) :=
    fun records => List.filter_filter
  let kept := (list heap source).filter fun item =>
    isKept toJson more (transform (record heap item))
  have hkept : (bounded heap toJson source transform).1.filter more =
      kept.map fun item => transform (record heap item) := by
    rw [bounded, hboth, List.filter_map]
    rfl
  have hlength : kept.length ≤ BROWSER_LIMITS.events :=
    Nat.le_trans (List.length_filter_le _ _) (List.length_take_le _ _)
  rw [hkept, List.map_map] at hread
  have hitems := denotes_items hread
  have hlist := denotes_list hread (by rw [List.length_map]; exact hlength)
  rw [List.forall₂_map_right_iff] at hlist
  have hmap := map_eq_map_iff (g := fun y => transform' (record heap' y))
    (f := fun item => transform (record heap item)) (S := fun item => Stable (record heap item))
    hlist fun item _ y hy => hagain _ y hy
  have hstable : (∀ item ∈ kept, Stable (record heap item)) ↔ ∀ item ∈ list heap source,
      isKept toJson more (transform (record heap item)) = true → Stable (record heap item) := by
    simp [kept, List.mem_filter]
  have hkeep : ∀ r ∈ kept.map fun item => transform (record heap item),
      isKept toJson more r = true := by
    intro r hr
    have ⟨item, hitem, heq⟩ := List.mem_map.mp hr
    exact heq ▸ (List.mem_filter.mp hitem).2
  rw [hkept, ← hstable, ← hmap, bounded]
  dsimp only
  rw [hboth]
  refine ⟨⟨fun hfilter => ?_, fun hsame => ?_⟩, fun hsame => ?_⟩
  · -- as many are read as are kept, so all are
    have hsub : (kept.map fun item => transform (record heap item)).Sublist
        ((list heap' read).map fun y => transform' (record heap' y)) :=
      hfilter ▸ List.filter_sublist
    refine (hsub.eq_of_length ?_).symm
    rw [List.length_map, List.length_map, hlist.length_eq]
  · rw [hsame]
    exact List.filter_eq_self.mpr hkeep
  · have hnone : ((list heap' read).map fun y => transform' (record heap' y)).filter
        (fun item => !fits toJson item) = [] := by
      rw [hsame]
      apply List.filter_eq_nil_iff.mpr
      intro r hr
      have hfits : fits toJson r = true := (Bool.and_eq_true _ _ ▸ hkeep r hr).2
      rw [hfits]
      exact Bool.noConfusion
    rw [hnone, hitems.length_eq, List.length_map, List.length_nil]
    omega

/-- A list of signals read back, where nothing is left out but for its size. -/
theorem signals_again {toJson : FaroRecord → Json} {source : Value ν Ref} {read : Value ν Ref'}
    {transform : List (String × Value ν Ref) → FaroRecord}
    {transform' : List (String × Value ν Ref') → FaroRecord}
    {Stable : List (String × Value ν Ref) → Prop}
    (hagain : ∀ item y, Denotes P.numbers heap' y (toJson (transform item)) →
      (transform' (record heap' y) = transform item ↔ Stable item))
    (hread : Denotes P.numbers heap' read
      (.array ((bounded heap toJson source transform).1.map toJson))) :
    ((bounded heap' toJson read transform').1 = (bounded heap toJson source transform).1 ↔
      ∀ item ∈ list heap source, fits toJson (transform (record heap item)) = true →
        Stable (record heap item)) ∧
    ((∀ item ∈ list heap source, fits toJson (transform (record heap item)) = true →
        Stable (record heap item)) → (bounded heap' toJson read transform').2 = 0) := by
  have hall : ∀ records : List FaroRecord, records.filter (fun _ => true) = records :=
    fun records => List.filter_eq_self.mpr fun _ _ => rfl
  rw [← hall (bounded heap toJson source transform).1] at hread
  have hagain' := bounded_again hagain hread
  rw [hall, hall] at hagain'
  exact hagain'

variable [DecidableEq Ref] [DecidableEq Ref']

theorem stableContext_iff (value : Value ν Ref) : StableContext P heap value ↔
    ∀ a ∈ context P heap value, FixedText P.hosts (itemText a.2) := by
  rw [context_eq, StableContext, List.forall_mem_map]
  rfl

theorem context_again_iff {value : Value ν Ref} {read : Value ν Ref'}
    (h : Denotes P.numbers heap' read (.object (context P heap value))) :
    context P heap' read = context P heap value ↔ StableContext P heap value := by
  rw [context_denotes h (context_contextual value), stableContext_iff]
  exact map_rewritten_eq_iff P.hosts (context_contextual value)

theorem otlpAttributes_again_iff {value : Value ν Ref} {read : Value ν Ref'}
    (h : Denotes P.numbers heap' read (otlpJson (otlpAttributes P heap value))) :
    otlpAttributes P heap' read = otlpAttributes P heap value ↔ StableOtlp P heap value := by
  rw [otlpAttributes_again h (context_contextual _), StableOtlp, stableContext_iff]
  exact map_rewritten_eq_iff P.hosts (context_contextual _)

theorem log_again (later : String) (hnow : P.dates.iso now = some now)
    {item : List (String × Value ν Ref)} {read : Value ν Ref'}
    (h : Denotes P.numbers heap' read ((log P now heap item).toJson "context")) :
    log P later heap' (record heap' read) = log P now heap item ↔
      StableContext P heap (member item "context") := by
  have hreads := reads_record h
  have hmessage : member (record heap' read) "message" =
      .string (name (member item "message") "browser.log") := hreads.string rfl
  have hlevel : member (record heap' read) "level" =
      .string (name (member item "level") "info") := hreads.string rfl
  have htime : member (record heap' read) "timestamp" =
      .string (timestamp P now (member item "timestamp")) := hreads.string rfl
  have htrace : Denotes P.numbers heap' (member (record heap' read) "trace")
      (traceContext heap (member item "trace")) := hreads.member_some rfl
  have hcontext : Denotes P.numbers heap' (member (record heap' read) "context")
      (.object (context P heap (member item "context"))) := hreads.member_some rfl
  have hnames : ∀ value : Value ν Ref,
      name (.string (name value "browser.log") : Value ν Ref') "browser.log" =
        name value "browser.log" := fun value => name_name value (by decide) _
  have hlevels : ∀ value : Value ν Ref,
      name (.string (name value "info") : Value ν Ref') "info" =
        name value "info" := fun value => name_name value (by decide) _
  rw [log, log, hmessage, hlevel, htime, hnames, hlevels, timestamp_timestamp hnow,
    traceContext_traceContext htrace, FaroRecord.mk.injEq, eq_self_iff_true, true_and,
    context_again_iff hcontext]

theorem exception_again (later : String) (hnow : P.dates.iso now = some now)
    {error : List (String × Value ν Ref)} {read : Value ν Ref'}
    (h : Denotes P.numbers heap' read ((exception P now heap error).toJson "context")) :
    exception P later heap' (record heap' read) = exception P now heap error ↔
      StableException P heap error := by
  have hreads := reads_record h
  have htype : member (record heap' read) "type" =
      .string (name (member error "type") "Error") := hreads.string rfl
  have htime : member (record heap' read) "timestamp" =
      .string (timestamp P now (member error "timestamp")) := hreads.string rfl
  have hframes : Denotes P.numbers heap' (member (record heap' read) "stacktrace")
      (.object [("frames", .array (frames P heap (member error "stacktrace")))]) :=
    hreads.member_some rfl
  have htrace : Denotes P.numbers heap' (member (record heap' read) "trace")
      (traceContext heap (member error "trace")) := hreads.member_some rfl
  have hcontext : Denotes P.numbers heap' (member (record heap' read) "context")
      (.object (context P heap (member error "context"))) := hreads.member_some rfl
  have hnames : ∀ value : Value ν Ref, name (.string (name value "Error") : Value ν Ref') "Error" =
      name value "Error" := fun value => name_name value (by decide) _
  rw [StableException, ← frames_again hframes, ← context_again_iff hcontext]
  rw [exception, exception, htype, htime, hnames, timestamp_timestamp hnow,
    traceContext_traceContext htrace]
  simp

theorem measurement_again (later : String) (hnow : P.dates.iso now = some now)
    {item : List (String × Value ν Ref)} {read : Value ν Ref'}
    (h : Denotes P.numbers heap' read ((measurement P now heap item).toJson "context")) :
    measurement P later heap' (record heap' read) = measurement P now heap item ↔
      StableContext P heap (member item "context") := by
  have hreads := reads_record h
  have htype : member (record heap' read) "type" =
      .string (name (member item "type") "browser.performance") := hreads.string rfl
  have htime : member (record heap' read) "timestamp" =
      .string (timestamp P now (member item "timestamp")) := hreads.string rfl
  have hvalues : Denotes P.numbers heap' (member (record heap' read) "values")
      (.object (measured P (record heap (member item "values")))) := hreads.member_some rfl
  have hcontext : Denotes P.numbers heap' (member (record heap' read) "context")
      (.object (context P heap (member item "context"))) := hreads.member_some rfl
  have hnames : ∀ value : Value ν Ref,
      name (.string (name value "browser.performance") : Value ν Ref') "browser.performance" =
        name value "browser.performance" := fun value => name_name value (by decide) _
  rw [measurement, measurement, htype, htime, hnames, timestamp_timestamp hnow,
    measured_again hvalues, FaroRecord.mk.injEq, eq_self_iff_true, true_and,
    context_again_iff hcontext]

theorem event_again (later : String) (hnow : P.dates.iso now = some now)
    {item : List (String × Value ν Ref)} {read : Value ν Ref'}
    (h : Denotes P.numbers heap' read ((event P now heap item).toJson "attributes")) :
    event P later heap' (record heap' read) = event P now heap item ↔
      StableContext P heap (member item "attributes") := by
  have hreads := reads_record h
  have hname : member (record heap' read) "name" =
      .string (name (member item "name") "browser.event") := hreads.string rfl
  have htime : member (record heap' read) "timestamp" =
      .string (timestamp P now (member item "timestamp")) := hreads.string rfl
  have hcontext : Denotes P.numbers heap' (member (record heap' read) "attributes")
      (.object (context P heap (member item "attributes"))) := hreads.member_some rfl
  have hnames : ∀ value : Value ν Ref,
      name (.string (name value "browser.event") : Value ν Ref') "browser.event" =
        name value "browser.event" := fun value => name_name value (by decide) _
  rw [event, event, hname, htime, hnames, timestamp_timestamp hnow, FaroRecord.mk.injEq,
    eq_self_iff_true, true_and, context_again_iff hcontext]

/-! ## Spans -/

theorem spanEvent_again {item : Value ν Ref} {read : Value ν Ref'}
    (h : Denotes P.numbers heap' read (spanEvent P heap item)) :
    spanEvent P heap' read = spanEvent P heap item ↔
      StableOtlp P heap (member (record heap item) "attributes") := by
  have hreads := reads_record h
  have hname : member (record heap' read) "name" =
      .string (name (member (record heap item) "name") "browser.event") := hreads.string rfl
  have htime : member (record heap' read) "timeUnixNano" =
      .string (nano (member (record heap item) "timeUnixNano")) := hreads.string rfl
  have hattributes : Denotes P.numbers heap' (member (record heap' read) "attributes")
      (otlpJson (otlpAttributes P heap (member (record heap item) "attributes"))) :=
    hreads.member_some rfl
  have hnames : ∀ value : Value ν Ref,
      name (.string (name value "browser.event") : Value ν Ref') "browser.event" =
        name value "browser.event" := fun value => name_name value (by decide) _
  have hinj : ∀ attributes attributes' : List (String × Json),
      otlpJson attributes = otlpJson attributes' ↔ attributes = attributes' := by
    intro attributes attributes'
    rw [otlpJson, otlpJson, Json.array.injEq]
    refine (List.map_injective_iff.mpr ?_).eq_iff
    intro a a' heq
    simpa [Prod.ext_iff] using heq
  rw [← otlpAttributes_again_iff hattributes, spanEvent, spanEvent]
  simp only [hname, htime, hnames, nano_nano, Json.object.injEq, List.cons.injEq, Prod.mk.injEq,
    true_and, and_true, hinj]

theorem spanEvents_again {value : Value ν Ref} {read : Value ν Ref'}
    (h : Denotes P.numbers heap' read (.array ((list heap value).map (spanEvent P heap)))) :
    (list heap' read).map (spanEvent P heap') = (list heap value).map (spanEvent P heap) ↔
      ∀ event ∈ list heap value, StableOtlp P heap (member (record heap event) "attributes") := by
  have hlength : ((list heap value).map (spanEvent P heap)).length ≤ BROWSER_LIMITS.events := by
    rw [List.length_map]
    exact List.length_take_le _ _
  have hlist := denotes_list h hlength
  rw [List.forall₂_map_right_iff] at hlist
  exact map_eq_map_iff hlist fun event _ y hy => spanEvent_again hy

theorem span_again {item : List (String × Value ν Ref)} {read : Value ν Ref'}
    (h : Denotes P.numbers heap' read (span P heap item).spanJson) :
    span P heap' (record heap' read) = span P heap item ↔ StableSpan P heap item := by
  have hlookup := fun key => (reads_record h).field key
  simp only [span, List.lookup_append] at hlookup
  have htrace := hlookup "traceId"
  have hspan := hlookup "spanId"
  have hparent := hlookup "parentSpanId"
  have hname := hlookup "name"
  have hkind := hlookup "kind"
  have hstart := hlookup "startTimeUnixNano"
  have hend := hlookup "endTimeUnixNano"
  have hevents := hlookup "events"
  have hstatus := hlookup "status"
  have hattributes := hlookup "attributes"
  -- each name is found in its own field only
  simp [List.lookup_cons, lookup_hexField, lookup_numberField] at htrace hspan hparent hname hkind
  simp [List.lookup_cons, lookup_hexField, lookup_numberField] at hstart hend hevents hstatus
  simp [List.lookup_cons, lookup_hexField, lookup_numberField] at hattributes
  have hcode := (reads_record hstatus).field "code"
  have hnames : ∀ value : Value ν Ref,
      name (.string (name value "browser.operation") : Value ν Ref') "browser.operation" =
        name value "browser.operation" := fun value => name_name value (by decide) _
  rw [StableSpan, ← numberField_numberField (P := P) hkind,
    ← numberField_numberField (P := P) hcode, ← spanEvents_again hevents,
    ← otlpAttributes_again_iff hattributes]
  rw [span, span, FaroRecord.mk.injEq, hexField_hexField htrace, hexField_hexField hspan,
    hexField_hexField hparent, Denotes.eq_string hname, Denotes.eq_string hstart,
    Denotes.eq_string hend, hnames, nano_nano, nano_nano]
  simp only [List.append_assoc, List.append_cancel_left_eq]
  rw [Optional.append_eq_iff (optional_numberField "kind" _) (optional_numberField "kind" _) rfl
    rfl]
  simp only [List.cons.injEq, Prod.mk.injEq, Json.array.injEq, Json.object.injEq, true_and,
    and_true, and_assoc, and_congr_right_iff]
  exact fun _ => and_left_comm

/-- The spans of a scope, as they are written. -/
def scopeJson (spans : List FaroRecord) : Json :=
  .object [("scope", .object [("name", .string "wallow.browser")]),
    ("spans", .array (spans.map FaroRecord.spanJson))]

def resourceJson (scopes : List (List FaroRecord)) : Json :=
  .object [("resource", .object [("attributes", .array [])]),
    ("scopeSpans", .array (scopes.map scopeJson))]

theorem scopeSpans_again {scope : Value ν Ref} {read : Value ν Ref'}
    (h : Denotes P.numbers heap' read (scopeJson (scopeSpans P heap scope).1)) :
    ((scopeSpans P heap' read).1 = (scopeSpans P heap scope).1 ↔ StableScope P heap scope) ∧
      (StableScope P heap scope → (scopeSpans P heap' read).2 = 0) := by
  have hspans : Denotes P.numbers heap' (member (record heap' read) "spans")
      (.array ((scopeSpans P heap scope).1.map FaroRecord.spanJson)) :=
    (reads_record h).member_some rfl
  exact bounded_again (fun item y hy => span_again hy) hspans

theorem resourceScopes_again {resource : Value ν Ref} {read : Value ν Ref'}
    (h : Denotes P.numbers heap' read (resourceJson (resourceScopes P heap resource).1)) :
    ((resourceScopes P heap' read).1 = (resourceScopes P heap resource).1 ↔
      ∀ scope ∈ list heap (member (record heap resource) "scopeSpans"), StableScope P heap scope) ∧
    ((∀ scope ∈ list heap (member (record heap resource) "scopeSpans"),
        StableScope P heap scope) → (resourceScopes P heap' read).2 = 0) := by
  have hscopes : Denotes P.numbers heap' (member (record heap' read) "scopeSpans")
      (.array ((resourceScopes P heap resource).1.map scopeJson)) :=
    (reads_record h).member_some rfl
  have hlength : ((resourceScopes P heap resource).1.map scopeJson).length ≤
      BROWSER_LIMITS.events := by
    rw [resourceScopes, List.length_map, List.length_map, List.length_map]
    exact List.length_take_le _ _
  have hlist := denotes_list hscopes hlength
  rw [resourceScopes, List.map_map, List.map_map, List.forall₂_map_right_iff] at hlist
  exact map_fst_eq_map_fst_iff hlist fun scope _ y hy => scopeSpans_again hy

theorem traces_again {value : Value ν Ref} {read : Value ν Ref'}
    (h : Denotes P.numbers heap' read (FaroBatch.tracesJson (traces P heap value).1)) :
    ((traces P heap' read).1 = (traces P heap value).1 ↔
      ∀ resource ∈ list heap (member (record heap value) "resourceSpans"),
        ∀ scope ∈ list heap (member (record heap resource) "scopeSpans"),
          StableScope P heap scope) ∧
    ((∀ resource ∈ list heap (member (record heap value) "resourceSpans"),
        ∀ scope ∈ list heap (member (record heap resource) "scopeSpans"),
          StableScope P heap scope) → (traces P heap' read).2 = 0) := by
  have hresources : Denotes P.numbers heap' (member (record heap' read) "resourceSpans")
      (.array ((traces P heap value).1.map resourceJson)) := (reads_record h).member_some rfl
  have hlength : ((traces P heap value).1.map resourceJson).length ≤ BROWSER_LIMITS.events := by
    rw [traces, List.length_map, List.length_map, List.length_map]
    exact List.length_take_le _ _
  have hlist := denotes_list hresources hlength
  rw [traces, List.map_map, List.map_map, List.forall₂_map_right_iff] at hlist
  exact map_fst_eq_map_fst_iff hlist fun resource _ y hy => resourceScopes_again hy

/-- A batch read back is the batch, and nothing of it is dropped, where all is stable. -/
theorem sanitizeFaroBatch_again (later : String) (hnow : P.dates.iso now = some now)
    {input : Value ν Ref} {read : Value ν Ref'}
    (h : Denotes P.numbers heap' read (sanitizeFaroBatch P now heap input).1.toJson) :
    sanitizeFaroBatch P later heap' read = ((sanitizeFaroBatch P now heap input).1, 0) ↔
      StableBatch P heap now input := by
  have hreads := reads_record h
  have hlist : ∀ key items, (sanitizeFaroBatch P now heap input).1.toFields.lookup key =
      some (.array items) → Denotes P.numbers heap' (member (record heap' read) key)
        (.array items) := fun key items hkey => hreads.member_some hkey
  have hlogs := signals_again (fun item y hy => log_again later hnow hy)
    (hlist "logs" ((bounded heap (·.toJson "context") (member (record heap input) "logs")
      (log P now heap)).1.map (·.toJson "context")) rfl)
  have hexceptions := signals_again
    (fun item y hy => exception_again later hnow hy)
    (hlist "exceptions" ((bounded heap (·.toJson "context")
      (member (record heap input) "exceptions") (exception P now heap)).1.map
        (·.toJson "context")) rfl)
  have hmeasurements := signals_again
    (fun item y hy => measurement_again later hnow hy)
    (hlist "measurements" ((bounded heap (·.toJson "context")
      (member (record heap input) "measurements") (measurement P now heap)).1.map
        (·.toJson "context")) rfl)
  have hevents := signals_again
    (fun item y hy => event_again later hnow hy)
    (hlist "events" ((bounded heap (·.toJson "attributes")
      (member (record heap input) "events") (event P now heap)).1.map
        (·.toJson "attributes")) rfl)
  have hresources : Denotes P.numbers heap' (member (record heap' read) "traces")
      (FaroBatch.tracesJson (traces P heap (member (record heap input) "traces")).1) :=
    hreads.member_some rfl
  have htraces := traces_again hresources
  refine ⟨fun hsame => ?_, fun hstable => ?_⟩
  · have hbatch := FaroBatch.mk.inj (congrArg Prod.fst hsame)
    exact ⟨hlogs.1.mp hbatch.1, hexceptions.1.mp hbatch.2.1, hmeasurements.1.mp hbatch.2.2.1,
      hevents.1.mp hbatch.2.2.2.1, htraces.1.mp hbatch.2.2.2.2⟩
  · have hbatch := congr (congr (congr (congr (congrArg FaroBatch.mk (hlogs.1.mpr hstable.logs))
      (hexceptions.1.mpr hstable.exceptions)) (hmeasurements.1.mpr hstable.measurements))
        (hevents.1.mpr hstable.events)) (htraces.1.mpr hstable.traces)
    have hdropped : (sanitizeFaroBatch P later heap' read).2 = 0 := by
      show _ + _ + _ + _ + _ = 0
      rw [hlogs.2 hstable.logs, hexceptions.2 hstable.exceptions,
        hmeasurements.2 hstable.measurements, hevents.2 hstable.events, htraces.2 hstable.traces]
    exact Prod.ext hbatch hdropped

end Wallow.Telemetry.Sanitizer
