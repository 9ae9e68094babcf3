import Wallow.Telemetry.SanitizedAgain

/-!
# The passes of a batch

What the page writes of a sanitized batch, the queue and the relay read and sanitize again.
-/

namespace Wallow.Telemetry.Sanitizer

open Js Privacy

/-! ## What is written -/

variable {ν Ref : Type} {P : Platform ν} {heap : Heap ν Ref} {now : String}

theorem written_object {N : Numbers ν} {fields : List (String × Json)} (keys : List String)
    (harranged : keys.Pairwise fun a b => a ≠ b ∧ precedes b a = false)
    (hkeys : (fields.map (·.1)).Sublist keys) (h : ∀ field ∈ fields, Written N field.2) :
    Written N (.object fields) :=
  .object (arranged_iff.mpr (harranged.sublist hkeys)) h

/-- The keys of what the sanitizer writes: no key is an index. -/
theorem arranged_keys : ∀ keys ∈ [["key", "value"], ["filename", "lineno", "colno"],
    ["message", "level", "timestamp", "trace", "context"],
    ["type", "value", "timestamp", "stacktrace", "trace", "context"],
    ["type", "timestamp", "values", "context"], ["name", "timestamp", "domain", "attributes"],
    ["name", "timeUnixNano", "attributes"],
    ["traceId", "spanId", "parentSpanId", "name", "kind", "startTimeUnixNano", "endTimeUnixNano",
      "events", "status", "attributes"],
    ["scope", "spans"], ["resource", "scopeSpans"],
    ["logs", "exceptions", "measurements", "events", "traces"]],
    keys.Pairwise fun a b => a ≠ b ∧ precedes b a = false := by
  decide +kernel

theorem written_toJson (n : ν) : Written P.numbers (P.numbers.toJson n) := by
  rw [Numbers.toJson]
  cases htext : P.numbers.text n with
  | none => exact .null
  | some literal => exact .number (P.numbers.text_parse n literal htext)

theorem written_numberField (key : String) (value : Value ν Ref) :
    ∀ field ∈ numberField P key value, Written P.numbers field.2 := by
  cases value with
  | number n =>
    intro field hfield
    rw [List.mem_singleton.mp hfield]
    exact written_toJson n
  | _ => exact fun field hfield => absurd hfield List.not_mem_nil

theorem written_hexField {N : Numbers ν} (key : String) (n : Nat) (value : Value ν Ref) :
    ∀ field ∈ hexField key n value, Written N field.2 := by
  intro field hfield
  cases hexField_cases key n value with
  | inl hnone =>
    rw [hnone] at hfield
    exact absurd hfield List.not_mem_nil
  | inr hsome =>
    have ⟨text, _, heq⟩ := hsome
    rw [heq] at hfield
    rw [List.mem_singleton.mp hfield]
    exact .string text

theorem written_traceContext {N : Numbers ν} (value : Value ν Ref) :
    Written N (traceContext heap value) := by
  cases traceContext_cases heap value with
  | inl hnone =>
    rw [hnone]
    exact .object List.Pairwise.nil fun field hfield => absurd hfield List.not_mem_nil
  | inr hsome =>
    have ⟨trace, span, _, heq⟩ := hsome
    rw [heq]
    refine written_object ["trace_id", "span_id"] (by decide) (List.Sublist.refl _) ?_
    simp only [List.forall_mem_cons, List.not_mem_nil, false_implies, implies_true, and_true]
    exact ⟨.string trace, .string span⟩

theorem Contextual.written {N : Numbers ν} {attributes : List (String × Json)}
    (h : Contextual attributes) : Written N (.object attributes) := by
  refine .object h.arranged fun a ha => ?_
  have ⟨value, hvalue⟩ := h.item a ha
  rw [hvalue]
  exact .string value

theorem Contextual.written_otlp {N : Numbers ν} {attributes : List (String × Json)}
    (h : Contextual attributes) : Written N (otlpJson attributes) := by
  refine .array fun json hjson => ?_
  have ⟨a, ha, heq⟩ := List.mem_map.mp hjson
  have ⟨value, hvalue⟩ := h.item a ha
  have ⟨key, item⟩ := a
  dsimp only at hvalue heq
  rw [← heq, hvalue]
  have hwire : Written N (.object [("stringValue", .string value)]) := by
    refine written_object ["stringValue"] (by decide) (List.Sublist.refl _) ?_
    simp only [List.forall_mem_cons, List.not_mem_nil, false_implies, implies_true, and_true]
    exact .string value
  refine written_object ["key", "value"] (arranged_keys _ (by simp)) (List.Sublist.refl _) ?_
  simp only [List.forall_mem_cons, List.not_mem_nil, false_implies, implies_true, and_true]
  exact ⟨.string key, hwire⟩

theorem written_frame (item : Value ν Ref) : Written P.numbers (frame P heap item) := by
  refine written_object ["filename", "lineno", "colno"] (arranged_keys _ (by simp)) ?_ ?_
  · rw [List.map_append, List.map_append]
    exact ((List.Sublist.refl ["filename"]).append
      (optional_numberField "lineno" _).keys_sublist).append
        (optional_numberField "colno" _).keys_sublist
  · intro field hfield
    rw [List.mem_append, List.mem_append] at hfield
    rcases hfield with (hfield | hfield) | hfield
    · rw [List.mem_singleton.mp hfield]
      exact .string _
    · exact written_numberField _ _ field hfield
    · exact written_numberField _ _ field hfield

theorem written_map {α : Type} {N : Numbers ν} {f : α → Json} {xs : List α}
    (h : ∀ x ∈ xs, Written N (f x)) : Written N (.array (xs.map f)) :=
  .array (List.forall_mem_map.mpr h)

theorem written_frames (value : Value ν Ref) :
    Written P.numbers (.object [("frames", .array (frames P heap value))]) := by
  refine written_object ["frames"] (by decide) (List.Sublist.refl _) ?_
  simp only [List.forall_mem_cons, List.not_mem_nil, false_implies, implies_true, and_true]
  exact written_map fun item _ => written_frame item

theorem written_measured (values : List (String × Value ν Ref)) :
    Written P.numbers (.object (measured P values)) := by
  have ⟨harranged, _, hfields⟩ := measured_spec (P := P) values
  refine .object harranged fun field hfield => ?_
  have ⟨_, n, literal, htext, hvalue⟩ := hfields field hfield
  rw [hvalue]
  exact .number (P.numbers.text_parse n literal htext)

theorem written_bounded {toJson : FaroRecord → Json} {source : Value ν Ref}
    {transform : List (String × Value ν Ref) → FaroRecord}
    (h : ∀ item, Written P.numbers (toJson (transform item))) :
    ∀ r ∈ (bounded heap toJson source transform).1, Written P.numbers (toJson r) := by
  intro r hr
  have ⟨item, _, heq⟩ := List.mem_map.mp (List.mem_filter.mp hr).1
  rw [← heq]
  exact h _

variable [DecidableEq Ref]

theorem written_context (value : Value ν Ref) :
    Written P.numbers (.object (context P heap value)) :=
  (context_contextual value).written

theorem written_log (item : List (String × Value ν Ref)) :
    Written P.numbers ((log P now heap item).toJson "context") := by
  refine written_object ["message", "level", "timestamp", "trace", "context"]
    (arranged_keys _ (by simp)) (List.Sublist.refl _) ?_
  simp only [log, List.forall_mem_cons, List.cons_append, List.nil_append, List.not_mem_nil,
    false_implies, implies_true, and_true]
  exact ⟨.string _, .string _, .string _, written_traceContext _, written_context _⟩

theorem written_exception (error : List (String × Value ν Ref)) :
    Written P.numbers ((exception P now heap error).toJson "context") := by
  refine written_object ["type", "value", "timestamp", "stacktrace", "trace", "context"]
    (arranged_keys _ (by simp)) (List.Sublist.refl _) ?_
  simp only [exception, List.forall_mem_cons, List.cons_append, List.nil_append, List.not_mem_nil,
    false_implies, implies_true, and_true]
  exact ⟨.string _, .string _, .string _, written_frames _, written_traceContext _,
    written_context _⟩

theorem written_measurement (item : List (String × Value ν Ref)) :
    Written P.numbers ((measurement P now heap item).toJson "context") := by
  refine written_object ["type", "timestamp", "values", "context"] (arranged_keys _ (by simp))
    (List.Sublist.refl _) ?_
  simp only [measurement, List.forall_mem_cons, List.cons_append, List.nil_append, List.not_mem_nil,
    false_implies, implies_true, and_true]
  exact ⟨.string _, .string _, written_measured _, written_context _⟩

theorem written_event (item : List (String × Value ν Ref)) :
    Written P.numbers ((event P now heap item).toJson "attributes") := by
  refine written_object ["name", "timestamp", "domain", "attributes"] (arranged_keys _ (by simp))
    (List.Sublist.refl _) ?_
  simp only [event, List.forall_mem_cons, List.cons_append, List.nil_append, List.not_mem_nil,
    false_implies, implies_true, and_true]
  exact ⟨.string _, .string _, .string _, written_context _⟩

theorem written_spanEvent (item : Value ν Ref) :
    Written P.numbers (spanEvent P heap item) := by
  refine written_object ["name", "timeUnixNano", "attributes"] (arranged_keys _ (by simp))
    (List.Sublist.refl _) ?_
  simp only [List.forall_mem_cons, List.not_mem_nil, false_implies, implies_true, and_true]
  exact ⟨.string _, .string _, (context_contextual _).written_otlp⟩

theorem written_span (item : List (String × Value ν Ref)) :
    Written P.numbers (span P heap item).spanJson := by
  refine written_object ["traceId", "spanId", "parentSpanId", "name", "kind", "startTimeUnixNano",
    "endTimeUnixNano", "events", "status", "attributes"] (arranged_keys _ (by simp)) ?_ ?_
  · rw [span]
    simp only [List.map_append]
    exact ((((((optional_hexField "traceId" 32 _).keys_sublist.append
      (optional_hexField "spanId" 16 _).keys_sublist).append
        (optional_hexField "parentSpanId" 16 _).keys_sublist).append
          (List.Sublist.refl ["name"])).append (optional_numberField "kind" _).keys_sublist).append
            (List.Sublist.refl ["startTimeUnixNano", "endTimeUnixNano", "events", "status"])).append
              (List.Sublist.refl ["attributes"])
  · intro field hfield
    rw [span, List.mem_append, List.mem_append, List.mem_append, List.mem_append, List.mem_append,
      List.mem_append] at hfield
    rcases hfield with (((((hfield | hfield) | hfield) | hfield) | hfield) | hfield) | hfield
    · exact written_hexField _ _ _ field hfield
    · exact written_hexField _ _ _ field hfield
    · exact written_hexField _ _ _ field hfield
    · rw [List.mem_singleton.mp hfield]
      exact .string _
    · exact written_numberField _ _ field hfield
    · have hstatus : Written P.numbers (.object
          (numberField P "code" (member (record heap (member item "status")) "code"))) :=
        written_object ["code"] (by decide) (optional_numberField "code" _).keys_sublist
          (written_numberField _ _)
      revert field
      simp only [List.forall_mem_cons, List.not_mem_nil, false_implies, implies_true, and_true]
      exact ⟨.string _, .string _, written_map fun event _ => written_spanEvent event, hstatus⟩
    · rw [List.mem_singleton.mp hfield]
      exact (context_contextual _).written_otlp

theorem written_scope (scope : Value ν Ref) :
    Written P.numbers (scopeJson (scopeSpans P heap scope).1) := by
  have hname : Written P.numbers (.object [("name", .string "wallow.browser")]) := by
    refine written_object ["name"] (by decide) (List.Sublist.refl _) ?_
    simp only [List.forall_mem_cons, List.not_mem_nil, false_implies, implies_true, and_true]
    exact .string _
  refine written_object ["scope", "spans"] (arranged_keys _ (by simp)) (List.Sublist.refl _) ?_
  simp only [List.forall_mem_cons, List.not_mem_nil, false_implies, implies_true, and_true]
  exact ⟨hname, written_map fun r hr => written_bounded written_span r (List.mem_filter.mp hr).1⟩

theorem written_resource (resource : Value ν Ref) :
    Written P.numbers (resourceJson (resourceScopes P heap resource).1) := by
  have hattributes : Written P.numbers (.object [("attributes", .array [])]) := by
    refine written_object ["attributes"] (by decide) (List.Sublist.refl _) ?_
    simp only [List.forall_mem_cons, List.not_mem_nil, false_implies, implies_true, and_true]
    exact .array fun item hitem => absurd hitem List.not_mem_nil
  refine written_object ["resource", "scopeSpans"] (arranged_keys _ (by simp))
    (List.Sublist.refl _) ?_
  simp only [List.forall_mem_cons, List.not_mem_nil, false_implies, implies_true, and_true]
  refine ⟨hattributes, written_map fun spans hspans => ?_⟩
  rw [resourceScopes, List.map_map] at hspans
  obtain ⟨scope, _, heq⟩ := List.mem_map.mp hspans
  rw [← heq]
  exact written_scope scope

/-- What is made of any batch is written as JSON is. -/
theorem written_batch (input : Value ν Ref) :
    Written P.numbers (sanitizeFaroBatch P now heap input).1.toJson := by
  have htraces : Written P.numbers (FaroBatch.tracesJson
      (traces P heap (member (record heap input) "traces")).1) := by
    refine written_object ["resourceSpans"] (by decide) (List.Sublist.refl _) ?_
    simp only [List.forall_mem_cons, List.not_mem_nil, false_implies, implies_true, and_true]
    refine written_map fun scopes hscopes => ?_
    rw [traces, List.map_map] at hscopes
    obtain ⟨resource, _, heq⟩ := List.mem_map.mp hscopes
    rw [← heq]
    exact written_resource resource
  refine written_object ["logs", "exceptions", "measurements", "events", "traces"]
    (arranged_keys _ (by simp)) (List.Sublist.refl _) ?_
  simp only [FaroBatch.toFields, List.forall_mem_cons, List.not_mem_nil, false_implies,
    implies_true, and_true]
  exact ⟨written_map (written_bounded written_log), written_map (written_bounded written_exception),
    written_map (written_bounded written_measurement), written_map (written_bounded written_event),
    htraces⟩

/-! ## Passes -/

/-- One pass after the other, at these times, with the number of what they drop. -/
def passes (P : Platform ν) (times : List String) (b : FaroBatch) : FaroBatch × Nat :=
  times.foldl (fun done time =>
    let next := sanitizePayload P time done.1.toJson
    (next.1, done.2 + next.2)) (b, 0)

theorem passes_of_stays (P : Platform ν) {b : FaroBatch}
    (h : ∀ time, sanitizePayload P time b.toJson = (b, 0)) (times : List String) :
    passes P times b = (b, 0) := by
  unfold passes
  induction times with
  | nil => rfl
  | cons time times ih =>
    rw [List.foldl_cons]
    simp only [h time]
    exact ih

/-- A sanitized batch stays as it is in another pass, and loses nothing, where `text` leaves the
texts of its attributes alone and its numbers are finite; then it stays so in any further pass. -/
theorem sanitized_again_iff (P : Platform ν) (heap : Heap ν Ref) {now : String}
    (hnow : P.dates.iso now = some now) (later : String) (input : Value ν Ref) :
    (sanitizePayload P later (sanitizeFaroBatch P now heap input).1.toJson =
        ((sanitizeFaroBatch P now heap input).1, 0) ↔ StableBatch P heap now input) ∧
      (StableBatch P heap now input → ∀ times,
        passes P times (sanitizeFaroBatch P now heap input).1 =
          ((sanitizeFaroBatch P now heap input).1, 0)) := by
  have hiff : ∀ time, sanitizePayload P time (sanitizeFaroBatch P now heap input).1.toJson =
      ((sanitizeFaroBatch P now heap input).1, 0) ↔ StableBatch P heap now input := fun time =>
    sanitizeFaroBatch_again time hnow (denotes_parsed P.numbers _ (written_batch input) [] rfl)
  exact ⟨hiff later, fun hstable => passes_of_stays P fun time => (hiff time).mpr hstable⟩

/-! ## An address that the first pass makes -/

def noon : String := "2026-01-02T12:00:00.000Z"

/-- A page whose path has a letter that is not of ASCII before the `@`. -/
def pageEvents : Json :=
  .object [("events", .array [.object [("name", .string "page.view"), ("timestamp", .string noon),
    ("attributes", .object [("page", .string "http://h/é@b.com")])]])]

theorem second_pass_differs : sanitizePayload plainPlatform noon
    (sanitizePayload plainPlatform noon pageEvents).1.toJson ≠
      ((sanitizePayload plainPlatform noon pageEvents).1, 0) := by
  have htexts : (sanitizePayload plainPlatform noon
      (sanitizePayload plainPlatform noon pageEvents).1.toJson).1.toJson.stringify ≠
        (sanitizePayload plainPlatform noon pageEvents).1.toJson.stringify := by
    decide +kernel
  exact fun hsame => htexts (congrArg (fun result => result.1.toJson.stringify) hsame)

theorem iso_noon : plainPlatform.dates.iso noon = some noon := by
  decide +kernel

theorem sanitized_again_iff_page : ¬ StableBatch plainPlatform
    (parsed plainPlatform.numbers pageEvents) noon
      (ofJson plainPlatform.numbers [] pageEvents) := by
  have hagain := sanitized_again_iff plainPlatform (parsed plainPlatform.numbers pageEvents)
    iso_noon noon (ofJson plainPlatform.numbers [] pageEvents)
  exact fun hstable => second_pass_differs (hagain.1.mpr hstable)

/-- Not every sanitized batch stays as it is. -/
theorem address_after_encoding : ¬ ∀ (now later : String) (payload : Json),
    plainPlatform.dates.iso now = some now →
      sanitizePayload plainPlatform later (sanitizePayload plainPlatform now payload).1.toJson =
        ((sanitizePayload plainPlatform now payload).1, 0) :=
  fun hall => second_pass_differs (hall noon noon pageEvents iso_noon)

end Wallow.Telemetry.Sanitizer
