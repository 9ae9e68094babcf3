import Mathlib
import Wallow.Lib.JsonText

/-!
# Batches of browser telemetry

What the page records and the relay forwards: the signals of a batch with their attributes, and
the stamp the relay puts on each of them.
-/

namespace Wallow.Telemetry

namespace BROWSER_LIMITS

def batchBytes : Nat := 49152
def bufferedBytes : Nat := 262144
def eventBytes : Nat := 8192
def events : Nat := 256
def attributes : Nat := 32

end BROWSER_LIMITS

/-- A signal or a span: its attributes apart from its other fields. -/
structure FaroRecord where
  fields : List (String × Json)
  attributes : List (String × Json)

structure FaroBatch where
  logs : List FaroRecord
  exceptions : List FaroRecord
  measurements : List FaroRecord
  events : List FaroRecord
  /-- The spans of each scope of each resource. -/
  resourceSpans : List (List (List FaroRecord))

namespace FaroRecord

/-- A signal keeps its attributes in an object. -/
def toJson (field : String) (r : FaroRecord) : Json :=
  .object (r.fields ++ [(field, .object r.attributes)])

/-- A span keeps its attributes in a list. -/
def spanJson (r : FaroRecord) : Json :=
  .object (r.fields ++ [("attributes", .array (r.attributes.map fun (key, value) =>
    .object [("key", .string key), ("value", .object [("stringValue", value)])]))])

end FaroRecord

namespace FaroBatch

def empty : FaroBatch := ⟨[], [], [], [], []⟩

def tracesJson (resourceSpans : List (List (List FaroRecord))) : Json :=
  .object [("resourceSpans", .array (resourceSpans.map fun scopes =>
    .object [("resource", .object [("attributes", .array [])]),
      ("scopeSpans", .array (scopes.map fun spans =>
        .object [("scope", .object [("name", .string "wallow.browser")]),
          ("spans", .array (spans.map FaroRecord.spanJson))]))]))]

def toFields (b : FaroBatch) : List (String × Json) :=
  [("logs", .array (b.logs.map (·.toJson "context"))),
    ("exceptions", .array (b.exceptions.map (·.toJson "context"))),
    ("measurements", .array (b.measurements.map (·.toJson "context"))),
    ("events", .array (b.events.map (·.toJson "attributes"))),
    ("traces", tracesJson b.resourceSpans)]

def toJson (b : FaroBatch) : Json := .object b.toFields

def merge (left right : FaroBatch) : FaroBatch where
  logs := left.logs ++ right.logs
  exceptions := left.exceptions ++ right.exceptions
  measurements := left.measurements ++ right.measurements
  events := left.events ++ right.events
  resourceSpans := left.resourceSpans ++ right.resourceSpans

/-- `faroEventCount`. -/
def eventCount (b : FaroBatch) : Nat :=
  b.logs.length + b.exceptions.length + b.measurements.length + b.events.length +
    ((b.resourceSpans.take BROWSER_LIMITS.events).map fun scopes =>
      ((scopes.take BROWSER_LIMITS.events).map fun spans =>
        (spans.take BROWSER_LIMITS.events).length).sum).sum

/-- One of the lists of a batch is longer than the limit. -/
def overfull (b : FaroBatch) : Bool :=
  BROWSER_LIMITS.events < b.logs.length || BROWSER_LIMITS.events < b.exceptions.length ||
    BROWSER_LIMITS.events < b.events.length || BROWSER_LIMITS.events < b.measurements.length ||
    BROWSER_LIMITS.events < b.resourceSpans.length

end FaroBatch

/-- `record`. -/
def record (value : Json) : Json := if value.isObject then value else .object []

/-- `bounded`: no more than so many records, and none that is too long. -/
def bounded (toJson : FaroRecord → Json) (transform : FaroRecord → FaroRecord)
    (items : List FaroRecord) : List FaroRecord :=
  ((items.take BROWSER_LIMITS.events).map transform).filter fun item =>
    (toJson item).byteLength ≤ BROWSER_LIMITS.eventBytes

/-! ## The stamp -/

section Stamp

variable (trusted : List (String × String))

def isTrustedKey (key : String) : Bool := (trusted.map (·.1)).contains key

/-- The attributes that stay beside the trusted ones. -/
def ordinary (attributes : List (String × Json)) : List (String × Json) :=
  (attributes.filter fun (key, _) => !isTrustedKey trusted key).take
    (BROWSER_LIMITS.attributes - trusted.length)

def trustedAttributes : List (String × Json) :=
  trusted.map fun (key, value) => (key, .string value)

def stampRecord (r : FaroRecord) : FaroRecord :=
  { r with attributes := ordinary trusted r.attributes ++ trustedAttributes trusted }

def stampSpan (span : FaroRecord) : FaroRecord :=
  { span with
    attributes := ordinary trusted (span.attributes.take BROWSER_LIMITS.events) ++
      trustedAttributes trusted }

/-- Attach only context already authenticated by the application server. -/
def stampFaroContext (b : FaroBatch) : FaroBatch where
  logs := bounded (·.toJson "context") (stampRecord trusted) b.logs
  exceptions := bounded (·.toJson "context") (stampRecord trusted) b.exceptions
  measurements := bounded (·.toJson "context") (stampRecord trusted) b.measurements
  events := bounded (·.toJson "attributes") (stampRecord trusted) b.events
  resourceSpans := (b.resourceSpans.take BROWSER_LIMITS.events).map fun scopes =>
    (scopes.take BROWSER_LIMITS.events).map
      (bounded FaroRecord.spanJson (stampSpan trusted))

end Stamp

namespace FaroBatch

/-- Every signal and every span of the batch. -/
def records (b : FaroBatch) : List FaroRecord :=
  b.logs ++ b.exceptions ++ b.measurements ++ b.events ++ b.resourceSpans.flatten.flatten

end FaroBatch

/-- The record carries the trusted attributes, and no other attribute under their keys. -/
def StampedWith (trusted : List (String × String)) (r : FaroRecord) : Prop :=
  ∃ others, r.attributes = others ++ trustedAttributes trusted ∧
    ∀ a ∈ others, isTrustedKey trusted a.1 = false

variable {trusted : List (String × String)}

theorem ordinary_not_trusted {attributes : List (String × Json)} :
    ∀ a ∈ ordinary trusted attributes, isTrustedKey trusted a.1 = false := by
  intro a ha
  have hkept := (List.mem_filter.mp (List.mem_of_mem_take ha)).2
  simpa using hkept

theorem stampRecord_stamped (r : FaroRecord) : StampedWith trusted (stampRecord trusted r) :=
  ⟨_, rfl, ordinary_not_trusted⟩

theorem stampSpan_stamped (span : FaroRecord) : StampedWith trusted (stampSpan trusted span) :=
  ⟨_, rfl, ordinary_not_trusted⟩

theorem mem_bounded {toJson : FaroRecord → Json} {transform : FaroRecord → FaroRecord}
    {items : List FaroRecord} {r : FaroRecord} (h : r ∈ bounded toJson transform items) :
    ∃ item, transform item = r := by
  obtain ⟨item, -, hitem⟩ := List.mem_map.mp (List.mem_filter.mp h).1
  exact ⟨item, hitem⟩

/-- Every record of a stamped batch carries the stamp. -/
theorem stampFaroContext_stamped (b : FaroBatch) :
    ∀ r ∈ (stampFaroContext trusted b).records, StampedWith trusted r := by
  have hsignals : ∀ (field : String) (items : List FaroRecord),
      ∀ r ∈ bounded (·.toJson field) (stampRecord trusted) items, StampedWith trusted r := by
    intro field items r hr
    obtain ⟨item, rfl⟩ := mem_bounded hr
    exact stampRecord_stamped item
  intro r hr
  simp only [FaroBatch.records, stampFaroContext, List.mem_append] at hr
  obtain (((hr | hr) | hr) | hr) | hr := hr
  · exact hsignals _ _ r hr
  · exact hsignals _ _ r hr
  · exact hsignals _ _ r hr
  · exact hsignals _ _ r hr
  · obtain ⟨spans, hspans, hspan⟩ := List.mem_flatten.mp hr
    obtain ⟨scopes, hscopes, hscope⟩ := List.mem_flatten.mp hspans
    obtain ⟨_, -, rfl⟩ := List.mem_map.mp hscopes
    obtain ⟨_, -, rfl⟩ := List.mem_map.mp hscope
    obtain ⟨span, rfl⟩ := mem_bounded hspan
    exact stampSpan_stamped span

end Wallow.Telemetry
