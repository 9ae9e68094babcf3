import Mathlib
import Wallow.Telemetry.Attributes
import Wallow.Telemetry.Relay

/-!
# Rebuilding batches

`sanitizeFaroBatch`: every signal of a batch is built anew from the fields that are known, and what
is too much of anything is dropped and counted.
-/

namespace Wallow.Telemetry

open Js

/-- `Date.parse` and `toISOString`: the text of the date that a text stands for, which is short and
stands for the same date. -/
structure Dates where
  iso : String → Option String
  short : ∀ value text, iso value = some text →
    Js.length text.toList ≤ BROWSER_LIMITS.attributes
  iso_iso : ∀ value text, iso value = some text → iso text = some text

/-- What the language and the platform bring. -/
structure Platform (ν : Type) where
  numbers : Numbers ν
  hosts : WebUrl.HostParser
  dates : Dates

namespace Sanitizer

variable {ν Ref : Type}

section Reading

variable (heap : Heap ν Ref)

/-- `record`: the entries of an object. -/
def record (value : Value ν Ref) : List (String × Value ν Ref) :=
  match value with
  | .reference target =>
    match heap target with
    | .object entries _ => entries
    | .array _ => []
  | _ => []

def items (value : Value ν Ref) : List (Value ν Ref) :=
  match value with
  | .reference target =>
    match heap target with
    | .array items => items
    | .object _ _ => []
  | _ => []

def list (value : Value ν Ref) : List (Value ν Ref) :=
  (items heap value).take BROWSER_LIMITS.events

def member (entries : List (String × Value ν Ref)) (key : String) : Value ν Ref :=
  (entries.lookup key).getD .undefined

end Reading

/-! ## Fields -/

def isNameChar (c : Char) : Bool := c.isAlphanum || c = '_' || c = '.' || c = '-'

def isName : List Char → Bool
  | [] => false
  | c :: rest => c.isAlpha && rest.length ≤ 127 && rest.all isNameChar

def nameText (text fallback : String) : String :=
  if isName text.toList then text else fallback

def name (value : Value ν Ref) (fallback : String) : String :=
  match value with
  | .string text => nameText text fallback
  | _ => fallback

/-- `n` hexadecimal digits. -/
def isHexId (n : Nat) (text : String) : Bool :=
  text.toList.length = n && text.toList.all isLowerHex

def nano (value : Value ν Ref) : String :=
  match value with
  | .string text =>
    if 1 ≤ text.toList.length ∧ text.toList.length ≤ 20 ∧ text.toList.all Char.isDigit then text
    else "0"
  | _ => "0"

/-- A field that is left out where the value is no identifier. -/
def hexField (key : String) (n : Nat) (value : Value ν Ref) : List (String × Json) :=
  match value with
  | .string text => if isHexId n text then [(key, .string text)] else []
  | _ => []

/-- The last part of a path, without a query or a fragment. -/
def baseName (filename : List Char) : Option (List Char) :=
  let path := (filename.takeWhile fun c => c ≠ '?' && c ≠ '#').map fun c =>
    if c = '\\' then '/' else c
  (SplitText.split '/' path).reverse.find? (· ≠ [])

def fileName (value : Value ν Ref) : String :=
  match value with
  | .string filename =>
    match baseName filename.toList with
    | some part => nameText (String.ofList part) "unknown"
    | none => "unknown"
  | _ => "unknown"

section

variable [DecidableEq Ref] (P : Platform ν) (now : String) (heap : Heap ν Ref)

def timestamp (value : Value ν Ref) : String :=
  match value with
  | .string text =>
    if Js.length text.toList ≤ BROWSER_LIMITS.attributes then (P.dates.iso text).getD now else now
  | _ => now

/-- A string as it is, any other value as JSON. -/
def itemText : Json → String
  | .string text => text
  | item => item.stringify

def attributeText (item : Json) : String :=
  if (itemText item).utf8ByteSize ≤ LIMITS.valueBytes then itemText item else "[oversize]"

def context (value : Value ν Ref) : List (String × Json) :=
  fromEntries ((Privacy.sanitizeAttributes P.numbers P.hosts heap value).map fun (key, item) =>
    (key, .string (attributeText item)))

def traceContext (value : Value ν Ref) : Json :=
  let source := record heap value
  match member source "trace_id", member source "span_id" with
  | .string trace, .string span =>
    if isHexId 32 trace && isHexId 16 span then
      .object [("trace_id", .string trace), ("span_id", .string span)]
    else .object []
  | _, _ => .object []

/-- A field that is left out where the value is no number. -/
def numberField (key : String) (value : Value ν Ref) : List (String × Json) :=
  match value with
  | .number n => [(key, P.numbers.toJson n)]
  | _ => []

def frame (item : Value ν Ref) : Json :=
  let frame := record heap item
  .object ([("filename", .string (fileName (member frame "filename")))] ++
    numberField P "lineno" (member frame "lineno") ++
    numberField P "colno" (member frame "colno"))

def frames (value : Value ν Ref) : List Json :=
  ((list heap (member (record heap value) "frames")).take BROWSER_LIMITS.attributes).map
    (frame P heap)

/-- `a ?? b`. -/
def orElse : Value ν Ref → Value ν Ref → Value ν Ref
  | .undefined, next => next
  | .null, next => next
  | value, _ => value

/-- The entries of the object that `otlpAttributes` puts the attributes of a span into. -/
def otlpEntries (value : Value ν Ref) : List (String × Value ν Ref) :=
  ((list heap value).take BROWSER_LIMITS.attributes).flatMap fun item =>
    let entry := record heap item
    let wire := record heap (member entry "value")
    match member entry "key" with
    | .string key =>
      [(key, orElse (member wire "stringValue") (orElse (member wire "intValue")
        (orElse (member wire "doubleValue") (member wire "boolValue"))))]
    | _ => []

/-- The attributes of a span, as names and texts. -/
def otlpAttributes (value : Value ν Ref) : List (String × Json) :=
  context P (heap.withObject (otlpEntries heap value)) (.reference none)

/-- The attributes of a span, as they are written. -/
def otlpJson (attributes : List (String × Json)) : Json :=
  .array (attributes.map fun (key, value) =>
    .object [("key", .string key), ("value", .object [("stringValue", value)])])

/-! ## Signals -/

def log (log : List (String × Value ν Ref)) : FaroRecord where
  fields :=
    [("message", .string (name (member log "message") "browser.log")),
      ("level", .string (name (member log "level") "info")),
      ("timestamp", .string (timestamp P now (member log "timestamp"))),
      ("trace", traceContext heap (member log "trace"))]
  attributes := context P heap (member log "context")

def exception (error : List (String × Value ν Ref)) : FaroRecord where
  fields :=
    [("type", .string (name (member error "type") "Error")),
      ("value", .string "Unexpected application error"),
      ("timestamp", .string (timestamp P now (member error "timestamp"))),
      ("stacktrace", .object [("frames", .array (frames P heap (member error "stacktrace")))]),
      ("trace", traceContext heap (member error "trace"))]
  attributes := context P heap (member error "context")

/-- A value of a measurement that is a finite number under a name. -/
def measuredEntry (entry : String × Value ν Ref) : Option (String × Json) :=
  match entry.2 with
  | .number n =>
    if nameText entry.1 "" = "" then none
    else (P.numbers.text n).map fun literal => (entry.1, .number literal)
  | _ => none

def measured (values : List (String × Value ν Ref)) : List (String × Json) :=
  fromEntries ((values.take BROWSER_LIMITS.attributes).filterMap (measuredEntry P))

def measurement (measurement : List (String × Value ν Ref)) : FaroRecord where
  fields :=
    [("type", .string (name (member measurement "type") "browser.performance")),
      ("timestamp", .string (timestamp P now (member measurement "timestamp"))),
      ("values", .object (measured P (record heap (member measurement "values"))))]
  attributes := context P heap (member measurement "context")

def event (event : List (String × Value ν Ref)) : FaroRecord where
  fields :=
    [("name", .string (name (member event "name") "browser.event")),
      ("timestamp", .string (timestamp P now (member event "timestamp"))),
      ("domain", .string "browser")]
  attributes := context P heap (member event "attributes")

def spanEvent (event : Value ν Ref) : Json :=
  let event := record heap event
  .object
    [("name", .string (name (member event "name") "browser.event")),
      ("timeUnixNano", .string (nano (member event "timeUnixNano"))),
      ("attributes", otlpJson (otlpAttributes P heap (member event "attributes")))]

def span (span : List (String × Value ν Ref)) : FaroRecord where
  fields :=
    hexField "traceId" 32 (member span "traceId") ++ hexField "spanId" 16 (member span "spanId") ++
      hexField "parentSpanId" 16 (member span "parentSpanId") ++
      [("name", .string (name (member span "name") "browser.operation"))] ++
      numberField P "kind" (member span "kind") ++
      [("startTimeUnixNano", .string (nano (member span "startTimeUnixNano"))),
        ("endTimeUnixNano", .string (nano (member span "endTimeUnixNano"))),
        ("events", .array ((list heap (member span "events")).map (spanEvent P heap))),
        ("status", .object
          (numberField P "code" (member (record heap (member span "status")) "code")))]
  attributes := otlpAttributes P heap (member span "attributes")

/-! ## Batches -/

def fits (toJson : FaroRecord → Json) (item : FaroRecord) : Bool :=
  (toJson item).byteLength ≤ BROWSER_LIMITS.eventBytes

/-- The records that stay, and the number of those dropped. -/
def bounded (toJson : FaroRecord → Json) (source : Value ν Ref)
    (transform : List (String × Value ν Ref) → FaroRecord) : List FaroRecord × Nat :=
  let records := (list heap source).map fun item => transform (record heap item)
  (records.filter (fits toJson),
    ((items heap source).length - BROWSER_LIMITS.events) +
      (records.filter fun item => !fits toJson item).length)

/-- A span without its identifiers is left out. -/
def isIdentified (span : FaroRecord) : Bool :=
  (span.fields.lookup "traceId").isSome && (span.fields.lookup "spanId").isSome

def scopeSpans (scope : Value ν Ref) : List FaroRecord × Nat :=
  let spans := bounded heap FaroRecord.spanJson (member (record heap scope) "spans") (span P heap)
  (spans.1.filter isIdentified, spans.2)

def resourceScopes (resource : Value ν Ref) : List (List FaroRecord) × Nat :=
  let scopes := (list heap (member (record heap resource) "scopeSpans")).map (scopeSpans P heap)
  (scopes.map (·.1), (scopes.map (·.2)).sum)

def traces (value : Value ν Ref) : List (List (List FaroRecord)) × Nat :=
  let resources :=
    (list heap (member (record heap value) "resourceSpans")).map (resourceScopes P heap)
  (resources.map (·.1), (resources.map (·.2)).sum)

/-- Rebuild every Faro signal; arbitrary metadata and fields never pass this boundary. With the
batch, the number of what `onDrop` is told of. -/
def sanitizeFaroBatch (input : Value ν Ref) : FaroBatch × Nat :=
  let source := record heap input
  let logs := bounded heap (·.toJson "context") (member source "logs") (log P now heap)
  let exceptions :=
    bounded heap (·.toJson "context") (member source "exceptions") (exception P now heap)
  let measurements :=
    bounded heap (·.toJson "context") (member source "measurements") (measurement P now heap)
  let events := bounded heap (·.toJson "attributes") (member source "events") (event P now heap)
  let traces := traces P heap (member source "traces")
  (⟨logs.1, exceptions.1, measurements.1, events.1, traces.1⟩,
    logs.2 + exceptions.2 + measurements.2 + events.2 + traces.2)

end

/-- What `JSON.parse` has read, sanitized. -/
def sanitizePayload (P : Platform ν) (now : String) (payload : Json) : FaroBatch × Nat :=
  sanitizeFaroBatch P now (parsed P.numbers payload) (ofJson P.numbers [] payload)

/-! ## A platform without surprises -/

/-- Every host that is a name, as it is written. -/
def plainHosts : WebUrl.HostParser where
  parse text :=
    if text ≠ [] ∧ text.all (fun c => !WebUrl.isForbidden c) = true then some text else none
  isHost text host h := by
    split at h
    · rename_i hname
      cases h
      exact .name hname.1 fun c hc => by simpa using List.all_eq_true.mp hname.2 c hc
    · cases h
  idempotent text host h := by
    split at h
    · rename_i hname
      cases h
      exact if_pos hname
    · cases h

/-- Numbers are their literals, dates are the texts of 24 characters with a `Z` at the end. -/
def plainPlatform : Platform (Option String) where
  numbers := ⟨id, some, fun _ _ _ => rfl⟩
  hosts := plainHosts
  dates :=
    { iso := fun value =>
        if Js.length value.toList = 24 ∧ value.toList.getLast? = some 'Z' then some value else none
      short := fun value text h => by
        split at h
        · rename_i hshape
          cases h
          rw [hshape.1]
          decide
        · cases h
      iso_iso := fun value text h => by
        split at h
        · rename_i hshape
          cases h
          exact if_pos hshape
        · cases h }

end Sanitizer

end Wallow.Telemetry
