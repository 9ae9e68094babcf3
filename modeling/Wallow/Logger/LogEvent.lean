import Mathlib
import Wallow.Lib.JsonText

/-!
# Log events and their batches

The contract between the browser's logger and the ingest route: what the logger writes, and what
`parseLogBatch` takes.
-/

namespace Wallow.Logger

inductive LogLevel
  | debug | info | warn | error
  deriving DecidableEq

namespace LogLevel

def severity : LogLevel → Nat
  | debug => 0
  | info => 1
  | warn => 2
  | error => 3

def text : LogLevel → String
  | debug => "debug"
  | info => "info"
  | warn => "warn"
  | error => "error"

def isAtLeast (level minimum : LogLevel) : Bool := minimum.severity ≤ level.severity

/-- `isLogLevel`, with the level that the text names. -/
def ofText : String → Option LogLevel
  | "debug" => some debug
  | "info" => some info
  | "warn" => some warn
  | "error" => some error
  | _ => none

@[simp] theorem ofText_text (level : LogLevel) : ofText level.text = some level := by
  cases level <;> rfl

end LogLevel

abbrev Attrs := List (String × Json)

structure LogEventError where
  name : String
  message : String
  stack : Option String

structure LogEvent where
  ts : String
  level : LogLevel
  event : String
  attrs : Attrs
  correlationId : Option String
  error : Option LogEventError

def LogEventError.toJson (e : LogEventError) : Json :=
  .object ([("name", .string e.name), ("message", .string e.message)] ++
    (e.stack.map fun stack => ("stack", Json.string stack)).toList)

/-- The event as `record` builds it, a missing field left out. -/
def LogEvent.toJson (e : LogEvent) : Json :=
  .object ([("ts", .string e.ts), ("level", .string e.level.text), ("event", .string e.event),
    ("attrs", .object e.attrs)] ++
    (e.correlationId.map fun id => ("correlationId", Json.string id)).toList ++
    (e.error.map fun error => ("error", error.toJson)).toList)

structure LogBatch where
  events : List LogEvent
  csrfToken : Option String

def LogBatch.toJson (b : LogBatch) : Json :=
  .object (("events", .array (b.events.map LogEvent.toJson)) ::
    (b.csrfToken.map fun token => ("csrfToken", Json.string token)).toList)

/-! ## Redaction -/

def REDACTED : String := "[redacted]"

def MAX_REDACT_DEPTH : Nat := 4

/-- The keys under which `result[key] = …` makes an entry: `__proto__` sets the prototype. -/
def ownKeys (attrs : Attrs) : Attrs := attrs.filter fun (key, _) => key ≠ "__proto__"

/-- `redactAttrs` with so many levels to go; `isRedactedKey` is the test of a key. -/
def redactAttrs (isRedactedKey : String → Bool) : Nat → Attrs → Attrs
  | 0, attrs => (ownKeys attrs).map fun (key, value) =>
    (key, if isRedactedKey key then .string REDACTED else value)
  | levels + 1, attrs => (ownKeys attrs).map fun (key, value) =>
    (key, if isRedactedKey key then .string REDACTED
      else match value with
        | .object fields => .object (redactAttrs isRedactedKey levels fields)
        | other => other)

theorem redactAttrs_length_le (isRedactedKey : String → Bool) (levels : Nat) (attrs : Attrs) :
    (redactAttrs isRedactedKey levels attrs).length ≤ attrs.length := by
  have hown : (ownKeys attrs).length ≤ attrs.length := List.length_filter_le _ _
  cases levels <;> simpa [redactAttrs] using hown

/-- The object `{ ...base, ...attrs }`. -/
def spread (base attrs : Attrs) : Attrs :=
  base.map (fun (key, value) => (key, (attrs.lookup key).getD value)) ++
    attrs.filter fun (key, _) => (base.lookup key).isNone

/-! ## The checks of the ingest route -/

structure IngestLimits where
  maxBodyBytes : Nat
  maxEventsPerBatch : Nat
  maxEventNameLength : Nat
  maxAttributesPerEvent : Nat

def DEFAULT_INGEST_LIMITS : IngestLimits := ⟨65536, 100, 120, 32⟩

def isNameStart (c : Char) : Bool := 'a' ≤ c && c ≤ 'z'

def isNameChar (c : Char) : Bool := isNameStart c || ('0' ≤ c && c ≤ '9')

def isNameSeparator (c : Char) : Bool := c = '.' || c = '_' || c = '-'

/-- The rest of a name: a separator stands before a further character. -/
def matchesSegments : List Char → Bool
  | [] => true
  | c :: rest =>
    if isNameSeparator c then
      match rest with
      | [] => false
      | next :: rest => isNameChar next && matchesSegments rest
    else isNameChar c && matchesSegments rest

/-- `EVENT_NAME_PATTERN`. -/
def matchesEventName : List Char → Bool
  | [] => false
  | c :: rest => isNameStart c && matchesSegments rest

/-- What matches the pattern is ASCII, so its characters are its code units. -/
def isValidEventName (value : String) (maxLength : Nat) : Bool :=
  value.toList.length ≤ maxLength && matchesEventName value.toList

structure ParsedEvent where
  ts : String
  level : LogLevel
  event : String
  attrs : Attrs
  correlationId : Option Json
  error : Option Json

structure ParsedBatch where
  events : List ParsedEvent
  csrfToken : Option String

section Parse

-- whether `Date.parse` gives a number
variable (dateParses : String → Bool)

/-- `eventReason`, or the event that the checks leave. -/
def parseEvent (limits : IngestLimits) (value : Json) : Except String ParsedEvent :=
  if !value.isObject then .error "event is not an object"
  else
    match value.get "level" with
    | some (.string levelText) =>
      match LogLevel.ofText levelText with
      | none => .error "event has no valid level"
      | some level =>
        match value.get "event" with
        | some (.string event) =>
          if !isValidEventName event limits.maxEventNameLength then
            .error "event name is not a dotted low-cardinality name"
          else
            match value.get "ts" with
            | some (.string ts) =>
              if !dateParses ts then .error "event has no valid ts"
              else
                match value.get "attrs" with
                | none =>
                  .ok ⟨ts, level, event, [], value.get "correlationId", value.get "error"⟩
                | some (.object attrs) =>
                  if attrs.length > limits.maxAttributesPerEvent then
                    .error "event carries too many attributes"
                  else
                    .ok ⟨ts, level, event, attrs, value.get "correlationId", value.get "error"⟩
                | some _ => .error "event attrs is not an object"
            | _ => .error "event has no valid ts"
        | _ => .error "event name is not a dotted low-cardinality name"
    | _ => .error "event has no valid level"

def parseLogBatch (limits : IngestLimits) (value : Json) : Except String ParsedBatch :=
  if !value.isObject then .error "body is not an object"
  else
    match value.get "events" with
    | some (.array events) =>
      if events.length = 0 then .error "batch is empty"
      else if events.length > limits.maxEventsPerBatch then .error "batch holds too many events"
      else
        match events.mapM (parseEvent dateParses limits) with
        | .error reason => .error reason
        | .ok parsed =>
          match value.get "csrfToken" with
          | none => .ok ⟨parsed, none⟩
          | some (.string token) => .ok ⟨parsed, some token⟩
          | some _ => .error "csrfToken is not a string"
    | _ => .error "body has no events array"

/-- The handler goes past its body cap and `parseLogBatch`. -/
def acceptsBody (limits : IngestLimits) (body : Json) : Bool :=
  body.byteLength ≤ limits.maxBodyBytes && (parseLogBatch dateParses limits body).toBool

end Parse

/-! ## What the route takes of what the logger writes -/

variable {dateParses : String → Bool} {limits : IngestLimits}

/-- An event whose fields pass the checks of the route. -/
structure EventValid (dateParses : String → Bool) (limits : IngestLimits) (e : LogEvent) :
    Prop where
  name : isValidEventName e.event limits.maxEventNameLength = true
  ts : dateParses e.ts = true
  attrs : e.attrs.length ≤ limits.maxAttributesPerEvent

theorem get_level (e : LogEvent) : e.toJson.get "level" = some (.string e.level.text) := by
  simp [LogEvent.toJson, Json.get, List.lookup]

theorem get_event (e : LogEvent) : e.toJson.get "event" = some (.string e.event) := by
  simp [LogEvent.toJson, Json.get, List.lookup]

theorem get_ts (e : LogEvent) : e.toJson.get "ts" = some (.string e.ts) := by
  simp [LogEvent.toJson, Json.get, List.lookup]

theorem get_attrs (e : LogEvent) : e.toJson.get "attrs" = some (.object e.attrs) := by
  simp [LogEvent.toJson, Json.get, List.lookup]

theorem parseEvent_toJson {e : LogEvent} (h : EventValid dateParses limits e) :
    ∃ parsed, parseEvent dateParses limits e.toJson = .ok parsed := by
  unfold parseEvent
  rw [get_level, get_event, get_ts, get_attrs]
  have hattrs : ¬e.attrs.length > limits.maxAttributesPerEvent := Nat.not_lt.mpr h.attrs
  simp only [LogLevel.ofText_text, h.name, h.ts, hattrs, LogEvent.toJson, Json.isObject,
    Bool.not_true, Bool.false_eq_true, if_false]
  exact ⟨_, rfl⟩

theorem parseEvents_toJson {events : List LogEvent}
    (h : ∀ e ∈ events, EventValid dateParses limits e) :
    ∃ parsed, (events.map LogEvent.toJson).mapM (parseEvent dateParses limits) = .ok parsed := by
  induction events with
  | nil => exact ⟨[], rfl⟩
  | cons e events ih =>
    obtain ⟨head, hhead⟩ := parseEvent_toJson (h e List.mem_cons_self)
    obtain ⟨tail, htail⟩ := ih fun e' he' => h e' (List.mem_cons_of_mem e he')
    refine ⟨head :: tail, ?_⟩
    rw [List.map_cons, List.mapM_cons, hhead, htail]
    rfl

/-- A batch of valid events is taken if it is not empty and holds no more than the limit. -/
theorem parseLogBatch_toJson {batch : LogBatch} (hne : batch.events ≠ [])
    (hcount : batch.events.length ≤ limits.maxEventsPerBatch)
    (h : ∀ e ∈ batch.events, EventValid dateParses limits e) :
    (parseLogBatch dateParses limits batch.toJson).toBool = true := by
  obtain ⟨parsed, hparsed⟩ := parseEvents_toJson h
  have hzero : ¬(batch.events.map LogEvent.toJson).length = 0 := by simpa using hne
  have hmax : ¬(batch.events.map LogEvent.toJson).length > limits.maxEventsPerBatch := by
    rw [List.length_map]
    omega
  have hevents : batch.toJson.get "events" = some (.array (batch.events.map LogEvent.toJson)) := by
    simp [LogBatch.toJson, Json.get, List.lookup]
  have hobject : batch.toJson.isObject = true := rfl
  rw [parseLogBatch, hobject, hevents]
  simp only [hparsed, hzero, hmax, Bool.not_true, Bool.false_eq_true, if_false]
  cases htoken : batch.csrfToken with
  | none =>
    have hget : batch.toJson.get "csrfToken" = none := by
      simp [LogBatch.toJson, Json.get, List.lookup, htoken]
    rw [hget]
    rfl
  | some token =>
    have hget : batch.toJson.get "csrfToken" = some (.string token) := by
      simp [LogBatch.toJson, Json.get, List.lookup, htoken]
    rw [hget]
    rfl

/-- A batch above the limit is refused. -/
theorem parseLogBatch_tooMany {batch : LogBatch}
    (hcount : limits.maxEventsPerBatch < batch.events.length) :
    (parseLogBatch dateParses limits batch.toJson).toBool = false := by
  have hzero : ¬(batch.events.map LogEvent.toJson).length = 0 := by
    rw [List.length_map]
    omega
  have hmax : (batch.events.map LogEvent.toJson).length > limits.maxEventsPerBatch := by
    rw [List.length_map]
    exact hcount
  have hevents : batch.toJson.get "events" = some (.array (batch.events.map LogEvent.toJson)) := by
    simp [LogBatch.toJson, Json.get, List.lookup]
  have hobject : batch.toJson.isObject = true := rfl
  rw [parseLogBatch, hobject, hevents]
  simp only [hzero, hmax, Bool.not_true, Bool.false_eq_true, if_false, if_true]
  rfl

end Wallow.Logger
