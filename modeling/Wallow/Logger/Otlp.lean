import Wallow.Lib.JsNumbers
import Wallow.Lib.JsValues
import Wallow.Logger.LogEvent

/-!
# Records for the collector

`otlp.ts`, and the records of `server.ts` that it encodes: one request of JSON for all records of a
batch, in which a value out of the range of its wire type has the collector refuse them all.
-/

namespace Wallow.Logger

open Js

/-- A record of the server; what comes with the event and is not checked is any JSON. -/
structure ServerLogRecord where
  ts : String
  clientTs : String
  level : LogLevel
  event : String
  attrs : Attrs
  service : String
  correlationId : Option Json
  clientIp : Option String
  userId : Option String
  tenantId : Option String
  error : Option Json

/-- What the server knows of a request. -/
structure RequestFacts where
  service : String
  nowIso : String
  isRedactedKey : String → Bool
  fallbackCorrelationId : Option String
  clientIp : Option String
  userId : Option String
  tenantId : Option String

def toServerRecord (facts : RequestFacts) (event : ParsedEvent) : ServerLogRecord where
  ts := facts.nowIso
  clientTs := event.ts
  level := event.level
  event := event.event
  attrs := redactAttrs facts.isRedactedKey MAX_REDACT_DEPTH event.attrs
  service := facts.service
  correlationId :=
    match event.correlationId with
    | none | some .null => facts.fallbackCorrelationId.map .string
    | some value => some value
  clientIp := facts.clientIp
  userId := facts.userId
  tenantId := facts.tenantId
  error := event.error

namespace Otlp

/-! ## Values -/

inductive AnyValue
  | stringValue (text : String)
  | boolValue (value : Bool)
  | intValue (text : List Char)
  | doubleValue (value : Number)

structure Attribute where
  key : String
  value : AnyValue

structure LogRecord where
  timeUnixNano : List Char
  observedTimeUnixNano : List Char
  severityNumber : Nat
  severityText : String
  body : AnyValue
  attributes : List Attribute

/-- The records of a service. -/
structure ResourceLogs where
  resource : List Attribute
  scope : String
  logRecords : List LogRecord

def SEVERITY_NUMBERS : LogLevel → Nat
  | .debug => 5
  | .info => 9
  | .warn => 13
  | .error => 17

def NANOS_PER_MILLI : Int := 1000000

def SCOPE_NAME : String := "@bc-solutions-coder/logger"

section

-- the number that a literal of the batch stands for, and what `Date.parse` makes of a text
variable (read : String → Number) (date : String → Option Int)

/-- A number as `JSON.stringify` writes it. -/
def rewriteNumber : Number → Json
  | .integer value _ => .number (String.ofList (integerText value))
  | .fraction text => .number (String.ofList text)
  | .infinite _ => .null

mutual

/-- The value with its numbers as they are written again. -/
def rewrite : Json → Json
  | .number literal => rewriteNumber (read literal)
  | .array items => .array (rewriteItems items)
  | .object fields => .object (rewriteFields fields)
  | value => value

def rewriteItems : List Json → List Json
  | [] => []
  | item :: items => rewrite item :: rewriteItems items

def rewriteFields : List (String × Json) → List (String × Json)
  | [] => []
  | (key, value) :: fields => (key, rewrite value) :: rewriteFields fields

end

def toAnyValue : Option Json → AnyValue
  | some (.string text) => .stringValue text
  | some (.bool value) => .boolValue value
  | some (.number literal) =>
    match read literal with
    | .integer value _ => .intValue (integerText value)
    | number => .doubleValue number
  | none | some .null => .stringValue ""
  | some value => .stringValue (rewrite read value).stringify

/-- The attributes, without the entries that are undefined. -/
def toAttributes (entries : List (String × Option Json)) : List Attribute :=
  (entries.filter (·.2.isSome)).map fun entry => ⟨entry.1, toAnyValue read entry.2⟩

/-- `String` of a big integer. -/
def bigIntText (n : Int) : List Char :=
  if n < 0 then '-' :: Nat.toDigits 10 n.natAbs else Nat.toDigits 10 n.natAbs

def toUnixNano (iso : String) (fallbackMs : Int) : List Char :=
  bigIntText ((date iso).getD fallbackMs * NANOS_PER_MILLI)

/-! ## Records -/

/-- A field of the error, which is undefined where the error is no object. -/
def errorField (record : ServerLogRecord) (name : String) : Option Json :=
  record.error.bind (·.get name)

/-- The entries that the server writes over those of the event. -/
def stamped (record : ServerLogRecord) : List (String × Option Json) :=
  [("event.name", some (.string record.event)),
    ("wallow.correlation_id", record.correlationId),
    ("client.address", record.clientIp.map .string),
    ("enduser.id", record.userId.map .string),
    ("wallow.tenant_id", record.tenantId.map .string),
    ("exception.type", errorField record "name"),
    ("exception.message", errorField record "message"),
    ("exception.stacktrace", errorField record "stack")]

/-- `{ ...record.attrs, … }`. -/
def recordEntries (record : ServerLogRecord) : List (String × Option Json) :=
  fromEntries (record.attrs.map (fun (key, value) => (key, some value)) ++ stamped record)

def toLogRecord (nowMs : Int) (record : ServerLogRecord) : LogRecord where
  timeUnixNano := toUnixNano date record.clientTs nowMs
  observedTimeUnixNano := toUnixNano date record.ts nowMs
  severityNumber := SEVERITY_NUMBERS record.level
  severityText := record.level.text.toUpper
  body := .stringValue record.event
  attributes := toAttributes read (recordEntries record)

/-- The record goes into the bucket of its service. -/
def addRecord (record : ServerLogRecord) :
    List (String × List ServerLogRecord) → List (String × List ServerLogRecord)
  | [] => [(record.service, [record])]
  | (service, bucket) :: rest =>
    if service = record.service then (service, bucket ++ [record]) :: rest
    else (service, bucket) :: addRecord record rest

def byService (records : List ServerLogRecord) : List (String × List ServerLogRecord) :=
  records.foldl (fun groups record => addRecord record groups) []

def toOtlpLogsPayload (records : List ServerLogRecord) (nowMs : Int) : List ResourceLogs :=
  (byService records).map fun (service, records) =>
    { resource := toAttributes read [("service.name", some (.string service))]
      scope := SCOPE_NAME
      logRecords := records.map (toLogRecord read date nowMs) }

end

/-! ## What the collector takes -/

/-- A plain decimal in the range of unsigned numbers of 64 bits. -/
def Unsigned64 (text : List Char) : Prop := ∃ n, decimal? text = some n ∧ 0 ≤ n ∧ n ≤ 2 ^ 64 - 1

def Finite : Number → Prop
  | .infinite _ => False
  | _ => True

def AnyValue.Valid : AnyValue → Prop
  | .intValue text => Signed64 text
  | .doubleValue value => Finite value
  | _ => True

structure LogRecord.Valid (record : LogRecord) : Prop where
  time : Unsigned64 record.timeUnixNano
  observed : Unsigned64 record.observedTimeUnixNano
  body : record.body.Valid
  attributes : ∀ attr ∈ record.attributes, attr.value.Valid

/-- The payload is valid OTLP/HTTP JSON. -/
def Valid (payload : List ResourceLogs) : Prop :=
  ∀ logs ∈ payload, (∀ attr ∈ logs.resource, attr.value.Valid) ∧
    ∀ record ∈ logs.logRecords, record.Valid

/-! ## What can be sent -/

/-- A number that is finite and, if it is whole, strictly between the bounds of 64 bits. -/
def Fits : Number → Prop
  | .integer value _ => value.natAbs < 2 ^ 63
  | .fraction _ => True
  | .infinite _ => False

instance : DecidablePred Fits
  | .integer value _ => Nat.decLt value.natAbs (2 ^ 63)
  | .fraction _ => isTrue trivial
  | .infinite _ => isFalse id

/-- The number of milliseconds is not before 1970, nor are its nanoseconds more than 64 bits. -/
def InTime (ms : Int) : Prop := 0 ≤ ms ∧ ms ≤ 18446744073709

def stampedNames : List String :=
  ["event.name", "wallow.correlation_id", "client.address", "enduser.id", "wallow.tenant_id",
    "exception.type", "exception.message", "exception.stacktrace"]

/-- The time and the numbers of an event are in the range of their wire types: the attributes that
are neither redacted nor written over, its correlation identifier and the fields of its error. -/
structure Sendable (read : String → Number) (date : String → Option Int)
    (isRedactedKey : String → Bool) (event : ParsedEvent) : Prop where
  time : ∀ ms, date event.ts = some ms → InTime ms
  attrs : ∀ key literal, (key, .number literal) ∈ event.attrs → key ∉ stampedNames →
    key ≠ "__proto__" → isRedactedKey key = false → Fits (read literal)
  correlationId : ∀ literal, event.correlationId = some (.number literal) → Fits (read literal)
  error : ∀ value, event.error = some value → ∀ name ∈ ["name", "message", "stack"],
    ∀ literal, value.get name = some (.number literal) → Fits (read literal)

/-! ## The wire types -/

variable {read : String → Number} {date : String → Option Int}

theorem decimal?_bigIntText (n : Int) : decimal? (bigIntText n) = some n := by
  rw [bigIntText]
  split
  · rw [decimal?_neg_toDigits]
    congr 1
    omega
  · rw [decimal?_toDigits]
    congr 1
    omega

theorem unsigned64_toUnixNano {iso : String} {ms fallbackMs : Int}
    (h : (date iso).getD fallbackMs = ms) :
    Unsigned64 (toUnixNano date iso fallbackMs) ↔ InTime ms := by
  rw [Unsigned64, toUnixNano, h, decimal?_bigIntText, InTime, NANOS_PER_MILLI]
  constructor
  · intro hunsigned
    have ⟨n, hn, hlow, hhigh⟩ := hunsigned
    have heq := Option.some.inj hn
    omega
  · intro hrange
    exact ⟨ms * 1000000, rfl, by omega, by omega⟩

/-- Only a number can be out of the range of its wire type. -/
theorem valid_toAnyValue (value : Option Json) : (toAnyValue read value).Valid ↔
    ∀ literal, value = some (.number literal) → Fits (read literal) := by
  have hother : (∀ literal, value ≠ some (.number literal)) →
      ((toAnyValue read value).Valid ↔ ∀ literal, value = some (.number literal) →
        Fits (read literal)) := by
    intro hnot
    apply iff_of_true _ fun literal heq => absurd heq (hnot literal)
    match value, hnot with
    | none, _ => trivial
    | some .null, _ => trivial
    | some (.bool _), _ => trivial
    | some (.string _), _ => trivial
    | some (.array _), _ => trivial
    | some (.object _), _ => trivial
    | some (.number literal), hnot => exact absurd rfl (hnot literal)
  match value, hother with
  | some (.number literal), _ =>
    have honly : (∀ literal', some (Json.number literal) = some (.number literal') →
        Fits (read literal')) ↔ Fits (read literal) := by
      constructor
      · exact fun hall => hall literal rfl
      · intro hfits literal' heq
        cases heq
        exact hfits
    rw [honly, toAnyValue]
    cases read literal with
    | integer number isDouble => exact signed64_integerText isDouble
    | fraction text => exact Iff.rfl
    | infinite negative => exact Iff.rfl
  | none, hother => exact hother fun literal heq => by cases heq
  | some .null, hother => exact hother fun literal heq => by cases heq
  | some (.bool _), hother => exact hother fun literal heq => by cases heq
  | some (.string _), hother => exact hother fun literal heq => by cases heq
  | some (.array _), hother => exact hother fun literal heq => by cases heq
  | some (.object _), hother => exact hother fun literal heq => by cases heq

theorem valid_toAttributes (entries : List (String × Option Json)) :
    (∀ attr ∈ toAttributes read entries, attr.value.Valid) ↔
      ∀ key literal, (key, some (Json.number literal)) ∈ entries → Fits (read literal) := by
  constructor
  · intro hvalid key literal hmem
    have hin : (⟨key, toAnyValue read (some (.number literal))⟩ : Attribute) ∈
        toAttributes read entries :=
      List.mem_map.mpr ⟨(key, some (.number literal)), List.mem_filter.mpr ⟨hmem, rfl⟩, rfl⟩
    exact (valid_toAnyValue _).mp (hvalid _ hin) literal rfl
  · intro hfits attr hattr
    have ⟨entry, hentry, heq⟩ := List.mem_map.mp hattr
    rw [← heq, valid_toAnyValue]
    intro literal hliteral
    have hmem := (List.mem_filter.mp hentry).1
    exact hfits entry.1 literal (hliteral ▸ hmem)

/-! ## The entries of a record -/

theorem filter_eq_singleton {α : Type} {entries : List (String × α)} {entry : String × α}
    (hnodup : (entries.map (·.1)).Nodup) (h : entry ∈ entries) :
    entries.filter (·.1 = entry.1) = [entry] := by
  induction entries with
  | nil => exact absurd h List.not_mem_nil
  | cons first rest ih =>
    have ⟨hfirst, hrest⟩ := List.nodup_cons.mp hnodup
    cases List.mem_cons.mp h with
    | inl heq =>
      rw [heq, List.filter_cons, if_pos (decide_eq_true rfl), filter_eq_nil_of_keys hfirst]
    | inr hin =>
      have hmem : entry.1 ∈ rest.map (·.1) := List.mem_map_of_mem hin
      have hne : first.1 ≠ entry.1 := fun heq => hfirst (heq.symm.subst hmem)
      rw [List.filter_cons, if_neg (by simpa using hne), ih hrest hin]

theorem stamped_keys (record : ServerLogRecord) : (stamped record).map (·.1) = stampedNames := rfl

/-- What the server writes is what the record has. -/
theorem filter_recordEntries {record : ServerLogRecord} {entry : String × Option Json}
    (h : entry ∈ stamped record) : (recordEntries record).filter (·.1 = entry.1) = [entry] := by
  have hnodup : ((stamped record).map (·.1)).Nodup := by
    rw [stamped_keys]
    decide
  rw [recordEntries, filter_fromEntries, List.filter_append, filter_eq_singleton hnodup h,
    List.getLast?_concat]
  rfl

theorem mem_recordEntries {record : ServerLogRecord} (hnodup : (record.attrs.map (·.1)).Nodup)
    {entry : String × Option Json} : entry ∈ recordEntries record ↔ entry ∈ stamped record ∨
      (entry.1 ∉ stampedNames ∧ ∃ value, (entry.1, value) ∈ record.attrs ∧
        entry.2 = some value) := by
  constructor
  · intro h
    by_cases hname : entry.1 ∈ stampedNames
    · rw [← stamped_keys record] at hname
      have ⟨own, hown, hkey⟩ := List.mem_map.mp hname
      have hfilter : entry ∈ (recordEntries record).filter (·.1 = own.1) :=
        List.mem_filter.mpr ⟨h, decide_eq_true hkey.symm⟩
      rw [filter_recordEntries hown, List.mem_singleton] at hfilter
      exact Or.inl (hfilter ▸ hown)
    · cases List.mem_append.mp (mem_fromEntries h) with
      | inl hspread =>
        have ⟨attr, hattr, heq⟩ := List.mem_map.mp hspread
        exact Or.inr ⟨hname, attr.2, heq ▸ hattr, heq ▸ rfl⟩
      | inr hstamped => exact Or.inl hstamped
  · intro h
    cases h with
    | inl hstamped =>
      have hin : entry ∈ (recordEntries record).filter (·.1 = entry.1) := by
        rw [filter_recordEntries hstamped]
        exact List.mem_singleton_self entry
      exact (List.mem_filter.mp hin).1
    | inr hattr =>
      have ⟨hname, value, hmem, hvalue⟩ := hattr
      have hentry : entry ∈ record.attrs.map fun attr => (attr.1, some attr.2) :=
        List.mem_map.mpr ⟨(entry.1, value), hmem, Prod.ext rfl hvalue.symm⟩
      have hkeys : ((record.attrs.map fun attr => (attr.1, some attr.2)).map (·.1)).Nodup := by
        rw [List.map_map]
        exact hnodup
      have hstamped : (stamped record).filter (·.1 = entry.1) = [] := by
        apply filter_eq_nil_of_keys
        rw [stamped_keys]
        exact hname
      have hin : entry ∈ (recordEntries record).filter (·.1 = entry.1) := by
        rw [recordEntries, filter_fromEntries, List.filter_append, hstamped, List.append_nil]
        show entry ∈ ((record.attrs.map fun attr => (attr.1, some attr.2)).filter
          (·.1 = entry.1)).getLast?.toList
        rw [filter_eq_singleton hkeys hentry]
        exact List.mem_singleton_self entry
      exact (List.mem_filter.mp hin).1

/-- Under a name that the server writes there is its value or, where it has none, nothing. -/
theorem filter_toAttributes {record : ServerLogRecord} {key : String} {value : Option Json}
    (h : (key, value) ∈ stamped record) :
    (toAttributes read (recordEntries record)).filter (·.key = key) =
      (value.map fun value => ⟨key, toAnyValue read (some value)⟩).toList := by
  have hfilter : (recordEntries record).filter (·.1 = key) = [(key, value)] :=
    filter_recordEntries h
  have hcomm : (toAttributes read (recordEntries record)).filter (·.key = key) =
      toAttributes read ((recordEntries record).filter (·.1 = key)) := by
    rw [toAttributes, toAttributes, List.filter_map, List.filter_filter, List.filter_filter]
    congr 1
    apply List.filter_congr
    intro entry _
    exact Bool.and_comm _ _
  rw [hcomm, hfilter]
  cases value <;> rfl

/-! ## Whether a record is valid -/

theorem redactAttrs_keys (isRedactedKey : String → Bool) (levels : Nat) (attrs : Attrs) :
    (redactAttrs isRedactedKey levels attrs).map (·.1) = (ownKeys attrs).map (·.1) := by
  cases levels with
  | zero => rw [redactAttrs, List.map_map]; rfl
  | succ levels => rw [redactAttrs, List.map_map]; rfl

theorem mem_ownKeys {attrs : Attrs} {entry : String × Json} :
    entry ∈ ownKeys attrs ↔ entry ∈ attrs ∧ entry.1 ≠ "__proto__" := by
  rw [ownKeys, List.mem_filter, decide_eq_true_eq]

/-- What is under a key that is not redacted. -/
def keptValue (isRedactedKey : String → Bool) (levels : Nat) : Json → Json
  | .object fields => .object (redactAttrs isRedactedKey levels fields)
  | other => other

/-- The numbers that redaction leaves. -/
theorem number_mem_redactAttrs {isRedactedKey : String → Bool} {levels : Nat} {attrs : Attrs}
    {key literal : String} :
    (key, Json.number literal) ∈ redactAttrs isRedactedKey levels attrs ↔
      (key, .number literal) ∈ attrs ∧ key ≠ "__proto__" ∧ isRedactedKey key = false := by
  have hkept : ∀ f : Json → Json, (∀ value, f value = .number literal ↔ value = .number literal) →
      ((key, Json.number literal) ∈ (ownKeys attrs).map (fun entry =>
          (entry.1, if isRedactedKey entry.1 then .string REDACTED else f entry.2)) ↔
        (key, .number literal) ∈ attrs ∧ key ≠ "__proto__" ∧ isRedactedKey key = false) := by
    intro f hf
    constructor
    · intro hmem
      obtain ⟨entry, hentry, heq⟩ := List.mem_map.mp hmem
      obtain ⟨hkey, hvalue⟩ := Prod.mk.inj heq
      obtain ⟨hin, hproto⟩ := mem_ownKeys.mp hentry
      cases hredacted : isRedactedKey entry.1 with
      | true =>
        rw [if_pos hredacted] at hvalue
        cases hvalue
      | false =>
        rw [if_neg (by rw [hredacted]; decide), hf] at hvalue
        exact ⟨hkey ▸ hvalue ▸ hin, hkey ▸ hproto, hkey ▸ hredacted⟩
    · intro hall
      obtain ⟨hin, hproto, hredacted⟩ := hall
      apply List.mem_map.mpr
      apply Exists.intro (key, Json.number literal)
      apply And.intro (mem_ownKeys.mpr ⟨hin, hproto⟩)
      show (key, if isRedactedKey key then _ else f (.number literal)) = _
      rw [if_neg (by rw [hredacted]; decide), (hf _).mpr rfl]
  cases levels with
  | zero => exact hkept id fun value => Iff.rfl
  | succ levels =>
    apply hkept (keptValue isRedactedKey levels)
    intro value
    cases value with
    | object fields => exact iff_of_false (fun h => by cases h) fun h => by cases h
    | _ => exact Iff.rfl

variable {facts : RequestFacts} {event : ParsedEvent} {nowMs : Int}

theorem attrs_nodup (h : (event.attrs.map (·.1)).Nodup) :
    ((toServerRecord facts event).attrs.map (·.1)).Nodup := by
  show ((redactAttrs facts.isRedactedKey MAX_REDACT_DEPTH event.attrs).map (·.1)).Nodup
  rw [redactAttrs_keys]
  exact h.sublist (List.filter_sublist.map _)

theorem map_string_ne_number (text : Option String) (literal : String) :
    text.map Json.string ≠ some (.number literal) := by
  cases text with
  | none => exact fun h => by cases h
  | some text => exact fun h => by cases h

theorem correlationId_eq_number {literal : String} :
    (toServerRecord facts event).correlationId = some (.number literal) ↔
      event.correlationId = some (.number literal) := by
  have hfallback := map_string_ne_number facts.fallbackCorrelationId literal
  rw [toServerRecord]
  dsimp only
  split
  · rename_i hid
    rw [hid]
    exact iff_of_false hfallback fun h => by cases h
  · rename_i hid
    rw [hid]
    exact iff_of_false hfallback fun h => by cases h
  · rename_i value _ hid
    rw [hid]

/-- The numbers among what the server writes over the attributes. -/
theorem number_mem_stamped {literal : String} :
    (∃ key, (key, some (Json.number literal)) ∈ stamped (toServerRecord facts event)) ↔
      event.correlationId = some (.number literal) ∨
        ∃ value, event.error = some value ∧ ∃ name ∈ ["name", "message", "stack"],
          value.get name = some (.number literal) := by
  have herror : ∀ name, errorField (toServerRecord facts event) name = some (.number literal) ↔
      ∃ value, event.error = some value ∧ value.get name = some (.number literal) :=
    fun name => Option.bind_eq_some_iff
  constructor
  · intro hsome
    have ⟨key, hmem⟩ := hsome
    have hfield : ∀ name ∈ ["name", "message", "stack"],
        some (Json.number literal) = errorField (toServerRecord facts event) name →
        ∃ value, event.error = some value ∧ ∃ name ∈ ["name", "message", "stack"],
          value.get name = some (.number literal) := by
      intro name hname heq
      have ⟨value, hvalue, hget⟩ := (herror name).mp heq.symm
      exact ⟨value, hvalue, name, hname, hget⟩
    simp only [stamped, List.mem_cons, Prod.mk.injEq, List.not_mem_nil, or_false] at hmem
    rcases hmem with h | h | h | h | h | h | h | h
    · cases h.2
    · exact Or.inl (correlationId_eq_number.mp h.2.symm)
    · exact absurd h.2.symm (map_string_ne_number _ literal)
    · exact absurd h.2.symm (map_string_ne_number _ literal)
    · exact absurd h.2.symm (map_string_ne_number _ literal)
    · exact Or.inr (hfield "name" (by decide) h.2)
    · exact Or.inr (hfield "message" (by decide) h.2)
    · exact Or.inr (hfield "stack" (by decide) h.2)
  · intro hnumber
    simp only [stamped, List.mem_cons, Prod.mk.injEq]
    cases hnumber with
    | inl hid =>
      exact ⟨_, Or.inr (Or.inl ⟨rfl, (correlationId_eq_number.mpr hid).symm⟩)⟩
    | inr hfield =>
      have ⟨value, hvalue, name, hname, hget⟩ := hfield
      have heq := ((herror name).mpr ⟨value, hvalue, hget⟩).symm
      simp only [List.mem_cons, List.not_mem_nil, or_false] at hname
      rcases hname with hname | hname | hname
      · rw [hname] at heq
        exact ⟨_, Or.inr (Or.inr (Or.inr (Or.inr (Or.inr (Or.inl ⟨rfl, heq⟩)))))⟩
      · rw [hname] at heq
        exact ⟨_, Or.inr (Or.inr (Or.inr (Or.inr (Or.inr (Or.inr (Or.inl ⟨rfl, heq⟩))))))⟩
      · rw [hname] at heq
        exact ⟨_, Or.inr (Or.inr (Or.inr (Or.inr (Or.inr (Or.inr (Or.inr (Or.inl
          ⟨rfl, heq⟩)))))))⟩

/-- The numbers of an event fit exactly if those do that its record is left with. -/
theorem attributes_valid_iff (hnodup : (event.attrs.map (·.1)).Nodup) :
    (∀ attr ∈ (toLogRecord read date nowMs (toServerRecord facts event)).attributes,
        attr.value.Valid) ↔
      (∀ key literal, (key, .number literal) ∈ event.attrs → key ∉ stampedNames →
        key ≠ "__proto__" → facts.isRedactedKey key = false → Fits (read literal)) ∧
      (∀ literal, event.correlationId = some (.number literal) → Fits (read literal)) ∧
      ∀ value, event.error = some value → ∀ name ∈ ["name", "message", "stack"],
        ∀ literal, value.get name = some (.number literal) → Fits (read literal) := by
  have hentries : ∀ key literal, (key, some (Json.number literal)) ∈
      recordEntries (toServerRecord facts event) ↔
        (key, some (Json.number literal)) ∈ stamped (toServerRecord facts event) ∨
          (key ∉ stampedNames ∧ (key, .number literal) ∈ event.attrs ∧ key ≠ "__proto__" ∧
            facts.isRedactedKey key = false) := by
    intro key literal
    have hredacted : (key, Json.number literal) ∈ (toServerRecord facts event).attrs ↔
        (key, .number literal) ∈ event.attrs ∧ key ≠ "__proto__" ∧
          facts.isRedactedKey key = false := number_mem_redactAttrs
    rw [mem_recordEntries (attrs_nodup hnodup), ← hredacted]
    apply or_congr_right
    apply and_congr_right
    intro _
    constructor
    · intro hsome
      have ⟨value, hmem, hvalue⟩ := hsome
      exact Option.some.inj hvalue ▸ hmem
    · exact fun hmem => ⟨_, hmem, rfl⟩
  show (∀ attr ∈ toAttributes read (recordEntries (toServerRecord facts event)),
    attr.value.Valid) ↔ _
  rw [valid_toAttributes]
  constructor
  · intro hfits
    have hstamped : ∀ literal, (∃ key, (key, some (Json.number literal)) ∈
        stamped (toServerRecord facts event)) → Fits (read literal) := by
      intro literal hsome
      have ⟨key, hmem⟩ := hsome
      exact hfits key literal ((hentries key literal).mpr (Or.inl hmem))
    constructor
    · intro key literal hmem hname hproto hredacted
      exact hfits key literal ((hentries key literal).mpr
        (Or.inr ⟨hname, hmem, hproto, hredacted⟩))
    · constructor
      · intro literal hid
        exact hstamped literal (number_mem_stamped.mpr (Or.inl hid))
      · intro value hvalue name hname literal hget
        exact hstamped literal (number_mem_stamped.mpr (Or.inr ⟨value, hvalue, name, hname, hget⟩))
  · intro hall key literal hmem
    have ⟨hattrs, hid, herror⟩ := hall
    cases (hentries key literal).mp hmem with
    | inl hstamped =>
      cases number_mem_stamped.mp ⟨key, hstamped⟩ with
      | inl hnumber => exact hid literal hnumber
      | inr hfield =>
        have ⟨value, hvalue, name, hname, hget⟩ := hfield
        exact herror value hvalue name hname literal hget
    | inr hattr => exact hattrs key literal hattr.2.1 hattr.1 hattr.2.2.1 hattr.2.2.2

/-- A record is valid exactly if its event can be sent and the time of the server is in range. -/
theorem logRecord_valid_iff (hnodup : (event.attrs.map (·.1)).Nodup)
    (hdate : (date event.ts).isSome = true) :
    (toLogRecord read date nowMs (toServerRecord facts event)).Valid ↔
      InTime ((date facts.nowIso).getD nowMs) ∧
        Sendable read date facts.isRedactedKey event := by
  have ⟨ms, hms⟩ := Option.isSome_iff_exists.mp hdate
  have htime : Unsigned64 (toUnixNano date event.ts nowMs) ↔ InTime ms :=
    unsigned64_toUnixNano (by rw [hms]; rfl)
  have hobserved : Unsigned64 (toUnixNano date facts.nowIso nowMs) ↔
      InTime ((date facts.nowIso).getD nowMs) := unsigned64_toUnixNano rfl
  have hattributes : (∀ attr ∈ (toLogRecord read date nowMs
      (toServerRecord facts event)).attributes, attr.value.Valid) ↔ _ :=
    attributes_valid_iff hnodup
  constructor
  · intro hvalid
    have ⟨hattrs, hid, herror⟩ := hattributes.mp hvalid.attributes
    apply And.intro (hobserved.mp hvalid.observed)
    apply Sendable.mk _ hattrs hid herror
    intro ms' hms'
    rw [hms] at hms'
    exact Option.some.inj hms' ▸ htime.mp hvalid.time
  · intro hboth
    have ⟨hnow, hsend⟩ := hboth
    exact ⟨htime.mpr (hsend.time ms hms), hobserved.mpr hnow, trivial,
      hattributes.mpr ⟨hsend.attrs, hsend.correlationId, hsend.error⟩⟩

/-! ## The payload of a batch -/

/-- Records of one service make one bucket. -/
theorem byService_of_one {service : String} {records : List ServerLogRecord}
    (hne : records ≠ []) (h : ∀ record ∈ records, record.service = service) :
    byService records = [(service, records)] := by
  induction records using List.reverseRecOn with
  | nil => exact absurd rfl hne
  | append_singleton records record ih =>
    have hservice := h record (List.mem_append_right _ List.mem_cons_self)
    have hfold : byService (records ++ [record]) = addRecord record (byService records) := by
      rw [byService, List.foldl_append]
      rfl
    rw [hfold]
    by_cases hempty : records = []
    · rw [hempty]
      show [(record.service, [record])] = _
      rw [hservice]
      rfl
    · rw [ih hempty fun other hother => h other (List.mem_append_left _ hother), addRecord,
        if_pos hservice.symm]

theorem parseEvent_date {dateParses : String → Bool} {limits : IngestLimits} {value : Json}
    (h : parseEvent dateParses limits value = .ok event) : dateParses event.ts = true := by
  unfold parseEvent at h
  split at h
  · cases h
  · split at h
    · split at h
      · cases h
      · split at h
        · split at h
          · cases h
          · split at h
            · split at h
              · cases h
              · rename_i hdate
                rw [Bool.not_eq_true', Bool.not_eq_false] at hdate
                split at h
                · cases h
                  exact hdate
                · split at h
                  · cases h
                  · cases h
                    exact hdate
                · cases h
            · cases h
        · cases h
    · cases h

theorem mapM_parseEvent {dateParses : String → Bool} {limits : IngestLimits}
    {values : List Json} {events : List ParsedEvent}
    (h : values.mapM (parseEvent dateParses limits) = .ok events) :
    events.length = values.length ∧ ∀ event ∈ events, dateParses event.ts = true := by
  induction values generalizing events with
  | nil =>
    cases h
    exact ⟨rfl, fun event hmem => absurd hmem List.not_mem_nil⟩
  | cons value values ih =>
    rw [List.mapM_cons] at h
    cases hfirst : parseEvent dateParses limits value with
    | error reason =>
      rw [hfirst] at h
      cases h
    | ok first =>
      cases hrest : values.mapM (parseEvent dateParses limits) with
      | error reason =>
        rw [hfirst, hrest] at h
        cases h
      | ok rest =>
        rw [hfirst, hrest] at h
        cases h
        have ⟨hlength, hdates⟩ := ih hrest
        apply And.intro (congrArg (· + 1) hlength)
        intro event hmem
        cases List.mem_cons.mp hmem with
        | inl heq => exact heq ▸ parseEvent_date hfirst
        | inr hin => exact hdates event hin

/-- What is accepted is not empty, and the time of each event is one that is read. -/
theorem parseLogBatch_events {dateParses : String → Bool} {limits : IngestLimits} {value : Json}
    {batch : ParsedBatch} (h : parseLogBatch dateParses limits value = .ok batch) :
    batch.events ≠ [] ∧ ∀ event ∈ batch.events, dateParses event.ts = true := by
  have hparsed : ∃ values : List Json, values.length ≠ 0 ∧
      values.mapM (parseEvent dateParses limits) = .ok batch.events := by
    unfold parseLogBatch at h
    split at h
    · cases h
    · split at h
      · rename_i values _
        split at h
        · cases h
        · rename_i hlength
          split at h
          · cases h
          · split at h
            · cases h
            · rename_i parsed hparsed
              apply Exists.intro values
              apply And.intro hlength
              split at h
              · cases h
                exact hparsed
              · cases h
                exact hparsed
              · cases h
      · cases h
  have ⟨values, hlength, hmap⟩ := hparsed
  have ⟨hsame, hdates⟩ := mapM_parseEvent hmap
  apply And.intro _ hdates
  intro hempty
  rw [hempty] at hsame
  exact hlength hsame.symm

/-- The attributes under a name are none or one, with the value of the server. -/
def Once (record : LogRecord) (key : String) (value : Option String) : Prop :=
  record.attributes.filter (·.key = key) =
    (value.map fun text => (⟨key, .stringValue text⟩ : Attribute)).toList

theorem once_of_stamped {record : ServerLogRecord} {key : String} {value : Option String}
    (h : (key, value.map Json.string) ∈ stamped record) :
    Once (toLogRecord read date nowMs record) key value := by
  have hfilter : (toAttributes read (recordEntries record)).filter (·.key = key) = _ :=
    filter_toAttributes h
  cases value with
  | none => exact hfilter
  | some text => exact hfilter

/-- The payload of an accepted batch, in whose objects each key is there once, holds each record
once, under the service, with the names of the server at most once and with its values.  It is
valid exactly if the time of the server and, for each event, its time and its numbers are in the
range of their wire types. -/
theorem toOtlpLogsPayload_spec (read : String → Number) (date : String → Option Int)
    (limits : IngestLimits) (value : Json) (batch : ParsedBatch)
    (hbatch : parseLogBatch (fun ts => (date ts).isSome) limits value = .ok batch)
    (hkeys : ∀ event ∈ batch.events, (event.attrs.map (·.1)).Nodup) (facts : RequestFacts)
    (nowMs : Int) :
    let records := batch.events.map (toServerRecord facts)
    let payload := toOtlpLogsPayload read date records nowMs
    (Valid payload ↔ InTime ((date facts.nowIso).getD nowMs) ∧
        ∀ event ∈ batch.events, Sendable read date facts.isRedactedKey event) ∧
      payload = [⟨[⟨"service.name", .stringValue facts.service⟩], SCOPE_NAME,
        records.map (toLogRecord read date nowMs)⟩] ∧
      ∀ record ∈ records,
        Once (toLogRecord read date nowMs record) "event.name" (some record.event) ∧
          Once (toLogRecord read date nowMs record) "client.address" facts.clientIp ∧
          Once (toLogRecord read date nowMs record) "enduser.id" facts.userId ∧
          Once (toLogRecord read date nowMs record) "wallow.tenant_id" facts.tenantId := by
  have ⟨hne, hdates⟩ := parseLogBatch_events hbatch
  have hpayload : toOtlpLogsPayload read date (batch.events.map (toServerRecord facts)) nowMs =
      [⟨[⟨"service.name", .stringValue facts.service⟩], SCOPE_NAME,
        (batch.events.map (toServerRecord facts)).map (toLogRecord read date nowMs)⟩] := by
    have hrecords : batch.events.map (toServerRecord facts) ≠ [] := by
      rw [ne_eq, List.map_eq_nil_iff]
      exact hne
    have hone : byService (batch.events.map (toServerRecord facts)) =
        [(facts.service, batch.events.map (toServerRecord facts))] := by
      apply byService_of_one hrecords
      intro record hrecord
      have ⟨event, _, heq⟩ := List.mem_map.mp hrecord
      rw [← heq]
      rfl
    rw [toOtlpLogsPayload, hone]
    rfl
  dsimp only
  constructor
  · rw [hpayload]
    constructor
    · intro hvalid
      have hall := (hvalid _ List.mem_cons_self).2
      have hevent : ∀ event ∈ batch.events,
          (toLogRecord read date nowMs (toServerRecord facts event)).Valid := fun event hmem =>
        hall _ (List.mem_map_of_mem (List.mem_map_of_mem hmem))
      constructor
      · have ⟨event, hmem⟩ := List.exists_mem_of_ne_nil _ hne
        exact ((logRecord_valid_iff (hkeys event hmem) (hdates event hmem)).mp
          (hevent event hmem)).1
      · intro event hmem
        exact ((logRecord_valid_iff (hkeys event hmem) (hdates event hmem)).mp
          (hevent event hmem)).2
    · intro hboth logs hlogs
      rw [List.mem_singleton.mp hlogs]
      constructor
      · intro attr hattr
        rw [List.mem_singleton.mp hattr]
        trivial
      · intro log hlog
        have ⟨record, hrecord, hlogEq⟩ := List.mem_map.mp hlog
        have ⟨event, hmem, hrecordEq⟩ := List.mem_map.mp hrecord
        rw [← hlogEq, ← hrecordEq]
        exact (logRecord_valid_iff (hkeys event hmem) (hdates event hmem)).mpr
          ⟨hboth.1, hboth.2 event hmem⟩
  · constructor
    · exact hpayload
    · intro record hrecord
      have ⟨event, _, heq⟩ := List.mem_map.mp hrecord
      rw [← heq]
      constructor
      · exact once_of_stamped List.mem_cons_self
      · constructor
        · exact once_of_stamped (List.mem_cons_of_mem _ (List.mem_cons_of_mem _ List.mem_cons_self))
        · constructor
          · exact once_of_stamped (List.mem_cons_of_mem _ (List.mem_cons_of_mem _
              (List.mem_cons_of_mem _ List.mem_cons_self)))
          · exact once_of_stamped (List.mem_cons_of_mem _ (List.mem_cons_of_mem _
              (List.mem_cons_of_mem _ (List.mem_cons_of_mem _ List.mem_cons_self))))

/-- The batch of one event that has the number as its attribute. -/
def oneNumber (literal : String) : Json :=
  .object [("events", .array [.object [("ts", .string "1970-01-01T00:00:00.000Z"),
    ("level", .string "info"), ("event", .string "page.view"),
    ("attrs", .object [("n", .number literal)])]])]

def oneNumberParsed (literal : String) : ParsedBatch :=
  ⟨[⟨"1970-01-01T00:00:00.000Z", .info, "page.view", [("n", .number literal)], none, none⟩], none⟩

def bareFacts : RequestFacts :=
  ⟨"wallow-web", "1970-01-01T00:00:00.000Z", fun _ => false, none, none, none, none⟩

def readTwo (literal : String) : Number :=
  if literal = "1e21" then .integer 1000000000000000000000 (by decide)
  else .integer 1 (by decide)

def readEpoch (_ : String) : Option Int := some 0

theorem parse_oneNumber (literal : String) :
    parseLogBatch (fun ts => (readEpoch ts).isSome) DEFAULT_INGEST_LIMITS (oneNumber literal) =
      .ok (oneNumberParsed literal) := by
  have hname : isValidEventName "page.view" 120 = true := by decide +kernel
  simp [parseLogBatch, oneNumber, parseEvent, Json.get, List.lookup, Json.isObject,
    LogLevel.ofText, readEpoch, DEFAULT_INGEST_LIMITS, hname, oneNumberParsed]

theorem toOtlpLogsPayload_spec_of_one : Valid (toOtlpLogsPayload readTwo readEpoch
    ((oneNumberParsed "1").events.map (toServerRecord bareFacts)) 0) := by
  have hspec := toOtlpLogsPayload_spec readTwo readEpoch DEFAULT_INGEST_LIMITS (oneNumber "1")
    (oneNumberParsed "1") (parse_oneNumber "1")
    (fun event hmem => by rw [List.mem_singleton.mp hmem]; decide) bareFacts 0
  apply hspec.1.mpr
  constructor
  · exact ⟨by decide, by decide⟩
  · intro event hmem
    rw [List.mem_singleton.mp hmem]
    constructor
    · intro ms hms
      rw [← Option.some.inj hms]
      exact ⟨by decide, by decide⟩
    · intro key literal hattr _ _ _
      cases List.mem_singleton.mp hattr
      decide
    · intro literal hid
      cases hid
    · intro value hvalue
      cases hvalue

/-- The number is written as `1e+21`. -/
theorem power_of_ten_refused : parseLogBatch (fun ts => (readEpoch ts).isSome)
      DEFAULT_INGEST_LIMITS (oneNumber "1e21") = .ok (oneNumberParsed "1e21") ∧
    ¬Valid (toOtlpLogsPayload readTwo readEpoch
      ((oneNumberParsed "1e21").events.map (toServerRecord bareFacts)) 0) := by
  apply And.intro (parse_oneNumber "1e21")
  intro hvalid
  have hrecord := (hvalid _ List.mem_cons_self).2 _ List.mem_cons_self
  have hattributes := hrecord.attributes
  have hfits := ((attributes_valid_iff (by decide)).mp hattributes).1 "n" "1e21"
    List.mem_cons_self (by decide) (by decide) rfl
  exact absurd hfits (by decide)

end Otlp

end Wallow.Logger
