import Wallow.Logger.LogEvent
import Wallow.Lib.Transition
import Mathlib.Data.List.Nodup

/-!
# The buffer of the browser's logger

One `LoggerCore` with its default options: calls that record, flushes through `fetch`, which split
what is too long and back off after a failure, and the beacon of a page that goes away.
-/

namespace Wallow.Logger

open Transition

/-- A buffered event; the serial number tells equal events apart. -/
structure Entry where
  serial : Nat
  event : LogEvent

/-- A batch that has gone to the network. -/
structure SentBatch where
  entries : List Entry
  csrfToken : Option String

def SentBatch.body (b : SentBatch) : Json :=
  LogBatch.toJson ⟨b.entries.map (·.event), b.csrfToken⟩

/-- A `flushCore` under way: the pieces to post, and whether it waits for an answer. -/
structure FlushTask where
  pending : List (List Entry)
  inFlight : Bool

structure LoggerCore where
  buffer : List Entry
  dropped : Nat
  disabledUntil : Nat
  now : Nat
  flushes : List FlushTask
  sent : List SentBatch
  nextSerial : Nat

inductive LoggerMove
  /-- A call of the logger, or of a child, whose attributes are the base. -/
  | log (level : LogLevel) (event : String) (base attrs : Attrs) (correlationId : Option String)
      (error : Option LogEventError)
  /-- `flush`, or a tick of the timer. -/
  | flush
  /-- The listener of `pagehide`, with the answer of `sendBeacon`. -/
  | pagehide (csrfToken : Option String) (queued : Bool)
  /-- `postBatch` of the next piece of a flush. -/
  | post (i : Nat)
  | answer (i : Nat) (ok : Bool)
  | advance (milliseconds : Nat)

def DEFAULT_MAX_BUFFERED_EVENTS : Nat := 200
def DEFAULT_FLUSH_AT_EVENTS : Nat := 20
def DEFAULT_TRANSPORT_BACKOFF_MS : Nat := 30000
def DEFAULT_MAX_BODY_BYTES : Nat := 65536

/-- The bytes `sendBeacon` queues for an origin. -/
def SIXTY_FOUR_KIB : Nat := 65536

def DROPPED_EVENT : String := "logger.dropped"

/-- `Date`: what it writes it can read. -/
structure DateText where
  toISOString : Nat → String
  parses : String → Bool
  parses_toISOString : ∀ ms, parses (toISOString ms) = true

namespace LoggerCore

def start : LoggerCore := ⟨[], 0, 0, 0, [], [], 0⟩

section Source

variable (date : DateText) (isRedactedKey : String → Bool)

/-- The report of dropped events. -/
def dropReport (s : LoggerCore) : LogEvent :=
  ⟨date.toISOString s.now, .warn, DROPPED_EVENT, [("count", .number (toString s.dropped))], none,
    none⟩

/-- The events `drainBuffer` takes. -/
def drained (s : LoggerCore) : List Entry :=
  if s.dropped = 0 then s.buffer else ⟨s.nextSerial, s.dropReport date⟩ :: s.buffer

def drainBuffer (s : LoggerCore) : LoggerCore :=
  { s with
    buffer := [], dropped := 0
    nextSerial := if s.dropped = 0 then s.nextSerial else s.nextSerial + 1 }

/-- Neither is there nothing to send, nor is the transport backing off. -/
def drains (s : LoggerCore) : Bool :=
  !(s.buffer.isEmpty && s.dropped = 0) && !(s.now < s.disabledUntil)

def flushCore (s : LoggerCore) : LoggerCore :=
  if s.drains then
    { s.drainBuffer with flushes := s.flushes ++ [⟨[s.drained date], false⟩] }
  else s

/-- The event that `record` buffers. -/
def loggedEvent (s : LoggerCore) (level : LogLevel) (event : String) (base attrs : Attrs)
    (correlationId : Option String) (error : Option LogEventError) : LogEvent :=
  ⟨date.toISOString s.now, level, event,
    redactAttrs isRedactedKey MAX_REDACT_DEPTH (spread base attrs), correlationId, error⟩

/-- The push of an event and the loop that drops the oldest ones. -/
def push (s : LoggerCore) (event : LogEvent) : LoggerCore :=
  let buffer := s.buffer ++ [⟨s.nextSerial, event⟩]
  let excess := buffer.length - DEFAULT_MAX_BUFFERED_EVENTS
  { s with
    buffer := buffer.drop excess, dropped := s.dropped + excess, nextSerial := s.nextSerial + 1 }

def flushWhenFull (s : LoggerCore) : LoggerCore :=
  if DEFAULT_FLUSH_AT_EVENTS ≤ s.buffer.length then s.flushCore date else s

/-- `record`, with the level `info`. -/
def record (s : LoggerCore) (level : LogLevel) (event : String) (base attrs : Attrs)
    (correlationId : Option String) (error : Option LogEventError) : LoggerCore :=
  if level.isAtLeast .info then
    (s.push (s.loggedEvent date isRedactedKey level event base attrs correlationId
      error)).flushWhenFull date
  else s

/-- `flushBeacon`; no more is queued than the quota. -/
def flushBeacon (s : LoggerCore) (csrfToken : Option String) (queued : Bool) :
    Option LoggerCore :=
  if s.drains then
    let batch : SentBatch := ⟨s.drained date, csrfToken.filter (· ≠ "")⟩
    if queued then
      if batch.body.byteLength ≤ SIXTY_FOUR_KIB then
        some { s.drainBuffer with sent := s.sent ++ [batch] }
      else none
    else some s.drainBuffer
  else some s

end Source

def setFlush (s : LoggerCore) (i : Nat) (task : FlushTask) : LoggerCore :=
  { s with flushes := s.flushes.set i task }

/-- `postBatch` and `postSplit` of one piece, up to the `fetch`. -/
def postBatch (s : LoggerCore) (i : Nat) (task : FlushTask) : Option LoggerCore :=
  match task.inFlight, task.pending with
  | false, events :: rest =>
    if DEFAULT_MAX_BODY_BYTES < (SentBatch.body ⟨events, none⟩).byteLength then
      if events.length ≤ 1 then
        some ({ s with dropped := s.dropped + events.length }.setFlush i ⟨rest, false⟩)
      else
        let middle := events.length / 2
        some (s.setFlush i ⟨events.take middle :: events.drop middle :: rest, false⟩)
    else some ({ s with sent := s.sent ++ [SentBatch.mk events none] }.setFlush i ⟨rest, true⟩)
  | _, _ => none

/-- The answer to a `fetch`: the next piece may follow, or the transport backs off and the flush is
over. -/
def answerFetch (s : LoggerCore) (i : Nat) (ok : Bool) (task : FlushTask) : Option LoggerCore :=
  if task.inFlight then
    if ok then some (s.setFlush i ⟨task.pending, false⟩)
    else
      some ({ s with disabledUntil := s.now + DEFAULT_TRANSPORT_BACKOFF_MS }.setFlush i ⟨[], false⟩)
  else none

variable (date : DateText) (isRedactedKey : String → Bool)

def step (s : LoggerCore) : LoggerMove → Option LoggerCore
  | .log level event base attrs correlationId error =>
    some (s.record date isRedactedKey level event base attrs correlationId error)
  | .flush => some (s.flushCore date)
  | .pagehide csrfToken queued => s.flushBeacon date csrfToken queued
  | .post i => s.flushes[i]?.bind (s.postBatch i)
  | .answer i ok => s.flushes[i]?.bind (s.answerFetch i ok)
  | .advance milliseconds => some { s with now := s.now + milliseconds }

/-! ## The condition -/

/-- The calls the logger is made for: a valid event name and no more attributes than the route
takes. -/
def ValidCall : LoggerMove → Prop
  | .log _ event base attrs _ _ =>
    isValidEventName event DEFAULT_INGEST_LIMITS.maxEventNameLength = true ∧
      (spread base attrs).length ≤ DEFAULT_INGEST_LIMITS.maxAttributesPerEvent
  | _ => True

/-- The pieces that the byte split leaves of a flush hold no more events than the route takes; the
number is that of the halvings allowed for. -/
def splitsWithinLimit : Nat → List Entry → Bool
  | 0, _ => false
  | n + 1, events =>
    if DEFAULT_MAX_BODY_BYTES < (SentBatch.body ⟨events, none⟩).byteLength then
      events.length ≤ 1 ||
        (splitsWithinLimit n (events.take (events.length / 2)) &&
          splitsWithinLimit n (events.drop (events.length / 2)))
    else events.length ≤ DEFAULT_INGEST_LIMITS.maxEventsPerBatch

def flushWithinLimit (s : LoggerCore) : Bool :=
  !s.drains || splitsWithinLimit ((s.drained date).length + 1) (s.drained date)

def beaconWithinLimit (s : LoggerCore) (queued : Bool) : Bool :=
  !s.drains || !queued || (s.drained date).length ≤ DEFAULT_INGEST_LIMITS.maxEventsPerBatch

/-- What a step drains is within the limit of the route. -/
def allowed (s : LoggerCore) : LoggerMove → Bool
  | .log level event base attrs correlationId error =>
    let s' := s.push (s.loggedEvent date isRedactedKey level event base attrs correlationId error)
    !level.isAtLeast .info || s'.buffer.length < DEFAULT_FLUSH_AT_EVENTS ||
      s'.flushWithinLimit date
  | .flush => s.flushWithinLimit date
  | .pagehide _ queued => s.beaconWithinLimit date queued
  | _ => true

/-! ## Every event goes out once at most -/

section Serials

variable {date : DateText} {isRedactedKey : String → Bool} {s t : LoggerCore}

def serials (entries : List Entry) : List Nat := entries.map (·.serial)

/-- How often a serial number stands in the buffer, in the flushes and in the batches sent. -/
def occurrences (s : LoggerCore) (n : Nat) : Nat :=
  (serials s.buffer).count n +
    (s.flushes.flatMap fun task => serials task.pending.flatten).count n +
    (s.sent.flatMap fun batch => serials batch.entries).count n

/-- The numbers given so far stand in one place at most, the others nowhere. -/
structure Unique (s : LoggerCore) : Prop where
  once : ∀ n, s.occurrences n ≤ 1
  fresh : ∀ n, s.nextSerial ≤ n → s.occurrences n = 0

/-- A step that moves and loses numbers, and gives none. -/
theorem Unique.of_le (h : s.Unique) (hnext : t.nextSerial = s.nextSerial)
    (hle : ∀ n, t.occurrences n ≤ s.occurrences n) : t.Unique where
  once := fun n => Nat.le_trans (hle n) (h.once n)
  fresh := fun n hn => Nat.le_zero.mp (Nat.le_trans (hle n) (Nat.le_of_eq (h.fresh n (hnext ▸ hn))))

theorem count_flatMap_set {α : Type} (f : α → List Nat) {l : List α} {i : Nat} {a b : α}
    (h : l[i]? = some a) (n : Nat) :
    ((l.set i b).flatMap f).count n + (f a).count n = (l.flatMap f).count n + (f b).count n := by
  induction l generalizing i with
  | nil => cases h
  | cons x l ih =>
    cases i with
    | zero =>
      rw [List.getElem?_cons_zero, Option.some.injEq] at h
      subst h
      simp only [List.set_cons_zero, List.flatMap_cons, List.count_append]
      omega
    | succ i =>
      have hrest := ih (i := i) h
      simp only [List.set_cons_succ, List.flatMap_cons, List.count_append]
      omega

theorem count_single (m n : Nat) : [m].count n = if n = m then 1 else 0 := by
  rw [List.count_singleton]
  by_cases h : m = n
  · simp [h]
  · simp [h, Ne.symm h]

theorem count_drop_le (l : List Nat) (k n : Nat) : (l.drop k).count n ≤ l.count n :=
  (List.drop_sublist k l).count_le n

@[simp] theorem serials_append (l l' : List Entry) : serials (l ++ l') = serials l ++ serials l' :=
  List.map_append

theorem unique_start : start.Unique := by
  constructor <;> simp [start, occurrences, serials]

/-- A step that gives the next number to an event, which may get lost. -/
theorem Unique.of_next (h : s.Unique) (hnext : t.nextSerial = s.nextSerial + 1)
    (hle : ∀ n, t.occurrences n ≤ s.occurrences n + if n = s.nextSerial then 1 else 0) :
    t.Unique where
  once := by
    intro n
    have hn := hle n
    by_cases hnew : n = s.nextSerial
    · have hzero := h.fresh n (Nat.le_of_eq hnew.symm)
      rw [if_pos hnew] at hn
      omega
    · have hone := h.once n
      rw [if_neg hnew] at hn
      omega
  fresh := by
    intro n hge
    have hn := hle n
    have hzero := h.fresh n (by omega)
    rw [if_neg (by omega)] at hn
    omega

/-- The new number is not yet given. -/
theorem push_unique (h : s.Unique) (event : LogEvent) : (s.push event).Unique := by
  refine h.of_next rfl fun n => ?_
  have hdrop := count_drop_le (serials (s.buffer ++ [Entry.mk s.nextSerial event]))
    ((s.buffer ++ [Entry.mk s.nextSerial event]).length - DEFAULT_MAX_BUFFERED_EVENTS) n
  simp only [serials, ← List.map_drop] at hdrop
  have hlast : [s.nextSerial].count n = if n = s.nextSerial then 1 else 0 := count_single _ n
  simp only [List.map_append, List.map_cons, List.map_nil, List.count_append] at hdrop
  simp only [occurrences, serials, push]
  omega

theorem count_drained (date : DateText) (s : LoggerCore) (n : Nat) :
    (serials (s.drained date)).count n =
      (serials s.buffer).count n + if s.dropped ≠ 0 ∧ n = s.nextSerial then 1 else 0 := by
  unfold drained
  by_cases hdropped : s.dropped = 0
  · simp [hdropped]
  · have hreport := count_single s.nextSerial n
    rw [if_neg hdropped, ← List.singleton_append, serials_append, List.count_append]
    simp only [hdropped, ne_eq, not_false_eq_true, true_and, ← hreport]
    exact Nat.add_comm _ _

/-- What is drained goes to a flush, to a beacon, or is lost. -/
theorem drain_unique (date : DateText) (h : s.Unique) {t : LoggerCore}
    (hnext : t.nextSerial = s.drainBuffer.nextSerial)
    (hcount : ∀ n, t.occurrences n + (serials s.buffer).count n ≤
      s.occurrences n + (serials (s.drained date)).count n) : t.Unique := by
  by_cases hdropped : s.dropped = 0
  · refine h.of_le (by rw [hnext, drainBuffer, if_pos hdropped]) fun n => ?_
    have hn := hcount n
    rw [count_drained, if_neg (by simp [hdropped])] at hn
    omega
  · refine h.of_next (by rw [hnext, drainBuffer, if_neg hdropped]) fun n => ?_
    have hn := hcount n
    simp only [count_drained, hdropped, ne_eq, not_false_eq_true, true_and] at hn
    omega

theorem flushCore_unique (h : s.Unique) : (s.flushCore date).Unique := by
  unfold flushCore
  split
  · refine drain_unique date h rfl fun n => ?_
    simp only [occurrences, drainBuffer, List.flatMap_append, List.flatMap_cons, List.flatMap_nil,
      List.append_nil, List.flatten_cons, List.flatten_nil, List.count_append]
    simp only [serials, List.map_nil, List.count_nil]
    omega
  · exact h

theorem flushBeacon_unique (h : s.Unique) {csrfToken : Option String} {queued : Bool}
    (hstep : s.flushBeacon date csrfToken queued = some t) : t.Unique := by
  unfold flushBeacon at hstep
  split at hstep
  · cases queued with
    | true =>
      simp only [if_true, Option.ite_none_right_eq_some, Option.some.injEq] at hstep
      obtain ⟨-, rfl⟩ := hstep
      refine drain_unique date h rfl fun n => ?_
      simp only [occurrences, drainBuffer, List.flatMap_append, List.flatMap_cons,
        List.flatMap_nil, List.append_nil, List.count_append]
      simp only [serials, List.map_nil, List.count_nil]
      omega
    | false =>
      simp only [Bool.false_eq_true, if_false, Option.some.injEq] at hstep
      subst hstep
      refine drain_unique date h rfl fun n => ?_
      simp only [occurrences, drainBuffer, serials, List.map_nil, List.count_nil]
      omega
  · cases hstep
    exact h

/-- A piece is dropped, halved or sent. -/
theorem postBatch_cases {i : Nat} {task : FlushTask} (hstep : s.postBatch i task = some t) :
    ∃ events rest, task.pending = events :: rest ∧
      (DEFAULT_MAX_BODY_BYTES < (SentBatch.body ⟨events, none⟩).byteLength ∧ events.length ≤ 1 ∧
          t = { s with dropped := s.dropped + events.length }.setFlush i ⟨rest, false⟩ ∨
        DEFAULT_MAX_BODY_BYTES < (SentBatch.body ⟨events, none⟩).byteLength ∧
          ¬events.length ≤ 1 ∧
          t = s.setFlush i ⟨events.take (events.length / 2) ::
            events.drop (events.length / 2) :: rest, false⟩ ∨
        ¬DEFAULT_MAX_BODY_BYTES < (SentBatch.body ⟨events, none⟩).byteLength ∧
          t = { s with sent := s.sent ++ [SentBatch.mk events none] }.setFlush i ⟨rest, true⟩) := by
  unfold postBatch at hstep
  split at hstep
  · rename_i events rest _ hpending
    refine ⟨events, rest, hpending, ?_⟩
    split at hstep
    · rename_i hlong
      split at hstep
      · rename_i hone
        exact .inl ⟨hlong, hone, (Option.some.inj hstep).symm⟩
      · rename_i hmany
        exact .inr (.inl ⟨hlong, hmany, (Option.some.inj hstep).symm⟩)
    · rename_i hshort
      exact .inr (.inr ⟨hshort, (Option.some.inj hstep).symm⟩)
  · cases hstep

theorem postBatch_unique (h : s.Unique) {i : Nat} {task : FlushTask}
    (htask : s.flushes[i]? = some task) (hstep : s.postBatch i task = some t) : t.Unique := by
  have hset : ∀ n pending inFlight,
      ((s.flushes.set i ⟨pending, inFlight⟩).flatMap fun task =>
        serials task.pending.flatten).count n + (serials task.pending.flatten).count n =
      (s.flushes.flatMap fun task => serials task.pending.flatten).count n +
        (serials pending.flatten).count n :=
    fun n pending inFlight => count_flatMap_set _ htask n
  obtain ⟨events, rest, hpending, hcases⟩ := postBatch_cases hstep
  rw [hpending] at hset
  simp only [List.flatten_cons, serials_append, List.count_append] at hset
  obtain ⟨-, -, rfl⟩ | ⟨-, -, rfl⟩ | ⟨-, rfl⟩ := hcases
  · refine h.of_le rfl fun n => ?_
    have hrest := hset n rest false
    simp only [occurrences, setFlush]
    omega
  · -- the halves take the place of the piece
    refine h.of_le rfl fun n => ?_
    have hhalves := hset n (events.take (events.length / 2) ::
      events.drop (events.length / 2) :: rest) false
    have hsplit : (serials (events.take (events.length / 2))).count n +
        (serials (events.drop (events.length / 2))).count n = (serials events).count n := by
      rw [← List.count_append, ← serials_append, List.take_append_drop]
    simp only [List.flatten_cons, serials_append, List.count_append] at hhalves
    simp only [occurrences, setFlush]
    omega
  · refine h.of_le rfl fun n => ?_
    have hrest := hset n rest true
    simp only [occurrences, setFlush, List.flatMap_append, List.flatMap_cons, List.flatMap_nil,
      List.append_nil, List.count_append]
    omega

theorem answerFetch_unique (h : s.Unique) {i : Nat} {ok : Bool} {task : FlushTask}
    (htask : s.flushes[i]? = some task) (hstep : s.answerFetch i ok task = some t) : t.Unique := by
  have hset : ∀ n pending,
      ((s.flushes.set i ⟨pending, false⟩).flatMap fun task =>
        serials task.pending.flatten).count n + (serials task.pending.flatten).count n =
      (s.flushes.flatMap fun task => serials task.pending.flatten).count n +
        (serials pending.flatten).count n :=
    fun n pending => count_flatMap_set _ htask n
  unfold answerFetch at hstep
  split at hstep
  · cases ok with
    | true =>
      cases hstep
      refine h.of_le rfl fun n => ?_
      have hsame := hset n task.pending
      simp only [occurrences, setFlush]
      omega
    | false =>
      -- the pieces that were left are lost
      cases hstep
      refine h.of_le rfl fun n => ?_
      have hnone := hset n []
      have hempty : (serials ([] : List (List Entry)).flatten).count n = 0 := rfl
      simp only [occurrences, setFlush]
      omega
  · cases hstep

theorem record_unique (h : s.Unique) {level : LogLevel} {event : String} {base attrs : Attrs}
    {correlationId : Option String} {error : Option LogEventError} :
    (s.record date isRedactedKey level event base attrs correlationId error).Unique := by
  unfold record flushWhenFull
  split
  · split
    · exact flushCore_unique (push_unique h _)
    · exact push_unique h _
  · exact h

theorem step_unique (h : s.Unique) {move : LoggerMove}
    (hstep : step date isRedactedKey s move = some t) : t.Unique := by
  cases move with
  | log level event base attrs correlationId error =>
    cases hstep
    exact record_unique h
  | flush =>
    cases hstep
    exact flushCore_unique h
  | pagehide csrfToken queued => exact flushBeacon_unique h hstep
  | post i =>
    obtain ⟨task, htask, hpost⟩ := Option.bind_eq_some_iff.mp hstep
    exact postBatch_unique h htask hpost
  | answer i ok =>
    obtain ⟨task, htask, hanswer⟩ := Option.bind_eq_some_iff.mp hstep
    exact answerFetch_unique h htask hanswer
  | advance milliseconds =>
    cases hstep
    exact h.of_le rfl fun n => Nat.le_refl _

theorem sent_nodup (h : s.Unique) :
    (s.sent.flatMap fun batch => serials batch.entries).Nodup := by
  rw [List.nodup_iff_count_le_one]
  intro n
  have hn := h.once n
  simp only [occurrences] at hn
  omega

end Serials

/-! ## Every batch within the limit is accepted -/

section Accepted

variable {date : DateText} {isRedactedKey : String → Bool} {s t : LoggerCore}

/-- The entry holds an event that the route takes. -/
def EntryValid (date : DateText) (e : Entry) : Prop :=
  EventValid date.parses DEFAULT_INGEST_LIMITS e.event

/-- A piece of a flush: valid events that the split cuts small enough. -/
structure PieceSound (date : DateText) (events : List Entry) : Prop where
  nonempty : events ≠ []
  valid : ∀ e ∈ events, EntryValid date e
  within : ∃ n, splitsWithinLimit n events = true

structure Sound (date : DateText) (s : LoggerCore) : Prop where
  buffer : ∀ e ∈ s.buffer, EntryValid date e
  pending : ∀ task ∈ s.flushes, ∀ events ∈ task.pending, PieceSound date events
  sent : ∀ batch ∈ s.sent, acceptsBody date.parses DEFAULT_INGEST_LIMITS batch.body = true

theorem sound_start : Sound date start := by
  constructor <;> simp [start]

/-- What the route takes: valid events, at least one and at most a hundred, within the byte cap. -/
theorem acceptsBody_of_valid {batch : SentBatch} (hne : batch.entries ≠ [])
    (hcount : batch.entries.length ≤ DEFAULT_INGEST_LIMITS.maxEventsPerBatch)
    (hvalid : ∀ e ∈ batch.entries, EntryValid date e)
    (hbytes : batch.body.byteLength ≤ DEFAULT_INGEST_LIMITS.maxBodyBytes) :
    acceptsBody date.parses DEFAULT_INGEST_LIMITS batch.body = true := by
  rw [acceptsBody, Bool.and_eq_true, decide_eq_true_eq]
  refine ⟨hbytes, parseLogBatch_toJson (by simpa using hne) (by simpa using hcount) ?_⟩
  intro event hevent
  obtain ⟨e, he, rfl⟩ := List.mem_map.mp hevent
  exact hvalid e he

/-- A batch above a hundred events is refused. -/
theorem acceptsBody_of_tooMany {batch : SentBatch}
    (hcount : DEFAULT_INGEST_LIMITS.maxEventsPerBatch < batch.entries.length) :
    acceptsBody date.parses DEFAULT_INGEST_LIMITS batch.body = false := by
  rw [acceptsBody, SentBatch.body, parseLogBatch_tooMany (by simpa using hcount), Bool.and_false]

theorem dropReport_valid (s : LoggerCore) :
    EventValid date.parses DEFAULT_INGEST_LIMITS (s.dropReport date) where
  name := by
    show isValidEventName DROPPED_EVENT 120 = true
    decide +kernel
  ts := date.parses_toISOString s.now
  attrs := by
    show 1 ≤ DEFAULT_INGEST_LIMITS.maxAttributesPerEvent
    decide

theorem drained_valid (h : Sound date s) : ∀ e ∈ s.drained date, EntryValid date e := by
  unfold drained
  split
  · exact h.buffer
  · rintro e (_ | ⟨_, he⟩)
    · exact dropReport_valid s
    · exact h.buffer e he

theorem drained_ne_nil (hdrains : s.drains = true) : s.drained date ≠ [] := by
  unfold drained
  split
  · rename_i hdropped
    simp only [drains, hdropped, decide_true, Bool.and_true, Bool.and_eq_true,
      Bool.not_eq_true', List.isEmpty_eq_false_iff] at hdrains
    exact hdrains.1
  · simp

theorem mem_push_buffer {event : LogEvent} {e : Entry} (he : e ∈ (s.push event).buffer) :
    e ∈ s.buffer ∨ e.event = event := by
  simp only [push] at he
  have hmem := List.mem_of_mem_drop he
  rw [List.mem_append, List.mem_singleton] at hmem
  exact hmem.imp_right fun hnew => by rw [hnew]

theorem push_sound (h : Sound date s) {event : LogEvent}
    (hvalid : EventValid date.parses DEFAULT_INGEST_LIMITS event) : Sound date (s.push event) := by
  have hbuffer : ∀ e ∈ (s.push event).buffer, EntryValid date e := by
    intro e he
    cases mem_push_buffer he with
    | inl hold => exact h.buffer e hold
    | inr hnew =>
      rw [EntryValid, hnew]
      exact hvalid
  have hpending : (s.push event).flushes = s.flushes := by simp only [push]
  have hsent : (s.push event).sent = s.sent := by simp only [push]
  constructor
  · exact hbuffer
  · rw [hpending]
    exact h.pending
  · rw [hsent]
    exact h.sent

theorem flushCore_sound (h : Sound date s) (hallowed : s.flushWithinLimit date = true) :
    Sound date (s.flushCore date) := by
  unfold flushCore
  split
  · rename_i hdrains
    rw [flushWithinLimit, hdrains, Bool.not_true, Bool.false_or] at hallowed
    refine ⟨by simp [drainBuffer], ?_, h.sent⟩
    intro task htask events hevents
    rw [List.mem_append, List.mem_singleton] at htask
    obtain hold | rfl := htask
    · exact h.pending task hold events hevents
    · rw [List.mem_singleton] at hevents
      exact hevents ▸ ⟨drained_ne_nil hdrains, drained_valid h, _, hallowed⟩
  · exact h

theorem flushBeacon_sound (h : Sound date s) {csrfToken : Option String} {queued : Bool}
    (hallowed : s.beaconWithinLimit date queued = true)
    (hstep : s.flushBeacon date csrfToken queued = some t) : Sound date t := by
  unfold flushBeacon at hstep
  split at hstep
  · rename_i hdrains
    cases queued with
    | true =>
      simp only [if_true, Option.ite_none_right_eq_some, Option.some.injEq] at hstep
      obtain ⟨hbytes, rfl⟩ := hstep
      simp only [beaconWithinLimit, hdrains, Bool.not_true, Bool.false_or,
        decide_eq_true_eq] at hallowed
      refine ⟨by simp [drainBuffer], h.pending, ?_⟩
      intro batch hbatch
      rw [List.mem_append, List.mem_singleton] at hbatch
      obtain hold | rfl := hbatch
      · exact h.sent batch hold
      · exact acceptsBody_of_valid (drained_ne_nil hdrains) hallowed (drained_valid h) hbytes
    | false =>
      simp only [Bool.false_eq_true, if_false, Option.some.injEq] at hstep
      subst hstep
      exact ⟨by simp [drainBuffer], h.pending, h.sent⟩
  · cases hstep
    exact h

/-- The pieces of a flush after one of its steps. -/
theorem setFlush_sound (h : Sound date s) (i : Nat) {pending : List (List Entry)} (inFlight : Bool)
    (hpending : ∀ events ∈ pending, PieceSound date events) :
    Sound date (s.setFlush i ⟨pending, inFlight⟩) where
  buffer := h.buffer
  pending := by
    intro task htask
    obtain hold | rfl := List.mem_or_eq_of_mem_set htask
    · exact h.pending task hold
    · exact hpending
  sent := h.sent

/-- A piece that is too long is cut into sound halves. -/
theorem PieceSound.halves {events : List Entry} (h : PieceSound date events)
    (hlong : DEFAULT_MAX_BODY_BYTES < (SentBatch.body ⟨events, none⟩).byteLength)
    (hmany : ¬events.length ≤ 1) :
    PieceSound date (events.take (events.length / 2)) ∧
      PieceSound date (events.drop (events.length / 2)) := by
  obtain ⟨n, hn⟩ := h.within
  cases n with
  | zero => cases hn
  | succ n =>
    simp only [splitsWithinLimit, if_pos hlong, hmany, decide_false, Bool.false_or,
      Bool.and_eq_true] at hn
    constructor
    · refine ⟨?_, fun e he => h.valid e (List.mem_of_mem_take he), n, hn.1⟩
      rw [ne_eq, List.take_eq_nil_iff]
      rintro (hzero | hnil)
      · omega
      · exact h.nonempty hnil
    · refine ⟨?_, fun e he => h.valid e (List.mem_of_mem_drop he), n, hn.2⟩
      rw [ne_eq, List.drop_eq_nil_iff]
      omega

theorem PieceSound.count_le {events : List Entry} (h : PieceSound date events)
    (hshort : ¬DEFAULT_MAX_BODY_BYTES < (SentBatch.body ⟨events, none⟩).byteLength) :
    events.length ≤ DEFAULT_INGEST_LIMITS.maxEventsPerBatch := by
  obtain ⟨n, hn⟩ := h.within
  cases n with
  | zero => cases hn
  | succ n => simpa only [splitsWithinLimit, if_neg hshort, decide_eq_true_eq] using hn

theorem postBatch_sound (h : Sound date s) {i : Nat} {task : FlushTask}
    (htask : s.flushes[i]? = some task) (hstep : s.postBatch i task = some t) : Sound date t := by
  obtain ⟨events, rest, hpending, hcases⟩ := postBatch_cases hstep
  have hall := h.pending task (List.mem_of_getElem? htask)
  rw [hpending] at hall
  have hpiece := hall events List.mem_cons_self
  have hrest : ∀ events ∈ rest, PieceSound date events :=
    fun events' hmem => hall events' (List.mem_cons_of_mem events hmem)
  obtain ⟨-, -, rfl⟩ | ⟨hlong, hmany, rfl⟩ | ⟨hshort, rfl⟩ := hcases
  · have hdropped : Sound date { s with dropped := s.dropped + events.length } :=
      ⟨h.buffer, h.pending, h.sent⟩
    exact setFlush_sound hdropped i false hrest
  · obtain ⟨hfirst, hsecond⟩ := hpiece.halves hlong hmany
    refine setFlush_sound h i false ?_
    rintro events' (_ | ⟨_, _ | ⟨_, hmem⟩⟩)
    · exact hfirst
    · exact hsecond
    · exact hrest events' hmem
  · have hsent : Sound date { s with sent := s.sent ++ [SentBatch.mk events none] } := by
      refine ⟨h.buffer, h.pending, ?_⟩
      intro batch hbatch
      rw [List.mem_append, List.mem_singleton] at hbatch
      obtain hold | rfl := hbatch
      · exact h.sent batch hold
      · exact acceptsBody_of_valid hpiece.nonempty (hpiece.count_le hshort) hpiece.valid
          (Nat.not_lt.mp hshort)
    exact setFlush_sound hsent i true hrest

theorem answerFetch_sound (h : Sound date s) {i : Nat} {ok : Bool} {task : FlushTask}
    (htask : s.flushes[i]? = some task) (hstep : s.answerFetch i ok task = some t) :
    Sound date t := by
  unfold answerFetch at hstep
  split at hstep
  · cases ok with
    | true =>
      cases hstep
      exact setFlush_sound h i false (h.pending task (List.mem_of_getElem? htask))
    | false =>
      cases hstep
      have hbackoff : Sound date
          { s with disabledUntil := s.now + DEFAULT_TRANSPORT_BACKOFF_MS } :=
        ⟨h.buffer, h.pending, h.sent⟩
      exact setFlush_sound hbackoff i false fun _ h => by cases h
  · cases hstep

theorem loggedEvent_valid (isRedactedKey : String → Bool) (s : LoggerCore) {level : LogLevel}
    {event : String} {base attrs : Attrs} {correlationId : Option String}
    {error : Option LogEventError}
    (hcall : ValidCall (.log level event base attrs correlationId error)) :
    EventValid date.parses DEFAULT_INGEST_LIMITS
      (s.loggedEvent date isRedactedKey level event base attrs correlationId error) where
  name := hcall.1
  ts := date.parses_toISOString s.now
  attrs := by
    rw [loggedEvent]
    exact (redactAttrs_length_le isRedactedKey _ _).trans hcall.2

theorem step_sound (h : Sound date s) {move : LoggerMove} (hcall : ValidCall move)
    (hallowed : s.allowed date isRedactedKey move = true)
    (hstep : step date isRedactedKey s move = some t) : Sound date t := by
  cases move with
  | log level event base attrs correlationId error =>
    cases hstep
    have hpush := push_sound h (loggedEvent_valid isRedactedKey s hcall)
    unfold record flushWhenFull
    split
    · rename_i hlevel
      split
      · rename_i hfull
        simp only [allowed, hlevel, Bool.not_true, Bool.false_or, Nat.not_lt.mpr hfull,
          decide_false] at hallowed
        exact flushCore_sound hpush hallowed
      · exact hpush
    · exact h
  | flush =>
    cases hstep
    exact flushCore_sound h hallowed
  | pagehide csrfToken queued => exact flushBeacon_sound h hallowed hstep
  | post i =>
    obtain ⟨task, htask, hpost⟩ := Option.bind_eq_some_iff.mp hstep
    exact postBatch_sound h htask hpost
  | answer i ok =>
    obtain ⟨task, htask, hanswer⟩ := Option.bind_eq_some_iff.mp hstep
    exact answerFetch_sound h htask hanswer
  | advance milliseconds =>
    cases hstep
    exact ⟨h.buffer, h.pending, h.sent⟩

end Accepted

/-- No event goes out twice in any run; and when what is drained is within the limit of the route,
every batch that goes out is one the route takes. -/
theorem batches_accepted (date : DateText) (isRedactedKey : String → Bool) (s : LoggerCore) :
    (Reachable (step date isRedactedKey) start s →
      (s.sent.flatMap fun batch => serials batch.entries).Nodup) ∧
    (Reaches (step date isRedactedKey)
        (fun s move => ValidCall move ∧ s.allowed date isRedactedKey move = true) start s →
      ∀ batch ∈ s.sent, acceptsBody date.parses DEFAULT_INGEST_LIMITS batch.body = true) := by
  constructor
  · intro h
    have hunique : s.Unique := h.invariant Unique unique_start
      fun _ _ _ ha _ hstep => step_unique ha hstep
    exact sent_nodup hunique
  · intro h
    have hsound : Sound date s := h.invariant (Sound date) sound_start
      fun _ _ _ ha hguard hstep => step_sound ha hguard.1 hguard.2 hstep
    exact hsound.sent

/-- A clock that writes one instant and reads no other. -/
def epochText : DateText where
  toISOString _ := "1970-01-01T00:00:00.000Z"
  parses := (· = "1970-01-01T00:00:00.000Z")
  parses_toISOString _ := decide_eq_true rfl

def pageView : LogEvent := ⟨"1970-01-01T00:00:00.000Z", .info, "page.view", [], none, none⟩

def viewPage : LoggerMove := .log .info "page.view" [] [] none none

theorem viewPage_valid : ValidCall viewPage :=
  ⟨by decide +kernel, by decide +kernel⟩

theorem batches_accepted_view :
    ∃ s : LoggerCore, s.sent ≠ [] ∧ ∀ batch ∈ s.sent,
      acceptsBody epochText.parses DEFAULT_INGEST_LIMITS batch.body = true := by
  have hrun : Reaches (step epochText fun _ => false)
      (fun s move => ValidCall move ∧ s.allowed epochText (fun _ => false) move = true) start
      ⟨[], 0, 0, 0, [⟨[], true⟩], [⟨[⟨0, pageView⟩], none⟩], 1⟩ := by
    have hlog : Reaches (step epochText fun _ => false)
        (fun s move => ValidCall move ∧ s.allowed epochText (fun _ => false) move = true) start
        ⟨[⟨0, pageView⟩], 0, 0, 0, [], [], 1⟩ :=
      .tail (l := viewPage) .refl ⟨viewPage_valid, by decide⟩ rfl
    have hflush : Reaches (step epochText fun _ => false)
        (fun s move => ValidCall move ∧ s.allowed epochText (fun _ => false) move = true) start
        ⟨[], 0, 0, 0, [⟨[[⟨0, pageView⟩]], false⟩], [], 1⟩ :=
      .tail (l := .flush) hlog ⟨trivial, by decide⟩ rfl
    exact .tail (l := .post 0) hflush ⟨trivial, rfl⟩ rfl
  exact ⟨_, List.cons_ne_nil _ _, (batches_accepted epochText (fun _ => false) _).2 hrun⟩

/-! ## A buffer that fills up during a backoff -/

/-- The event that a call would record is within the body cap. -/
def EventWithinCap (date : DateText) (isRedactedKey : String → Bool) (s : LoggerCore) :
    LoggerMove → Prop
  | .log level event base attrs correlationId error =>
    (s.loggedEvent date isRedactedKey level event base attrs correlationId error).toJson.byteLength
      ≤ DEFAULT_MAX_BODY_BYTES
  | _ => True

/-- The calls the logger is made for, each event within the body cap. -/
abbrev viewGuard (s : LoggerCore) (move : LoggerMove) : Prop :=
  ValidCall move ∧ EventWithinCap epochText (fun _ => false) s move

theorem viewPage_guard (s : LoggerCore) : viewGuard s viewPage :=
  ⟨viewPage_valid, by
    show pageView.toJson.byteLength ≤ DEFAULT_MAX_BODY_BYTES
    decide +kernel⟩

theorem flushWhenFull_of_backoff {s : LoggerCore} (hbackoff : s.now < s.disabledUntil) :
    s.flushWhenFull epochText = s := by
  have hdrains : s.drains = false := by simp [drains, hbackoff]
  rw [flushWhenFull, flushCore, hdrains, if_neg Bool.false_ne_true, ite_self]

/-- During a backoff a view is only buffered. -/
theorem record_viewPage {s : LoggerCore} (hbackoff : s.now < s.disabledUntil)
    (hroom : s.buffer.length < DEFAULT_MAX_BUFFERED_EVENTS) :
    s.record epochText (fun _ => false) .info "page.view" [] [] none none =
      { s with
        buffer := s.buffer ++ [⟨s.nextSerial, pageView⟩], nextSerial := s.nextSerial + 1 } := by
  have hexcess : (s.buffer ++ [Entry.mk s.nextSerial pageView]).length -
      DEFAULT_MAX_BUFFERED_EVENTS = 0 := by
    rw [List.length_append, List.length_singleton]
    omega
  have hpush : s.push pageView =
      { s with
        buffer := s.buffer ++ [⟨s.nextSerial, pageView⟩], nextSerial := s.nextSerial + 1 } := by
    rw [push, hexcess, List.drop_zero, Nat.add_zero]
  have hevent : s.loggedEvent epochText (fun _ => false) .info "page.view" [] [] none none =
      pageView := rfl
  rw [record, if_pos (by decide), hevent, hpush]
  exact flushWhenFull_of_backoff hbackoff

/-- The buffer grows by as many views as are recorded during a backoff. -/
theorem views_in_backoff {s : LoggerCore} (hbackoff : s.now < s.disabledUntil) (n : Nat)
    (hroom : s.buffer.length + n ≤ DEFAULT_MAX_BUFFERED_EVENTS) :
    Reaches (step epochText fun _ => false) viewGuard s
      { s with
        buffer := s.buffer ++ (List.range' s.nextSerial n).map fun serial => ⟨serial, pageView⟩
        nextSerial := s.nextSerial + n } := by
  induction n with
  | zero =>
    rw [List.range'_zero, List.map_nil, List.append_nil]
    exact .refl
  | succ n ih =>
    refine .tail (l := viewPage) (ih (by omega)) (viewPage_guard _) ?_
    have hbuffered : (s.buffer ++ (List.range' s.nextSerial n).map fun serial =>
        Entry.mk serial pageView).length < DEFAULT_MAX_BUFFERED_EVENTS := by
      rw [List.length_append, List.length_map, List.length_range']
      omega
    rw [viewPage, step, record_viewPage (by exact hbackoff) hbuffered]
    simp [List.range'_concat, Nat.add_assoc]

/-- The text of a batch of equal events. -/
theorem byteLength_views (serials : List Nat) (hne : serials ≠ []) :
    (SentBatch.body ⟨serials.map fun serial => ⟨serial, pageView⟩, none⟩).byteLength =
      80 * serials.length + 12 := by
  obtain ⟨n, hn⟩ := Nat.exists_eq_succ_of_ne_zero
    (Nat.pos_iff_ne_zero.mp (List.length_pos_iff.mpr hne))
  have hitems : (serials.map fun serial => Entry.mk serial pageView).map (·.event.toJson) =
      List.replicate (n + 1) pageView.toJson := by
    simp [List.eq_replicate_iff, hn]
  have hview : pageView.toJson.byteLength = 79 := by decide
  have hkey : (Json.quote "events").utf8ByteSize = 8 := by decide
  have hbody : SentBatch.body ⟨serials.map fun serial => ⟨serial, pageView⟩, none⟩ =
      .object [("events", .array (List.replicate (n + 1) pageView.toJson))] := by
    rw [← hitems]
    simp [SentBatch.body, LogBatch.toJson]
  rw [hbody, Json.byteLength, Json.stringify, Json.stringifyFields, Json.stringify, hn]
  simp only [String.utf8ByteSize_append, Json.utf8ByteSize_stringifyItems_replicate, hkey, hview]
  have hbraces : ("\x7b").utf8ByteSize = 1 ∧ ("\x7d").utf8ByteSize = 1 ∧ ("[").utf8ByteSize = 1 ∧
      ("]").utf8ByteSize = 1 ∧ (":").utf8ByteSize = 1 := by decide
  omega

/-- What a backoff has gathered goes out in one batch if it is short enough. -/
theorem backlog_sent (backlog : List Entry) (disabledUntil nextSerial : Nat) (hne : backlog ≠ [])
    (hshort : ¬DEFAULT_MAX_BODY_BYTES < (SentBatch.body ⟨backlog, none⟩).byteLength)
    (h : Reaches (step epochText fun _ => false) viewGuard start
      ⟨backlog, 0, disabledUntil, 0, [⟨[], false⟩], [⟨[⟨0, pageView⟩], none⟩], nextSerial⟩) :
    ∃ s, Reaches (step epochText fun _ => false) viewGuard start s ∧
      ⟨backlog, none⟩ ∈ s.sent := by
  have hwaited : Reaches (step epochText fun _ => false) viewGuard start
      ⟨backlog, 0, disabledUntil, disabledUntil, [⟨[], false⟩], [⟨[⟨0, pageView⟩], none⟩],
        nextSerial⟩ := by
    refine .tail (l := .advance disabledUntil) h ⟨trivial, trivial⟩ ?_
    rw [step, Nat.zero_add]
  have hflushed : Reaches (step epochText fun _ => false) viewGuard start
      ⟨[], 0, disabledUntil, disabledUntil, [⟨[], false⟩, ⟨[backlog], false⟩],
        [⟨[⟨0, pageView⟩], none⟩], nextSerial⟩ := by
    refine .tail (l := .flush) hwaited ⟨trivial, trivial⟩ ?_
    have hdrains : drains ⟨backlog, 0, disabledUntil, disabledUntil, [⟨[], false⟩],
        [⟨[⟨0, pageView⟩], none⟩], nextSerial⟩ = true := by
      simp [drains, hne]
    rw [step, flushCore, if_pos hdrains]
    rfl
  have hposted : Reaches (step epochText fun _ => false) viewGuard start
      ⟨[], 0, disabledUntil, disabledUntil, [⟨[], false⟩, ⟨[], true⟩],
        [⟨[⟨0, pageView⟩], none⟩, ⟨backlog, none⟩], nextSerial⟩ := by
    refine .tail (l := .post 1) hflushed ⟨trivial, trivial⟩ ?_
    show postBatch _ 1 ⟨[backlog], false⟩ = _
    simp only [postBatch, if_neg hshort]
    rfl
  exact ⟨_, hposted, List.mem_cons_of_mem _ List.mem_cons_self⟩

/-- A failed flush, and a hundred and one views before the backoff is over. -/
theorem backlog_refused :
    ¬∀ (date : DateText) (isRedactedKey : String → Bool) (s : LoggerCore),
      Reaches (step date isRedactedKey)
        (fun s move => ValidCall move ∧ EventWithinCap date isRedactedKey s move) start s →
      (s.sent.flatMap fun batch => serials batch.entries).Nodup ∧
        ∀ batch ∈ s.sent, acceptsBody date.parses DEFAULT_INGEST_LIMITS batch.body = true := by
  intro hclaim
  have hfailed : Reaches (step epochText fun _ => false) viewGuard start
      ⟨[], 0, 30000, 0, [⟨[], false⟩], [⟨[⟨0, pageView⟩], none⟩], 1⟩ := by
    have hlog : Reaches (step epochText fun _ => false) viewGuard start
        ⟨[⟨0, pageView⟩], 0, 0, 0, [], [], 1⟩ := .tail .refl (viewPage_guard _) rfl
    have hflush : Reaches (step epochText fun _ => false) viewGuard start
        ⟨[], 0, 0, 0, [⟨[[⟨0, pageView⟩]], false⟩], [], 1⟩ :=
      .tail (l := .flush) hlog ⟨trivial, trivial⟩ rfl
    have hpost : Reaches (step epochText fun _ => false) viewGuard start
        ⟨[], 0, 0, 0, [⟨[], true⟩], [⟨[⟨0, pageView⟩], none⟩], 1⟩ :=
      .tail (l := .post 0) hflush ⟨trivial, trivial⟩ rfl
    exact .tail (l := .answer 0 false) hpost ⟨trivial, trivial⟩ rfl
  have hgrown : Reaches (step epochText fun _ => false) viewGuard start
      ⟨(List.range' 1 101).map fun serial => ⟨serial, pageView⟩, 0, 30000, 0, [⟨[], false⟩],
        [⟨[⟨0, pageView⟩], none⟩], 102⟩ :=
    hfailed.trans (views_in_backoff (by decide) 101 (by decide))
  have hlength : (List.range' 1 101).length = 101 := List.length_range'
  have hbytes := byteLength_views (List.range' 1 101) (by decide)
  obtain ⟨s, hs, hsent⟩ := backlog_sent _ 30000 102 (by simp)
    (by rw [hbytes, hlength]; decide) hgrown
  have haccepted := (hclaim _ _ s hs).2 _ hsent
  rw [acceptsBody_of_tooMany (by rw [List.length_map, hlength]; decide)] at haccepted
  cases haccepted

end LoggerCore

end Wallow.Logger
