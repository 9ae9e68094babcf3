import Mathlib
import Wallow.Lib.SingleFlight
import Wallow.Telemetry.BrowserQueue

/-!
# The counts of the browser queue

`createBrowserQueue` with its counters: what leaves the queue is counted as exported or as dropped.
Each wait is the end of a step.
-/

namespace Wallow.Telemetry

open Transition

/-- An item of the queue, with its number among all that were ever queued. -/
structure QueueEntry where
  number : Nat
  item : QueueItem

inductive EntryVerdict
  | exported | dropped
  deriving DecidableEq

/-- What a `drain` waits for: the answer to a batch, the end of the response, or `resetContext`; or
it has left, and then the `finally` of `flush` has run. -/
inductive FlushStage
  | sending (batch : List QueueEntry)
  | releasing (batch : List QueueEntry)
  | resetting
  | left
  | settled

def FlushStage.isSettled : FlushStage → Bool
  | settled => true
  | _ => false

structure FlushDrain where
  generation : Nat
  timedOut : Bool
  stage : FlushStage

/-- A `resetContext` that waits for its response, and the drain that waits for it. -/
structure PendingReset where
  generation : Nat
  drain : Option Nat

structure CountedQueue where
  queue : List QueueEntry
  queuedBytes : Int
  exported : Nat
  dropped : Nat
  failed : Nat
  context : Option String
  generation : Nat
  flushing : Option Nat
  drains : List FlushDrain
  resets : List PendingReset
  /-- The items ever queued. -/
  entries : Nat
  /-- The counts of entries. -/
  counted : List (Nat × EntryVerdict)
  /-- The drops of what was never queued. -/
  refused : Nat

inductive QueueEvent
  | enqueue (input : Json)
  | drop
  | clear
  | resetContext
  | flush
  /-- The five seconds of a flush are over. -/
  | timeout (drain : Nat)
  | contextAnswer (reset : Nat) (ok : Bool) (context : Option String)
  | contextFailure (reset : Nat)
  | answer (drain : Nat) (status : Nat)
  | failure (drain : Nat)
  /-- The cancelling of the body is over. -/
  | released (drain : Nat) (succeeds : Bool)
  /-- The `finally` of `flush`. -/
  | settle (drain : Nat)

namespace CountedQueue

def start : CountedQueue := ⟨[], 0, 0, 0, 0, none, 0, none, [], [], 0, [], 0⟩

def size (entries : List QueueEntry) : Int := (entries.map fun e => (e.item.bytes : Int)).sum

def refuse (s : CountedQueue) (count : Nat) : CountedQueue :=
  { s with dropped := s.dropped + count, refused := s.refused + count }

def drop (s : CountedQueue) (batch : List QueueEntry) : CountedQueue :=
  { s with
    dropped := s.dropped + batch.length
    counted := s.counted ++ batch.map fun e => (e.number, .dropped) }

def export_ (s : CountedQueue) (batch : List QueueEntry) : CountedQueue :=
  { s with
    exported := s.exported + batch.length
    counted := s.counted ++ batch.map fun e => (e.number, .exported) }

def fail (s : CountedQueue) : CountedQueue := { s with failed := s.failed + 1 }

def clear (s : CountedQueue) : CountedQueue :=
  { s.drop s.queue with queue := [], queuedBytes := s.queuedBytes - size s.queue }

/-- `resetContext` up to its response. The signal of the requests made before is aborted: it is the
generation that tells. -/
def resetContext (s : CountedQueue) (drain : Option Nat) : CountedQueue :=
  { s.clear with
    generation := s.generation + 1
    context := none
    resets := s.resets ++ [⟨s.generation + 1, drain⟩] }

/-- A drain goes to another stage. -/
def setStage (s : CountedQueue) (drain : Nat) (d : FlushDrain) (stage : FlushStage) :
    CountedQueue :=
  { s with drains := s.drains.set drain { d with stage := stage } }

section Source

variable (o : RelayOptions) (sanitizerDrops : Json → Nat)

def enqueue (s : CountedQueue) (input : Json) : CountedQueue :=
  match s.context with
  | none => s.refuse 1
  | some context =>
    let sanitized := o.sanitizeFaroBatch input
    let next := s.refuse (sanitizerDrops input)
    let bytes := sanitized.toJson.byteLength
    if sanitized.eventCount = 0 then next
    else if BROWSER_LIMITS.eventBytes < bytes ||
        (BROWSER_LIMITS.bufferedBytes : Int) < bytes + s.queuedBytes then next.refuse 1
    else
      { next with
        queue := s.queue ++ [⟨s.entries, ⟨sanitized.toJson, bytes, context⟩⟩]
        queuedBytes := s.queuedBytes + bytes
        entries := s.entries + 1 }

/-- What follows the loop of `drain`. -/
def drainEnd (s : CountedQueue) (drain : Nat) (d : FlushDrain) : CountedQueue :=
  if d.generation ≠ s.generation then s.setStage drain d .left
  else if d.timedOut then s.clear.setStage drain d .left
  else
    match s.context with
    | none => (s.resetContext (some drain)).setStage drain d .resetting
    | some _ => s.setStage drain d .left

/-- How many of the queue go into the next batch. -/
def batchCount (s : CountedQueue) (context : String) : Nat :=
  (BrowserPage.collect o context (o.sanitizeFaroBatch (.object []))
    (s.queue.map QueueEntry.item)).1.length

/-- The loop of `drain`, up to the request of its next batch. -/
def drainLoop (s : CountedQueue) (drain : Nat) (d : FlushDrain) : CountedQueue :=
  match s.context with
  | none => s.drainEnd drain d
  | some context =>
    if s.queue.isEmpty || d.timedOut || d.generation ≠ s.generation then s.drainEnd drain d
    else
      let count := s.batchCount o context
      if count = 0 then s.clear.drainEnd drain d
      else
        { s with queue := s.queue.drop count }.setStage drain d (.sending (s.queue.take count))

def flush (s : CountedQueue) : CountedQueue :=
  match s.flushing with
  | some _ => s
  | none =>
    let d : FlushDrain := ⟨s.generation, false, .left⟩
    drainLoop o { s with flushing := some s.drains.length, drains := s.drains ++ [d] }
      s.drains.length d

/-- The counts of a batch that is answered. -/
def countAnswer (s : CountedQueue) (d : FlushDrain) (batch : List QueueEntry) (status : Nat) :
    CountedQueue :=
  if d.generation ≠ s.generation then s.drop batch
  else if status = 409 then { s.clear with context := none }.drop batch
  else if 200 ≤ status ∧ status < 300 then s.export_ batch
  else s.fail.drop batch

/-- The `finally` of a batch, and the loop. -/
def finishBatch (s : CountedQueue) (drain : Nat) (d : FlushDrain) (batch : List QueueEntry) :
    CountedQueue :=
  drainLoop o { s with queuedBytes := s.queuedBytes - size batch } drain d

/-- The drain that waits for a `resetContext` goes on. -/
def wake (s : CountedQueue) : Option Nat → CountedQueue
  | none => s
  | some drain =>
    match s.drains[drain]? with
    | some ⟨generation, timedOut, .resetting⟩ =>
      s.setStage drain ⟨generation, timedOut, .resetting⟩ .left
    | _ => s

def contextAnswer (s : CountedQueue) (reset : Nat) (r : PendingReset) (ok : Bool)
    (context : Option String) : CountedQueue :=
  let s' := { s with resets := s.resets.eraseIdx reset }
  match context with
  | some c =>
    if ok && c.length ≤ BROWSER_LIMITS.events && r.generation = s.generation then
      { s' with context := some c }.wake r.drain
    else s'.wake r.drain
  | none => s'.wake r.drain

def contextFailure (s : CountedQueue) (reset : Nat) (r : PendingReset) : CountedQueue :=
  { s.fail with resets := s.resets.eraseIdx reset }.wake r.drain

def step (s : CountedQueue) : QueueEvent → Option CountedQueue
  | .enqueue input => some (s.enqueue o sanitizerDrops input)
  | .drop => some (s.refuse 1)
  | .clear => some s.clear
  | .resetContext => some (s.resetContext none)
  | .flush => some (s.flush o)
  | .timeout drain =>
    (s.drains[drain]?.filter fun d => !d.stage.isSettled).map fun d =>
      { s with drains := s.drains.set drain { d with timedOut := true } }
  | .contextAnswer reset ok context =>
    s.resets[reset]?.map fun r => s.contextAnswer reset r ok context
  | .contextFailure reset => s.resets[reset]?.map (s.contextFailure reset)
  | .answer drain status =>
    s.drains[drain]?.bind fun d =>
      match d.stage with
      | .sending batch =>
        some ((s.countAnswer d batch status).setStage drain d (.releasing batch))
      | _ => none
  | .failure drain =>
    s.drains[drain]?.bind fun d =>
      match d.stage with
      | .sending batch => some ((s.fail.drop batch).finishBatch o drain d batch)
      | _ => none
  | .released drain succeeds =>
    s.drains[drain]?.bind fun d =>
      match d.stage with
      | .releasing batch =>
        some ((if succeeds then s else s.fail.drop batch).finishBatch o drain d batch)
      | _ => none
  | .settle drain =>
    s.drains[drain]?.bind fun d =>
      match d.stage with
      | .left => some { s.setStage drain d .settled with flushing := none }
      | _ => none

end Source

/-! ## What the accounts should show -/

end CountedQueue

/-- The entries whose bytes a drain holds. -/
def FlushDrain.held (d : FlushDrain) : List QueueEntry :=
  match d.stage with
  | .sending batch => batch
  | .releasing batch => batch
  | _ => []

/-- The entries whose answer a drain waits for. -/
def FlushDrain.awaited (d : FlushDrain) : List QueueEntry :=
  match d.stage with
  | .sending batch => batch
  | _ => []

namespace CountedQueue

def inFlight (s : CountedQueue) : List QueueEntry := s.drains.flatMap FlushDrain.held

def awaited (s : CountedQueue) : List QueueEntry := s.drains.flatMap FlushDrain.awaited

/-- The entries that have not left. -/
def present (s : CountedQueue) : List Nat := (s.awaited ++ s.queue).map QueueEntry.number

def tally (s : CountedQueue) (v : EntryVerdict) : Nat := s.counted.countP fun c => c.2 = v

structure Accounts (s : CountedQueue) : Prop where
  bytes : s.queuedBytes = size s.queue + size s.inFlight
  bounded : 0 ≤ s.queuedBytes ∧ s.queuedBytes ≤ BROWSER_LIMITS.bufferedBytes
  tallies : s.exported = s.tally .exported ∧ s.dropped = s.tally .dropped + s.refused
  /-- An entry is counted once when it has left, and not before. -/
  counted : ∀ n < s.entries,
    (s.counted.map Prod.fst).count n = if n ∈ s.present then 0 else 1

/-- The body of no response fails to be cancelled. -/
def Releases (_ : CountedQueue) (e : QueueEvent) : Prop := ∀ drain, e ≠ .released drain false

/-! ## The books -/

/-- The accounts, with the entries that a drain holds and those whose answer it waits for. -/
structure Books (held awaited : List QueueEntry) (s : CountedQueue) : Prop where
  bytes : s.queuedBytes = size s.queue + size held
  bounded : s.queuedBytes ≤ BROWSER_LIMITS.bufferedBytes
  tallies : s.exported = s.tally .exported ∧ s.dropped = s.tally .dropped + s.refused
  ledger : (s.counted.map Prod.fst ++ (awaited ++ s.queue).map QueueEntry.number).Perm
    (List.range s.entries)

theorem size_append (xs ys : List QueueEntry) : size (xs ++ ys) = size xs + size ys := by
  simp [size]

theorem size_nonneg (xs : List QueueEntry) : 0 ≤ size xs := by
  induction xs with
  | nil => exact Int.le_refl 0
  | cons e rest ih =>
    have hsize : size (e :: rest) = e.item.bytes + size rest := by simp [size]
    omega

namespace Books

variable {s : CountedQueue} {held awaited : List QueueEntry}

/-- The books do not read these. -/
theorem frame (h : Books held awaited s) (failed : Nat) (context : Option String)
    (generation : Nat) (flushing : Option Nat) (drains : List FlushDrain)
    (resets : List PendingReset) :
    Books held awaited
      { s with
        failed := failed
        context := context
        generation := generation
        flushing := flushing
        drains := drains
        resets := resets } :=
  ⟨h.bytes, h.bounded, h.tallies, h.ledger⟩

theorem refuse (h : Books held awaited s) (count : Nat) : Books held awaited (s.refuse count) where
  bytes := h.bytes
  bounded := h.bounded
  tallies := by
    have ⟨hexported, hdropped⟩ := h.tallies
    refine ⟨hexported, ?_⟩
    show s.dropped + count = s.tally .dropped + (s.refused + count)
    omega
  ledger := h.ledger

theorem countP_batch (batch : List QueueEntry) (v w : EntryVerdict) :
    (batch.map fun e => (e.number, v)).countP (fun c => c.2 = w) =
      if v = w then batch.length else 0 := by
  rw [List.countP_map]
  split
  · rename_i heq
    exact List.countP_eq_length.mpr fun _ _ => decide_eq_true heq
  · rename_i hne
    exact List.countP_eq_zero.mpr fun _ _ => by simpa using hne

/-- Entries move from the awaited ones to the counted ones. -/
theorem ledger_count {batch : List QueueEntry} (v : EntryVerdict)
    (h : (s.counted.map Prod.fst ++ (batch ++ s.queue).map QueueEntry.number).Perm
      (List.range s.entries)) :
    ((s.counted ++ batch.map fun e => (e.number, v)).map Prod.fst ++
      ([] ++ s.queue).map QueueEntry.number).Perm (List.range s.entries) := by
  rw [List.map_append] at h
  rw [List.map_append, List.map_map, List.nil_append, List.append_assoc]
  exact h

/-- A batch is dropped. -/
theorem drop {batch : List QueueEntry} (h : Books held batch s) :
    Books held [] (s.drop batch) where
  bytes := h.bytes
  bounded := h.bounded
  tallies := by
    have ⟨hexported, hdropped⟩ := h.tallies
    simp only [tally, CountedQueue.drop, List.countP_append, countP_batch, reduceCtorEq, if_true,
      if_false] at *
    omega
  ledger := ledger_count .dropped h.ledger

/-- A batch is exported. -/
theorem export_ {batch : List QueueEntry} (h : Books held batch s) :
    Books held [] (s.export_ batch) where
  bytes := h.bytes
  bounded := h.bounded
  tallies := by
    have ⟨hexported, hdropped⟩ := h.tallies
    simp only [tally, CountedQueue.export_, List.countP_append, countP_batch, reduceCtorEq,
      if_true, if_false] at *
    omega
  ledger := ledger_count .exported h.ledger

/-- What is queued is dropped. -/
theorem clear (h : Books held awaited s) : Books held awaited s.clear where
  bytes := by
    have hbytes := h.bytes
    show s.queuedBytes - size s.queue = size [] + size held
    rw [show size [] = 0 from rfl]
    omega
  bounded := by
    have hbounded := h.bounded
    have hsize := size_nonneg s.queue
    show s.queuedBytes - size s.queue ≤ BROWSER_LIMITS.bufferedBytes
    omega
  tallies := by
    have ⟨hexported, hdropped⟩ := h.tallies
    simp only [tally, CountedQueue.clear, CountedQueue.drop, List.countP_append, countP_batch,
      reduceCtorEq, if_true, if_false] at *
    omega
  ledger := by
    refine List.Perm.trans ?_ h.ledger
    show ((s.counted ++ s.queue.map fun e => (e.number, EntryVerdict.dropped)).map Prod.fst ++
      (awaited ++ []).map QueueEntry.number).Perm _
    rw [List.map_append, List.map_map, List.append_nil, List.map_append, List.append_assoc]
    exact List.Perm.append_left _ List.perm_append_comm

theorem resetContext (h : Books held awaited s) (drain : Option Nat) :
    Books held awaited (s.resetContext drain) :=
  h.clear.frame _ _ _ _ _ _

/-- The next batch is taken from the queue. -/
theorem take (h : Books [] [] s) (count : Nat) :
    Books (s.queue.take count) (s.queue.take count) { s with queue := s.queue.drop count } where
  bytes := by
    have hbytes := h.bytes
    rw [← List.take_append_drop count s.queue, size_append] at hbytes
    show s.queuedBytes = size (s.queue.drop count) + size (s.queue.take count)
    rw [show size [] = 0 from rfl] at hbytes
    omega
  bounded := h.bounded
  tallies := h.tallies
  ledger := by
    show (s.counted.map Prod.fst ++
      (s.queue.take count ++ s.queue.drop count).map QueueEntry.number).Perm _
    rw [List.take_append_drop]
    exact h.ledger

/-- The bytes of a batch are free again. -/
theorem finish {batch : List QueueEntry} (h : Books batch [] s) :
    Books [] [] { s with queuedBytes := s.queuedBytes - size batch } where
  bytes := by
    have hbytes := h.bytes
    show s.queuedBytes - size batch = size s.queue + size []
    rw [show size [] = 0 from rfl]
    omega
  bounded := by
    have hbounded := h.bounded
    have hsize := size_nonneg batch
    show s.queuedBytes - size batch ≤ BROWSER_LIMITS.bufferedBytes
    omega
  tallies := h.tallies
  ledger := h.ledger

/-- An item is queued. -/
theorem push (h : Books held awaited s) (item : QueueItem)
    (hroom : s.queuedBytes + item.bytes ≤ BROWSER_LIMITS.bufferedBytes) :
    Books held awaited
      { s with
        queue := s.queue ++ [⟨s.entries, item⟩]
        queuedBytes := s.queuedBytes + item.bytes
        entries := s.entries + 1 } where
  bytes := by
    have hbytes := h.bytes
    have hitem : size [QueueEntry.mk s.entries item] = item.bytes := by simp [size]
    show s.queuedBytes + item.bytes = size (s.queue ++ [QueueEntry.mk s.entries item]) + size held
    rw [size_append]
    omega
  bounded := hroom
  tallies := h.tallies
  ledger := by
    have hledger := h.ledger.append_right [s.entries]
    rw [← List.range_succ] at hledger
    refine List.Perm.trans ?_ hledger
    show (s.counted.map Prod.fst ++
      (awaited ++ (s.queue ++ [QueueEntry.mk s.entries item])).map QueueEntry.number).Perm _
    rw [← List.append_assoc, List.map_append, List.map_singleton, List.append_assoc]

end Books

/-! ## Steps -/

section Steps

variable {o : RelayOptions} {sanitizerDrops : Json → Nat} {s : CountedQueue}
  {before : List FlushDrain} {d : FlushDrain}

/-- The drain that is flushing, behind those that are over. -/
abbrev Busy (before : List FlushDrain) (d : FlushDrain) (s : CountedQueue) : Prop :=
  SingleFlight.Busy (fun d => d.stage = .settled) before d s.drains s.flushing

abbrev Shape (s : CountedQueue) : Prop :=
  SingleFlight.Shape (fun d => d.stage = .settled) s.drains s.flushing

theorem held_settled (d : FlushDrain) (h : d.stage = .settled) : d.held = [] := by
  rw [FlushDrain.held, h]

theorem awaited_settled (d : FlushDrain) (h : d.stage = .settled) : d.awaited = [] := by
  rw [FlushDrain.awaited, h]

structure Inv (s : CountedQueue) : Prop where
  shape : s.Shape
  books : Books s.inFlight s.awaited s

theorem inv_start : start.Inv where
  shape := Or.inl ⟨by simp [start], rfl⟩
  books := ⟨rfl, Int.natCast_nonneg _, ⟨rfl, rfl⟩, List.Perm.refl _⟩

theorem inv_of_busy (hb : Busy before d s) (hbooks : Books d.held d.awaited s) : s.Inv where
  shape := Or.inr ⟨before, d, hb⟩
  books := by
    rw [inFlight, awaited, hb.flatMap held_settled, hb.flatMap awaited_settled]
    exact hbooks

theorem Inv.booksOf (h : s.Inv) (hb : Busy before d s) : Books d.held d.awaited s := by
  have hbooks := h.books
  rw [inFlight, awaited, hb.flatMap held_settled, hb.flatMap awaited_settled] at hbooks
  exact hbooks

/-- The drain that runs goes to a stage that fits the books. -/
theorem inv_setStage (hb : Busy before d s) (d' : FlushDrain) (stage : FlushStage)
    (hruns : stage ≠ .settled)
    (hbooks : Books { d' with stage := stage }.held { d' with stage := stage }.awaited s) :
    (s.setStage before.length d' stage).Inv :=
  inv_of_busy (hb.advance hruns) (hbooks.frame _ _ _ _ _ _)

theorem inv_drainEnd (hb : Busy before d s) (d' : FlushDrain) (hbooks : Books [] [] s) :
    (s.drainEnd before.length d').Inv := by
  unfold drainEnd
  split
  · exact inv_setStage hb d' .left (by simp) hbooks
  · split
    · exact inv_setStage (s := s.clear) hb d' .left (by simp) hbooks.clear
    · cases s.context with
      | none =>
        exact inv_setStage (s := s.resetContext (some before.length)) hb d' .resetting (by simp)
          (hbooks.resetContext _)
      | some context => exact inv_setStage hb d' .left (by simp) hbooks

/-- The loop keeps the invariant from where the books are even. -/
theorem inv_drainLoop (hb : Busy before d s) (d' : FlushDrain) (hbooks : Books [] [] s) :
    (s.drainLoop o before.length d').Inv := by
  unfold drainLoop
  cases s.context with
  | none => exact inv_drainEnd hb d' hbooks
  | some context =>
    dsimp only
    split
    · exact inv_drainEnd hb d' hbooks
    · split
      · exact inv_drainEnd (s := s.clear) hb d' hbooks.clear
      · -- the context is read, and not changed
        have htaken := (hbooks.take (s.batchCount o context)).frame s.failed (some context)
          s.generation s.flushing s.drains s.resets
        exact inv_setStage
          (s := { s with queue := s.queue.drop (s.batchCount o context), context := some context })
          hb d' (.sending (s.queue.take (s.batchCount o context))) (by simp) htaken

namespace Inv

theorem flush (h : s.Inv) : (s.flush o).Inv := by
  unfold CountedQueue.flush
  cases hflushing : s.flushing with
  | some drain => exact h
  | none =>
    have hidle := h.shape.idle_of_cell hflushing
    have hbooks : Books [] [] s := by
      have hbooks := h.books
      rw [inFlight, awaited, hidle.flatMap held_settled, hidle.flatMap awaited_settled] at hbooks
      exact hbooks
    have hb : Busy s.drains ⟨s.generation, false, .left⟩
        { s with
          flushing := some s.drains.length
          drains := s.drains ++ [⟨s.generation, false, .left⟩] } := hidle.start (by simp)
    exact inv_drainLoop hb _ (hbooks.frame _ _ _ _ _ _)

/-- The `finally` of a batch, once its entries are counted. -/
theorem finishBatch {batch : List QueueEntry} (hb : Busy before d s) (hbooks : Books batch [] s)
    (d' : FlushDrain) : (s.finishBatch o before.length d' batch).Inv :=
  inv_drainLoop (s := { s with queuedBytes := s.queuedBytes - size batch }) hb d' hbooks.finish

theorem countAnswer_books {batch : List QueueEntry} (hbooks : Books batch batch s)
    (d' : FlushDrain) (status : Nat) : Books batch [] (s.countAnswer d' batch status) := by
  unfold countAnswer
  split
  · exact hbooks.drop
  · split
    · exact (hbooks.clear.frame _ _ _ _ _ _).drop
    · split
      · exact hbooks.export_
      · exact (hbooks.frame _ _ _ _ _ _).drop

theorem countAnswer_frame (s : CountedQueue) (d' : FlushDrain) (batch : List QueueEntry)
    (status : Nat) : (s.countAnswer d' batch status).drains = s.drains ∧
      (s.countAnswer d' batch status).flushing = s.flushing := by
  unfold countAnswer
  split
  · exact ⟨rfl, rfl⟩
  · split
    · exact ⟨rfl, rfl⟩
    · split <;> exact ⟨rfl, rfl⟩

theorem wake (h : s.Inv) (drain : Option Nat) : (s.wake drain).Inv := by
  unfold CountedQueue.wake
  cases drain with
  | none => exact h
  | some drain =>
    dsimp only
    split
    · rename_i generation timedOut hd
      have ⟨before, hb, heq⟩ := h.shape.busy_of_getElem? hd (by simp)
      have hbooks : Books [] [] s := h.booksOf hb
      rw [heq]
      exact inv_setStage hb _ .left (by simp) hbooks
    · exact h

/-- What changes nothing of the drains keeps the invariant with the books. -/
theorem of_books {t : CountedQueue} (h : s.Inv) (hdrains : t.drains = s.drains)
    (hflushing : t.flushing = s.flushing) (hbooks : Books s.inFlight s.awaited t) : t.Inv where
  shape := by
    unfold Shape
    rw [hdrains, hflushing]
    exact h.shape
  books := by
    rw [inFlight, awaited, hdrains]
    exact hbooks

theorem enqueue (h : s.Inv) (input : Json) : (s.enqueue o sanitizerDrops input).Inv := by
  have hrefused := h.books.refuse (sanitizerDrops input)
  unfold CountedQueue.enqueue
  cases s.context with
  | none => exact h.of_books rfl rfl (h.books.refuse 1)
  | some context =>
    dsimp only
    split
    · exact h.of_books rfl rfl hrefused
    · split
      · exact h.of_books rfl rfl (hrefused.refuse 1)
      · rename_i hroom
        simp only [Bool.or_eq_true, decide_eq_true_eq, not_or] at hroom
        refine h.of_books rfl rfl (hrefused.push ⟨_, _, context⟩ ?_)
        show s.queuedBytes + ((o.sanitizeFaroBatch input).toJson.byteLength : Int) ≤
          BROWSER_LIMITS.bufferedBytes
        omega

theorem frame (h : s.Inv) (failed : Nat) (context : Option String) (resets : List PendingReset) :
    Inv { s with failed := failed, context := context, resets := resets } :=
  ⟨h.shape, h.books.frame _ _ _ _ _ _⟩

theorem contextAnswer (h : s.Inv) (reset : Nat) (r : PendingReset) (ok : Bool)
    (context : Option String) : (s.contextAnswer reset r ok context).Inv := by
  have herased := h.frame s.failed s.context (s.resets.eraseIdx reset)
  unfold CountedQueue.contextAnswer
  cases context with
  | none => exact herased.wake _
  | some c =>
    dsimp only
    split
    · exact (h.frame s.failed (some c) (s.resets.eraseIdx reset)).wake _
    · exact herased.wake _

theorem contextFailure (h : s.Inv) (reset : Nat) (r : PendingReset) :
    (s.contextFailure reset r).Inv :=
  (h.frame (s.failed + 1) s.context (s.resets.eraseIdx reset)).wake _

theorem answer {drain : Nat} {batch : List QueueEntry} (h : s.Inv)
    (hd : s.drains[drain]? = some d) (hstage : d.stage = .sending batch) (status : Nat) :
    ((s.countAnswer d batch status).setStage drain d (.releasing batch)).Inv := by
  have ⟨before, hb, heq⟩ := h.shape.busy_of_getElem? hd (by simp [hstage])
  have hbooks := h.booksOf hb
  rw [FlushDrain.held, FlushDrain.awaited, hstage] at hbooks
  have ⟨hdrains, hflushing⟩ := countAnswer_frame s d batch status
  have hb' : Busy before d (s.countAnswer d batch status) := by
    unfold Busy
    rw [hdrains, hflushing]
    exact hb
  rw [heq]
  exact inv_setStage hb' d (.releasing batch) (by simp) (countAnswer_books hbooks d status)

theorem failure {drain : Nat} {batch : List QueueEntry} (h : s.Inv)
    (hd : s.drains[drain]? = some d) (hstage : d.stage = .sending batch) :
    ((s.fail.drop batch).finishBatch o drain d batch).Inv := by
  have ⟨before, hb, heq⟩ := h.shape.busy_of_getElem? hd (by simp [hstage])
  have hbooks := h.booksOf hb
  rw [FlushDrain.held, FlushDrain.awaited, hstage] at hbooks
  rw [heq]
  exact finishBatch (s := s.fail.drop batch) hb (hbooks.frame _ _ _ _ _ _).drop d

theorem released {drain : Nat} {batch : List QueueEntry} (h : s.Inv)
    (hd : s.drains[drain]? = some d) (hstage : d.stage = .releasing batch) :
    (s.finishBatch o drain d batch).Inv := by
  have ⟨before, hb, heq⟩ := h.shape.busy_of_getElem? hd (by simp [hstage])
  have hbooks := h.booksOf hb
  rw [FlushDrain.held, FlushDrain.awaited, hstage] at hbooks
  rw [heq]
  exact finishBatch hb hbooks d

theorem settle {drain : Nat} (h : s.Inv) (hd : s.drains[drain]? = some d)
    (hstage : d.stage = .left) : Inv { s.setStage drain d .settled with flushing := none } := by
  have ⟨before, hb, heq⟩ := h.shape.busy_of_getElem? hd (by simp [hstage])
  have hbooks := h.booksOf hb
  rw [FlushDrain.held, FlushDrain.awaited, hstage] at hbooks
  rw [heq]
  have hidle := hb.settle { d with stage := .settled } rfl
  exact {
    shape := Or.inl hidle
    books := by
      rw [inFlight, awaited]
      show Books ((s.drains.set before.length { d with stage := .settled }).flatMap _)
        ((s.drains.set before.length { d with stage := .settled }).flatMap _) _
      rw [hidle.flatMap held_settled, hidle.flatMap awaited_settled]
      exact hbooks.frame _ _ _ _ _ _ }

theorem timeout {drain : Nat} (h : s.Inv) (hd : s.drains[drain]? = some d)
    (hruns : d.stage ≠ .settled) :
    Inv { s with drains := s.drains.set drain { d with timedOut := true } } := by
  have ⟨before, hb, heq⟩ := h.shape.busy_of_getElem? hd hruns
  rw [heq]
  exact inv_of_busy (hb.advance hruns) ((h.booksOf hb).frame _ _ _ _ _ _)

/-- A step that cancels no body in vain keeps the invariant. -/
theorem step {t : CountedQueue} {e : QueueEvent} (h : s.Inv) (hreleases : s.Releases e)
    (hstep : s.step o sanitizerDrops e = some t) : t.Inv := by
  cases e with
  | enqueue input =>
    rw [← Option.some.inj hstep]
    exact h.enqueue input
  | drop =>
    rw [← Option.some.inj hstep]
    exact h.of_books rfl rfl (h.books.refuse 1)
  | clear =>
    rw [← Option.some.inj hstep]
    exact h.of_books rfl rfl h.books.clear
  | resetContext =>
    rw [← Option.some.inj hstep]
    exact h.of_books rfl rfl (h.books.resetContext none)
  | flush =>
    rw [← Option.some.inj hstep]
    exact h.flush
  | timeout drain =>
    have ⟨d, hfiltered, heq⟩ := Option.map_eq_some_iff.mp hstep
    have ⟨hd, hruns⟩ := Option.filter_eq_some_iff.mp hfiltered
    have hne : d.stage ≠ .settled := by
      intro hsettled
      simp [hsettled, FlushStage.isSettled] at hruns
    rw [← heq]
    exact h.timeout hd hne
  | contextAnswer reset ok context =>
    have ⟨r, _, heq⟩ := Option.map_eq_some_iff.mp hstep
    rw [← heq]
    exact h.contextAnswer reset r ok context
  | contextFailure reset =>
    have ⟨r, _, heq⟩ := Option.map_eq_some_iff.mp hstep
    rw [← heq]
    exact h.contextFailure reset r
  | answer drain status =>
    have ⟨d, hd, hsome⟩ := Option.bind_eq_some_iff.mp hstep
    split at hsome
    · rename_i batch hstage
      rw [← Option.some.inj hsome]
      exact h.answer hd hstage status
    · exact absurd hsome (by simp)
  | failure drain =>
    have ⟨d, hd, hsome⟩ := Option.bind_eq_some_iff.mp hstep
    split at hsome
    · rename_i batch hstage
      rw [← Option.some.inj hsome]
      exact h.failure hd hstage
    · exact absurd hsome (by simp)
  | released drain succeeds =>
    have ⟨d, hd, hsome⟩ := Option.bind_eq_some_iff.mp hstep
    split at hsome
    · rename_i batch hstage
      cases succeeds with
      | false => exact absurd rfl (hreleases drain)
      | true =>
        rw [← Option.some.inj hsome]
        exact h.released hd hstage
    · exact absurd hsome (by simp)
  | settle drain =>
    have ⟨d, hd, hsome⟩ := Option.bind_eq_some_iff.mp hstep
    split at hsome
    · rename_i hstage
      rw [← Option.some.inj hsome]
      exact h.settle hd hstage
    · exact absurd hsome (by simp)

theorem accounts (h : s.Inv) : Accounts s where
  bytes := h.books.bytes
  bounded := by
    have hbytes := h.books.bytes
    have hqueue := size_nonneg s.queue
    have hheld := size_nonneg s.inFlight
    exact ⟨by omega, h.books.bounded⟩
  tallies := h.books.tallies
  counted n hn := by
    have hcount := h.books.ledger.count_eq n
    rw [List.count_append, List.count_eq_one_of_mem List.nodup_range (List.mem_range.mpr hn)]
      at hcount
    change (s.counted.map Prod.fst).count n + s.present.count n = 1 at hcount
    split
    · rename_i hmem
      have hpos := List.count_pos_iff.mpr hmem
      omega
    · rename_i hmem
      have hzero := List.count_eq_zero.mpr hmem
      omega

end Inv

/-- Where every body is cancelled, the accounts are right in every state of a run. -/
theorem releasing_accounts (o : RelayOptions) (sanitizerDrops : Json → Nat) {s : CountedQueue}
    (h : Reaches (step o sanitizerDrops) Releases start s) : Accounts s :=
  (h.invariant Inv inv_start fun _ _ _ hinv hreleases hstep =>
    hinv.step hreleases hstep).accounts

end Steps

/-! A log that is exported, and the body of whose answer cannot be cancelled. -/

/-- A relay whose sanitizer sees logs that only have a timestamp. -/
def plainRelay : RelayOptions :=
  { BrowserPage.readableRelay with
    sanitizeFaroBatch := fun payload =>
      match payload.get "logs" with
      | some (.array logs) =>
        { FaroBatch.empty with
          logs := logs.map fun _ =>
            ⟨[("message", .string "browser.log"), ("level", .string "info"),
              ("timestamp", .string "2025-01-01T00:00:00.000Z"), ("trace", .object [])], []⟩ }
      | _ => FaroBatch.empty }

def plainLog : Json :=
  .object [("logs", .array [.object [("timestamp", .string "2025-01-01T00:00:00.000Z")]])]

def answeredEvents : List QueueEvent :=
  [.resetContext, .contextAnswer 0 true (some "context"), .enqueue plainLog, .flush, .answer 0 200]

theorem releasing_accounts_answered : ∃ s : CountedQueue, s.exported = 1 ∧ Accounts s := by
  have hrun : (run (step plainRelay fun _ => 0)
      (fun _ e => match e with
        | .released _ _ => false
        | _ => true) start answeredEvents).any (fun s => decide (s.exported = 1)) = true := by
    decide +kernel
  have hreach : ∃ t, Reaches (step plainRelay fun _ => 0) Releases start t ∧ _ = true :=
    exists_reaches_of_run (fun s e hcheck drain heq => by simp [heq] at hcheck) hrun
  have ⟨s, hs, hexported⟩ := hreach
  exact ⟨s, of_decide_eq_true hexported, releasing_accounts plainRelay (fun _ => 0) hs⟩

theorem entry_counted_twice :
    ¬ ∀ s, Reachable (step plainRelay fun _ => 0) start s → Accounts s := by
  intro h
  have hrun : (follow (step plainRelay fun _ => 0) start
      (answeredEvents ++ [.released 0 false])).any (fun s =>
        decide (s.entries = 1) && decide ((s.counted.map Prod.fst).count 0 = 2)) = true := by
    decide +kernel
  have ⟨s, hs, htest⟩ := exists_reaches_of_run (fun _ _ _ => trivial) hrun
  simp only [Bool.and_eq_true, decide_eq_true_eq] at htest
  have ⟨hentries, htwice⟩ := htest
  have honce := (h s hs).counted 0 (by omega)
  rw [htwice] at honce
  split at honce
  · exact absurd honce (by decide)
  · exact absurd honce (by decide)

end CountedQueue

end Wallow.Telemetry
