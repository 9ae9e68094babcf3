import Mathlib
import Wallow.Lib.SingleFlight
import Wallow.Lib.Transition

/-!
# The exporter

`createExporter`: the queue of what is to be exported, the drain that the timer, callers and
`shutdown` share, and the counts.  Each wait is the end of a step.
-/

namespace Wallow.Telemetry

open Transition

def LIMITS.requestBytes : Nat := 1048576
def LIMITS.bufferedBytes : Nat := 8388608

inductive Signal
  | logs | traces | metrics
  deriving DecidableEq

/-- An entry of the queue, with the number of the call that it is from. -/
structure ExportItem where
  call : Nat
  signal : Signal
  body : List UInt8
  deriving DecidableEq

def ExportItem.bytes (item : ExportItem) : Nat := item.body.length

inductive Verdict
  | exported | failed | dropped
  deriving DecidableEq

/-- Where a `drain` is: it waits for its request, or for the body to be cancelled, or is inside
`onExported`; or it has left its loop, and then the `finally` of `flush` has run. -/
inductive DrainStage
  | sending (item : ExportItem)
  | cancelling (item : ExportItem) (ok : Bool)
  | calling (item : ExportItem)
  | left
  | settled
  deriving DecidableEq

/-- A call of `shutdown`, and the drain it waits for. -/
inductive ShutdownStage
  | waiting (drain : Nat)
  | resolved
  deriving DecidableEq

structure Exporter where
  queue : List ExportItem
  queuedBytes : Int
  exported : Nat
  dropped : Nat
  failed : Nat
  stopped : Bool
  exporting : Option Nat
  aborted : Bool
  drains : List DrainStage
  shutdowns : List ShutdownStage
  /-- The calls of `enqueue` so far. -/
  calls : Nat
  /-- The requests so far. -/
  sent : List ExportItem
  /-- The counts, each with the call that was counted. -/
  counted : List (Nat × Verdict)
  deriving DecidableEq

inductive FetchOutcome
  | rejects
  | responds (ok : Bool)
  deriving DecidableEq

inductive ExporterEvent
  /-- The JSON of the payload, unless `stringify` throws. -/
  | enqueue (signal : Signal) (body : Option (List UInt8))
  | flush
  | tick
  | shutdown
  /-- The time of a `shutdown` is over. -/
  | deadline (shutdown : Nat)
  | fetched (drain : Nat) (outcome : FetchOutcome)
  | cancelled (drain : Nat) (succeeds : Bool)
  /-- `onExported` is over. -/
  | called (drain : Nat)
  /-- The `finally` of `flush`. -/
  | settle (drain : Nat)
  /-- A `shutdown` goes on after its drain. -/
  | resume (shutdown : Nat)
  deriving DecidableEq

namespace Exporter

def start : Exporter := ⟨[], 0, 0, 0, 0, false, none, false, [], [], 0, [], []⟩

def count (s : Exporter) (call : Nat) : Verdict → Exporter
  | .exported =>
    { s with exported := s.exported + 1, counted := s.counted ++ [(call, .exported)] }
  | .failed => { s with failed := s.failed + 1, counted := s.counted ++ [(call, .failed)] }
  | .dropped => { s with dropped := s.dropped + 1, counted := s.counted ++ [(call, .dropped)] }

/-- The loop of a drain, up to its next request. -/
def loop (s : Exporter) (drain : Nat) : Exporter :=
  match s.queue with
  | [] => { s with drains := s.drains.set drain .left }
  | item :: rest =>
    if s.aborted then { s with drains := s.drains.set drain .left }
    else
      { s with
        queue := rest
        drains := s.drains.set drain (.sending item)
        sent := s.sent ++ [item] }

/-- The `finally` of a request, and the loop. -/
def release (s : Exporter) (drain : Nat) (item : ExportItem) : Exporter :=
  loop { s with queuedBytes := s.queuedBytes - item.bytes } drain

/-- A new drain, which is the one that is `exporting`. -/
def startDrain (s : Exporter) : Exporter :=
  loop { s with exporting := some s.drains.length, drains := s.drains ++ [.left] } s.drains.length

/-- The drain whose promise is returned comes with the state. -/
def flush (s : Exporter) : Exporter × Nat :=
  match s.exporting with
  | some drain => (s, drain)
  | none => (s.startDrain, s.drains.length)

def enqueue (s : Exporter) (signal : Signal) (body : Option (List UInt8)) : Exporter :=
  let next := { s with calls := s.calls + 1 }
  if s.stopped then next.count s.calls .dropped
  else
    match body with
    | none => next.count s.calls .dropped
    | some body =>
      if LIMITS.requestBytes < body.length ||
          (LIMITS.bufferedBytes : Int) < s.queuedBytes + body.length then
        next.count s.calls .dropped
      else
        { next with
          queue := s.queue ++ [⟨s.calls, signal, body⟩]
          queuedBytes := s.queuedBytes + body.length }

/-- `shutdown` up to the end of its flush. -/
def shutdown (s : Exporter) : Exporter :=
  let (flushed, drain) := flush { s with stopped := true }
  { flushed with shutdowns := flushed.shutdowns ++ [.waiting drain] }

/-- The `finally` of `shutdown`. -/
def resume (s : Exporter) (shutdown : Nat) : Exporter :=
  { s with
    dropped := s.dropped + s.queue.length
    counted := s.counted ++ s.queue.map fun item => (item.call, .dropped)
    queue := []
    queuedBytes := 0
    shutdowns := s.shutdowns.set shutdown .resolved }

def fetched (s : Exporter) (drain : Nat) (item : ExportItem) : FetchOutcome → Exporter
  | .rejects => (s.count item.call .failed).release drain item
  | .responds ok => { s with drains := s.drains.set drain (.cancelling item ok) }

def cancelled (s : Exporter) (drain : Nat) (item : ExportItem) (ok succeeds : Bool) : Exporter :=
  if succeeds && ok then
    let counted := s.count item.call .exported
    { counted with drains := counted.drains.set drain (.calling item) }
  else (s.count item.call .failed).release drain item

def step (s : Exporter) : ExporterEvent → Option Exporter
  | .enqueue signal body => some (s.enqueue signal body)
  | .flush => some s.flush.1
  | .tick => if s.stopped then none else some s.flush.1
  | .shutdown => some s.shutdown
  | .deadline shutdown =>
    match s.shutdowns[shutdown]? with
    | some (.waiting _) => some { s with aborted := true }
    | _ => none
  | .fetched drain outcome =>
    match s.drains[drain]? with
    | some (.sending item) => some (s.fetched drain item outcome)
    | _ => none
  | .cancelled drain succeeds =>
    match s.drains[drain]? with
    | some (.cancelling item ok) => some (s.cancelled drain item ok succeeds)
    | _ => none
  | .called drain =>
    match s.drains[drain]? with
    | some (.calling item) => some (s.release drain item)
    | _ => none
  | .settle drain =>
    match s.drains[drain]? with
    | some .left => some { s with drains := s.drains.set drain .settled, exporting := none }
    | _ => none
  | .resume shutdown =>
    match s.shutdowns[shutdown]? with
    | some (.waiting drain) =>
      if s.drains[drain]? = some .settled then some (s.resume shutdown) else none
    | _ => none

end Exporter

/-! ## What the accounts should show -/

/-- The item whose bytes a drain holds. -/
def DrainStage.held : DrainStage → List ExportItem
  | sending item => [item]
  | cancelling item _ => [item]
  | calling item => [item]
  | _ => []

/-- The item a drain has still to count. -/
def DrainStage.uncounted : DrainStage → List ExportItem
  | sending item => [item]
  | cancelling item _ => [item]
  | _ => []

def size (items : List ExportItem) : Int := (items.map fun item => (item.bytes : Int)).sum

namespace Exporter

def inFlight (s : Exporter) : List ExportItem := s.drains.flatMap DrainStage.held

def uncounted (s : Exporter) : List ExportItem := s.drains.flatMap DrainStage.uncounted

def isShutDown (s : Exporter) : Prop := .resolved ∈ s.shutdowns

def tally (s : Exporter) (v : Verdict) : Nat := s.counted.countP fun c => c.2 = v

/-- Each call is counted, and once. -/
def CountsEach (s : Exporter) : Prop :=
  ∀ call < s.calls, (s.counted.map Prod.fst).count call = 1

structure Accounts (s : Exporter) : Prop where
  single : s.inFlight.length ≤ 1
  bytes : s.queuedBytes = size s.queue + size s.inFlight
  bounded : s.queuedBytes ≤ LIMITS.bufferedBytes
  /-- The requests are in the order of the calls, no two for one call. -/
  ordered : (s.sent.map ExportItem.call).Pairwise (· < ·)
  tallies : s.exported = s.tally .exported ∧ s.failed = s.tally .failed ∧
    s.dropped = s.tally .dropped
  counted : s.isShutDown → s.CountsEach

/-! ## The drain that runs -/

/-- The drain that is `exporting`, behind those that are over. -/
abbrev Busy (before : List DrainStage) (stage : DrainStage) (s : Exporter) : Prop :=
  SingleFlight.Busy (· = .settled) before stage s.drains s.exporting

abbrev Idle (s : Exporter) : Prop := SingleFlight.Idle (· = .settled) s.drains s.exporting

abbrev Shape (s : Exporter) : Prop := SingleFlight.Shape (· = .settled) s.drains s.exporting

variable {s : Exporter} {before : List DrainStage} {stage : DrainStage}

theorem held_settled (d : DrainStage) (h : d = .settled) : d.held = [] := h ▸ rfl

theorem uncounted_settled (d : DrainStage) (h : d = .settled) : d.uncounted = [] := h ▸ rfl

theorem inFlight_of_idle (h : s.Idle) : s.inFlight = [] := h.flatMap held_settled

theorem uncounted_of_idle (h : s.Idle) : s.uncounted = [] := h.flatMap uncounted_settled

theorem inFlight_of_busy (h : Busy before stage s) : s.inFlight = stage.held :=
  h.flatMap held_settled

theorem uncounted_of_busy (h : Busy before stage s) : s.uncounted = stage.uncounted :=
  h.flatMap uncounted_settled

/-! ## The books -/

@[simp] theorem count_counted (call : Nat) (v : Verdict) :
    (s.count call v).counted = s.counted ++ [(call, v)] := by
  cases v <;> rfl

@[simp] theorem count_queue (call : Nat) (v : Verdict) : (s.count call v).queue = s.queue := by
  cases v <;> rfl

@[simp] theorem count_sent (call : Nat) (v : Verdict) : (s.count call v).sent = s.sent := by
  cases v <;> rfl

@[simp] theorem count_calls (call : Nat) (v : Verdict) : (s.count call v).calls = s.calls := by
  cases v <;> rfl

@[simp] theorem count_queuedBytes (call : Nat) (v : Verdict) :
    (s.count call v).queuedBytes = s.queuedBytes := by
  cases v <;> rfl

@[simp] theorem count_drains (call : Nat) (v : Verdict) : (s.count call v).drains = s.drains := by
  cases v <;> rfl

@[simp] theorem count_exporting (call : Nat) (v : Verdict) :
    (s.count call v).exporting = s.exporting := by
  cases v <;> rfl

@[simp] theorem count_shutdowns (call : Nat) (v : Verdict) :
    (s.count call v).shutdowns = s.shutdowns := by
  cases v <;> rfl

@[simp] theorem count_stopped (call : Nat) (v : Verdict) :
    (s.count call v).stopped = s.stopped := by
  cases v <;> rfl

/-- The accounts, with the items that a drain holds and that are not counted yet. -/
structure Books (held uncounted : List ExportItem) (s : Exporter) : Prop where
  bytes : s.queuedBytes = size s.queue + size held
  bounded : s.queuedBytes ≤ LIMITS.bufferedBytes
  ordered : ((s.sent ++ s.queue).map ExportItem.call).Pairwise (· < ·)
  fresh : ∀ item ∈ s.sent ++ s.queue, item.call < s.calls
  tallies : s.exported = s.tally .exported ∧ s.failed = s.tally .failed ∧
    s.dropped = s.tally .dropped
  ledger : (s.counted.map Prod.fst ++ (uncounted ++ s.queue).map ExportItem.call).Perm
    (List.range s.calls)

theorem size_append (xs ys : List ExportItem) : size (xs ++ ys) = size xs + size ys := by
  simp [size]

namespace Books

variable {held uncounted : List ExportItem} {item : ExportItem}

theorem tallies_count (h : s.exported = s.tally .exported ∧ s.failed = s.tally .failed ∧
      s.dropped = s.tally .dropped) (call : Nat) (v : Verdict) :
    (s.count call v).exported = (s.count call v).tally .exported ∧
      (s.count call v).failed = (s.count call v).tally .failed ∧
      (s.count call v).dropped = (s.count call v).tally .dropped := by
  have ⟨hexported, hfailed, hdropped⟩ := h
  cases v <;>
    simp [Exporter.count, tally, List.countP_append] at * <;>
    omega

/-- The books do not read these. -/
theorem frame (h : Books held uncounted s) (drains : List DrainStage) (exporting : Option Nat)
    (shutdowns : List ShutdownStage) (stopped aborted : Bool) :
    Books held uncounted
      { s with
        drains := drains
        exporting := exporting
        shutdowns := shutdowns
        stopped := stopped
        aborted := aborted } :=
  ⟨h.bytes, h.bounded, h.ordered, h.fresh, h.tallies, h.ledger⟩

/-- The item that is counted is not uncounted any more. -/
theorem count (h : Books held (item :: uncounted) s) (v : Verdict) :
    Books held uncounted (s.count item.call v) where
  bytes := by simpa using h.bytes
  bounded := by simpa using h.bounded
  ordered := by simpa using h.ordered
  fresh := by simpa using h.fresh
  tallies := tallies_count h.tallies _ _
  ledger := by
    have hledger := h.ledger
    simp only [count_counted, count_queue, count_calls, List.map_append, List.map_cons,
      List.map_nil, List.append_assoc, List.cons_append, List.nil_append] at hledger ⊢
    exact hledger

theorem release (h : Books [item] [] s) :
    Books [] [] { s with queuedBytes := s.queuedBytes - item.bytes } := by
  have hbytes := h.bytes
  have hitem : size [item] = item.bytes := by simp [size]
  have hnil : size [] = 0 := rfl
  exact {
    bytes := by
      show s.queuedBytes - item.bytes = size s.queue + size []
      omega
    bounded := by
      have hbounded := h.bounded
      show s.queuedBytes - item.bytes ≤ LIMITS.bufferedBytes
      omega
    ordered := h.ordered
    fresh := h.fresh
    tallies := h.tallies
    ledger := h.ledger }

theorem send {rest : List ExportItem} {drains : List DrainStage} (h : Books [] [] s)
    (hqueue : s.queue = item :: rest) :
    Books [item] [item]
      { s with queue := rest, drains := drains, sent := s.sent ++ [item] } := by
  have hmoved : (s.sent ++ [item]) ++ rest = s.sent ++ s.queue := by
    rw [hqueue, List.append_assoc]
    rfl
  exact {
    bytes := by
      have hbytes := h.bytes
      rw [hqueue, show item :: rest = [item] ++ rest from rfl, size_append] at hbytes
      have hnil : size [] = 0 := rfl
      show s.queuedBytes = size rest + size [item]
      omega
    bounded := h.bounded
    ordered := by
      show (((s.sent ++ [item]) ++ rest).map ExportItem.call).Pairwise (· < ·)
      rw [hmoved]
      exact h.ordered
    fresh := by
      show ∀ other ∈ (s.sent ++ [item]) ++ rest, other.call < s.calls
      rw [hmoved]
      exact h.fresh
    tallies := h.tallies
    ledger := by
      have hledger := h.ledger
      rw [hqueue] at hledger
      exact hledger }

/-- A call that is counted at once. -/
theorem drop (h : Books held uncounted s) :
    Books held uncounted ({ s with calls := s.calls + 1 }.count s.calls .dropped) where
  bytes := h.bytes
  bounded := h.bounded
  ordered := h.ordered
  fresh item hitem := Nat.lt_succ_of_lt (h.fresh item hitem)
  tallies := tallies_count (s := { s with calls := s.calls + 1 }) h.tallies _ _
  ledger := by
    have hledger := h.ledger.append_right [s.calls]
    rw [← List.range_succ] at hledger
    refine List.Perm.trans ?_ hledger
    show ((s.counted ++ [(s.calls, Verdict.dropped)]).map Prod.fst ++
      (uncounted ++ s.queue).map ExportItem.call).Perm _
    rw [List.map_append, List.append_assoc, List.append_assoc]
    exact List.Perm.append_left _ List.perm_append_comm

/-- A call whose item is queued. -/
theorem push (h : Books held uncounted s) (hcall : item.call = s.calls)
    (hroom : s.queuedBytes + item.bytes ≤ LIMITS.bufferedBytes) :
    Books held uncounted
      { s with
        calls := s.calls + 1
        queue := s.queue ++ [item]
        queuedBytes := s.queuedBytes + item.bytes } where
  bytes := by
    have hbytes := h.bytes
    have hitem : size [item] = item.bytes := by simp [size]
    show s.queuedBytes + item.bytes = size (s.queue ++ [item]) + size held
    rw [size_append]
    omega
  bounded := hroom
  ordered := by
    show ((s.sent ++ (s.queue ++ [item])).map ExportItem.call).Pairwise (· < ·)
    rw [← List.append_assoc, List.map_append]
    apply List.pairwise_append.mpr
    refine ⟨h.ordered, List.pairwise_singleton _ _, fun call hmem last hlast => ?_⟩
    have ⟨other, hother, heq⟩ := List.mem_map.mp hmem
    rw [List.map_singleton] at hlast
    rw [List.mem_singleton.mp hlast, hcall, ← heq]
    exact h.fresh other hother
  fresh := by
    show ∀ other ∈ s.sent ++ (s.queue ++ [item]), other.call < s.calls + 1
    intro other hother
    rw [← List.append_assoc] at hother
    cases List.mem_append.mp hother with
    | inl hold => exact Nat.lt_succ_of_lt (h.fresh other hold)
    | inr hnew =>
      rw [List.mem_singleton.mp hnew, hcall]
      exact Nat.lt_succ_self _
  tallies := h.tallies
  ledger := by
    have hledger := h.ledger.append_right [s.calls]
    rw [← List.range_succ] at hledger
    refine List.Perm.trans ?_ hledger
    show (s.counted.map Prod.fst ++
      (uncounted ++ (s.queue ++ [item])).map ExportItem.call).Perm _
    rw [← List.append_assoc, List.map_append, List.map_singleton, hcall, List.append_assoc]

theorem enqueue (h : Books held uncounted s) (signal : Signal) (body : Option (List UInt8)) :
    Books held uncounted (s.enqueue signal body) := by
  unfold Exporter.enqueue
  dsimp only
  split
  · exact h.drop
  · cases body with
    | none => exact h.drop
    | some body =>
      dsimp only
      split
      · exact h.drop
      · rename_i hroom
        apply h.push (show (⟨s.calls, signal, body⟩ : ExportItem).call = s.calls from rfl)
        show s.queuedBytes + body.length ≤ LIMITS.bufferedBytes
        simp only [Bool.or_eq_true, decide_eq_true_eq, not_or] at hroom
        omega

/-- What is still queued is counted as dropped. -/
theorem resume (h : Books [] [] s) (shutdown : Nat) : Books [] [] (s.resume shutdown) where
  bytes := rfl
  bounded := Int.natCast_nonneg _
  ordered := by
    have hordered := h.ordered
    rw [List.map_append] at hordered
    show ((s.sent ++ []).map ExportItem.call).Pairwise (· < ·)
    rw [List.append_nil]
    exact (List.pairwise_append.mp hordered).1
  fresh := by
    show ∀ item ∈ s.sent ++ [], item.call < s.calls
    intro item hitem
    rw [List.append_nil] at hitem
    exact h.fresh item (List.mem_append_left _ hitem)
  tallies := by
    have ⟨hexported, hfailed, hdropped⟩ := h.tallies
    simp only [tally, Exporter.resume, List.countP_append, List.countP_map] at *
    refine ⟨?_, ?_, ?_⟩
    · rw [hexported]
      simp [Function.comp_def]
    · rw [hfailed]
      simp [Function.comp_def]
    · rw [hdropped]
      simp [Function.comp_def]
  ledger := by
    have hledger := h.ledger
    show ((s.counted ++ s.queue.map fun item => (item.call, Verdict.dropped)).map Prod.fst ++
      ([] ++ []).map ExportItem.call).Perm (List.range s.calls)
    rw [List.map_append, List.map_map, List.append_nil, List.map_nil, List.append_nil]
    exact hledger

theorem accounts (h : Books held uncounted s) (hheld : held = s.inFlight)
    (hsingle : held.length ≤ 1)
    (hdone : s.isShutDown → uncounted = [] ∧ s.queue = []) : Accounts s where
  single := hheld ▸ hsingle
  bytes := hheld ▸ h.bytes
  bounded := h.bounded
  ordered := by
    have hordered := h.ordered
    rw [List.map_append] at hordered
    exact (List.pairwise_append.mp hordered).1
  tallies := h.tallies
  counted hshut call hcall := by
    have ⟨huncounted, hqueue⟩ := hdone hshut
    have hledger := h.ledger
    rw [huncounted, hqueue, List.append_nil, List.map_nil, List.append_nil] at hledger
    rw [hledger.count_eq]
    exact List.count_eq_one_of_mem List.nodup_range (List.mem_range.mpr hcall)

end Books

end Exporter

end Wallow.Telemetry
