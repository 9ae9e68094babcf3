import Wallow.Lib.Transition
import Mathlib.Data.List.Perm.Basic

/-!
# The loop of a server-sent event stream

`HandleSseConnection` of `SseEndpoint.cs` from its heartbeat timer on, with the bounded channel of
`SseConnectionManager.AddConnection` in front of it.  Each turn races a read of the channel against
a tick of the timer; a `PeriodicTimer` admits one wait at a time, and the turn that the read wins
leaves its wait standing.
-/

namespace Wallow.Api.Sse

open Transition

def CHANNEL_CAPACITY : Nat := 100

/-- What is written to the response body. -/
inductive Frame (α : Type*)
  | data (envelope : α)
  | heartbeat
  deriving DecidableEq

/-- The text of a frame; `serialize` is `JsonSerializer.Serialize`. -/
def Frame.text {α : Type*} (serialize : α → String) : Frame α → String
  | .data envelope => "data: " ++ (serialize envelope ++ "\n\n")
  | .heartbeat => ": heartbeat\n\n"

def Frame.envelope? {α : Type*} : Frame α → Option α
  | .data envelope => some envelope
  | .heartbeat => none

/-- Why a stream has ended. -/
inductive End
  | cancelled
  /-- `WaitForNextTickAsync` while an earlier wait stands: not caught. -/
  | invalidOperation
  deriving DecidableEq

inductive Phase (α : Type*)
  /-- The condition of the `while`, and the start of the two tasks. -/
  | head
  /-- `Task.WhenAny`, neither task complete. -/
  | waiting
  /-- `TryRead` is next. -/
  | draining
  | writing (envelope : α)
  | beating
  /-- `unwritten` is the envelope whose write was cancelled. -/
  | closed (why : End) (unwritten : Option α)
  deriving DecidableEq

/-- The channel, the timer and the loop; `enqueued` and `dropped` are what the channel was given and
what it let go. -/
structure Stream (α : Type*) where
  queue : List α
  /-- A wait of the timer stands. -/
  activeWait : Bool
  /-- A tick has found no wait. -/
  signaled : Bool
  cancelled : Bool
  phase : Phase α
  body : List (Frame α)
  enqueued : List α
  dropped : List α

inductive Move (α : Type*)
  | enqueue (envelope : α)
  | tick
  | cancel
  /-- The loop goes on. -/
  | run

namespace Stream

variable {α : Type*}

def initial : Stream α := ⟨[], false, false, false, .head, [], [], []⟩

/-- The envelopes written, in order. -/
def written (s : Stream α) : List α :=
  s.body.filterMap (·.envelope?)

/-- The envelope taken from the channel and not written. -/
def inHand (s : Stream α) : List α :=
  match s.phase with
  | .writing envelope => [envelope]
  | .closed _ (some envelope) => [envelope]
  | _ => []

def isClosed (s : Stream α) : Bool :=
  match s.phase with
  | .closed _ _ => true
  | _ => false

/-- `TryWrite` on a full channel drops the oldest item (`DropOldest`); a pending read completes. -/
def enqueue (s : Stream α) (envelope : α) : Stream α :=
  let full := CHANNEL_CAPACITY ≤ s.queue.length
  { s with
    queue := (if full then s.queue.tail else s.queue) ++ [envelope]
    dropped := if full then s.dropped ++ s.queue.head?.toList else s.dropped
    enqueued := s.enqueued ++ [envelope]
    phase := match s.phase with
      | .waiting => .draining
      | phase => phase }

/-- The timer fires: the standing wait completes, or the next one will at once. -/
def tick (s : Stream α) : Stream α :=
  if s.activeWait then
    { s with
      activeWait := false
      phase := match s.phase with
        | .waiting => .beating
        | phase => phase }
  else { s with signaled := true }

/-- Both tasks of a waiting loop are cancelled. -/
def cancel (s : Stream α) : Stream α :=
  { s with
    cancelled := true
    phase := match s.phase with
      | .waiting => .closed .cancelled none
      | phase => phase }

/-- The head of the loop: the read and the timer wait are started, and the first one complete, the
read before the wait, decides. -/
def turn (s : Stream α) : Stream α :=
  if s.cancelled then { s with phase := .closed .cancelled none }
  -- the wait of an earlier turn stands: `WaitForNextTickAsync` throws
  else if s.activeWait then { s with phase := .closed .invalidOperation none }
  else if s.signaled then
    -- the tick is taken up at once; a readable channel still wins the race, and the tick is lost
    { s with signaled := false, phase := if s.queue.isEmpty then .beating else .draining }
  else { s with activeWait := true, phase := if s.queue.isEmpty then .waiting else .draining }

def advance (s : Stream α) : Option (Stream α) :=
  match s.phase with
  | .head => some s.turn
  | .waiting => none
  | .draining =>
    match s.queue with
    -- `TryRead` fails: the turn is over, its wait may stand
    | [] => some { s with phase := .head }
    | envelope :: rest => some { s with queue := rest, phase := .writing envelope }
  | .writing envelope =>
    -- the envelope is out of the channel and is written nowhere
    if s.cancelled then some { s with phase := .closed .cancelled (some envelope) }
    else some { s with body := s.body ++ [.data envelope], phase := .draining }
  | .beating =>
    if s.cancelled then some { s with phase := .closed .cancelled none }
    else some { s with body := s.body ++ [.heartbeat], phase := .head }
  | .closed _ _ => none

def step (s : Stream α) : Move α → Option (Stream α)
  | .enqueue envelope => if s.isClosed then none else some (s.enqueue envelope)
  | .tick => if s.isClosed then none else some s.tick
  | .cancel => if s.isClosed then none else some s.cancel
  | .run => s.advance

/-- The channel has room for the envelope. -/
def hasRoom (s : Stream α) : Move α → Bool
  | .enqueue _ => decide (s.queue.length < CHANNEL_CAPACITY)
  | _ => true

/-! ## What is written -/

/-- Written, in hand and waiting are the enqueued envelopes in their order, less the dropped ones;
a loop that waits has written them all. -/
structure Delivers (s : Stream α) : Prop where
  order : (s.written ++ s.inHand ++ s.queue).Sublist s.enqueued
  once : (s.dropped ++ (s.written ++ s.inHand ++ s.queue)).Perm s.enqueued
  idle : s.phase = .waiting → s.inHand = [] ∧ s.queue = []

variable {s s' : Stream α}

theorem initial_delivers : (initial : Stream α).Delivers where
  order := List.Sublist.refl _
  once := List.Perm.refl _
  idle h := by cases h

/-- The channel and what was taken from it stay together. -/
theorem Delivers.same (h : s.Delivers) (hkept : s'.written ++ s'.inHand ++ s'.queue =
      s.written ++ s.inHand ++ s.queue)
    (henqueued : s'.enqueued = s.enqueued) (hdropped : s'.dropped = s.dropped)
    (hidle : s'.phase = .waiting → s'.inHand = [] ∧ s'.queue = []) : s'.Delivers where
  order := by
    rw [hkept, henqueued]
    exact h.order
  once := by
    rw [hkept, henqueued, hdropped]
    exact h.once
  idle := hidle

theorem inHand_enqueue (s : Stream α) (envelope : α) : (s.enqueue envelope).inHand = s.inHand := by
  unfold inHand enqueue
  cases s.phase with
  | waiting => rfl
  | _ => rfl

/-- An envelope is appended, and the oldest waiting one makes way when there is no room. -/
theorem Delivers.enqueue (h : s.Delivers) (envelope : α) : (s.enqueue envelope).Delivers := by
  have hwritten : (s.enqueue envelope).written = s.written := rfl
  have hidle : (s.enqueue envelope).phase ≠ .waiting := by
    unfold Stream.enqueue
    cases hphase : s.phase with
    | waiting => simp
    | _ => simp
  -- whatever is kept of the channel, the new envelope comes after it
  have horder : ∀ kept, (s.written ++ s.inHand ++ kept).Sublist s.enqueued →
      (s.written ++ s.inHand ++ (kept ++ [envelope])).Sublist (s.enqueued ++ [envelope]) := by
    intro kept hkept
    rw [← List.append_assoc]
    exact hkept.append (List.Sublist.refl _)
  by_cases hfull : CHANNEL_CAPACITY ≤ s.queue.length
  · have hqueue : (s.enqueue envelope).queue = s.queue.tail ++ [envelope] := by
      simp only [Stream.enqueue, hfull, if_true]
    have hdropped : (s.enqueue envelope).dropped = s.dropped ++ s.queue.head?.toList := by
      simp only [Stream.enqueue, hfull, if_true]
    obtain ⟨oldest, rest, hcons⟩ : ∃ oldest rest, s.queue = oldest :: rest :=
      List.exists_cons_of_length_pos (Nat.lt_of_lt_of_le (by decide) hfull)
    refine ⟨?_, ?_, fun hw => absurd hw hidle⟩
    · rw [hwritten, inHand_enqueue, hqueue]
      apply horder
      have hsub : s.queue.tail.Sublist s.queue := List.tail_sublist _
      exact ((List.Sublist.refl _).append hsub).trans h.order
    · rw [hwritten, inHand_enqueue, hqueue, hdropped, hcons]
      have hold := h.once
      rw [hcons] at hold
      -- the dropped envelope moves to the front of what was kept
      have hmoved : (s.dropped ++ [oldest] ++ (s.written ++ s.inHand ++ rest)).Perm
          (s.dropped ++ (s.written ++ s.inHand ++ oldest :: rest)) := by
        rw [List.append_assoc, List.singleton_append]
        exact List.Perm.append_left _ List.perm_middle.symm
      have hall := (hmoved.trans hold).append_right [envelope]
      show List.Perm _ (s.enqueued ++ [envelope])
      simpa only [List.tail_cons, List.head?_cons, Option.toList_some, List.append_assoc] using hall
  · have hqueue : (s.enqueue envelope).queue = s.queue ++ [envelope] := by
      simp only [Stream.enqueue, hfull, if_false]
    have hdropped : (s.enqueue envelope).dropped = s.dropped := by
      simp only [Stream.enqueue, hfull, if_false]
    refine ⟨?_, ?_, fun hw => absurd hw hidle⟩
    · rw [hwritten, inHand_enqueue, hqueue]
      exact horder _ h.order
    · rw [hwritten, inHand_enqueue, hqueue, hdropped]
      have hall := h.once.append_right [envelope]
      show List.Perm _ (s.enqueued ++ [envelope])
      simpa only [List.append_assoc] using hall

theorem Delivers.tick (h : s.Delivers) : s.tick.Delivers := by
  unfold Stream.tick
  split
  · apply h.same
    · cases hphase : s.phase with
      | waiting => simp only [inHand, hphase, written]
      | _ => simp only [inHand, hphase, written]
    · rfl
    · rfl
    · cases hphase : s.phase with
      | waiting => simp
      | _ => simp
  · exact ⟨h.order, h.once, h.idle⟩

theorem Delivers.cancel (h : s.Delivers) : s.cancel.Delivers := by
  unfold Stream.cancel
  apply h.same
  · cases hphase : s.phase with
    | waiting => simp only [inHand, hphase, written]
    | _ => simp only [inHand, hphase, written]
  · rfl
  · rfl
  · cases hphase : s.phase with
    | waiting => simp
    | _ => simp

theorem Delivers.turn (h : s.Delivers) (hphase : s.phase = .head) : s.turn.Delivers := by
  have hnone : s.inHand = [] := by rw [inHand, hphase]
  unfold Stream.turn
  split
  · exact h.same (by rw [hnone]; rfl) rfl rfl (fun hw => by cases hw)
  · split
    · exact h.same (by rw [hnone]; rfl) rfl rfl (fun hw => by cases hw)
    · split
      · apply h.same
        · rw [hnone]
          cases s.queue.isEmpty <;> rfl
        · rfl
        · rfl
        · cases s.queue.isEmpty <;> simp
      · -- the loop only waits on an empty channel
        apply h.same
        · rw [hnone]
          cases s.queue.isEmpty <;> rfl
        · rfl
        · rfl
        · cases hempty : s.queue.isEmpty with
          | true =>
            intro _
            exact ⟨rfl, List.isEmpty_iff.mp hempty⟩
          | false => simp

theorem Delivers.advance (h : s.Delivers) (hs : s.advance = some s') : s'.Delivers := by
  unfold Stream.advance at hs
  cases hphase : s.phase with
  | head =>
    rw [hphase] at hs
    cases hs
    exact h.turn hphase
  | waiting =>
    rw [hphase] at hs
    cases hs
  | draining =>
    have hnone : s.inHand = [] := by rw [inHand, hphase]
    rw [hphase] at hs
    cases hqueue : s.queue with
    | nil =>
      simp only [hqueue] at hs
      cases hs
      exact h.same (by rw [hnone, hqueue]; rfl) rfl rfl (fun hw => by cases hw)
    | cons envelope rest =>
      simp only [hqueue] at hs
      cases hs
      refine h.same ?_ rfl rfl (fun hw => by cases hw)
      rw [hnone, hqueue, List.append_nil]
      exact List.append_assoc ..
  | writing envelope =>
    have hhand : s.inHand = [envelope] := by rw [inHand, hphase]
    simp only [hphase] at hs
    by_cases hc : s.cancelled
    · rw [if_pos hc] at hs
      cases hs
      exact h.same (by rw [hhand]; rfl) rfl rfl (fun hw => by cases hw)
    · rw [if_neg hc] at hs
      cases hs
      refine h.same ?_ rfl rfl (fun hw => by cases hw)
      rw [hhand]
      show List.filterMap _ (s.body ++ [.data envelope]) ++ [] ++ s.queue = _
      -- the envelope goes from the hand to the end of what is written
      rw [List.filterMap_append, List.append_nil]
      rfl
  | beating =>
    have hnone : s.inHand = [] := by rw [inHand, hphase]
    simp only [hphase] at hs
    by_cases hc : s.cancelled
    · rw [if_pos hc] at hs
      cases hs
      exact h.same (by rw [hnone]; rfl) rfl rfl (fun hw => by cases hw)
    · rw [if_neg hc] at hs
      cases hs
      refine h.same ?_ rfl rfl (fun hw => by cases hw)
      rw [hnone]
      show List.filterMap _ (s.body ++ [.heartbeat]) ++ [] ++ s.queue = _
      rw [List.filterMap_append]
      -- a heartbeat carries no envelope
      exact congrArg (· ++ [] ++ s.queue) (List.append_nil _)
  | closed why unwritten =>
    rw [hphase] at hs
    cases hs

theorem step_delivers {m : Move α} (h : s.Delivers) (hs : step s m = some s') : s'.Delivers := by
  cases m with
  | enqueue envelope =>
    rw [step, Option.ite_none_left_eq_some, Option.some.injEq] at hs
    exact hs.2 ▸ h.enqueue envelope
  | tick =>
    rw [step, Option.ite_none_left_eq_some, Option.some.injEq] at hs
    exact hs.2 ▸ h.tick
  | cancel =>
    rw [step, Option.ite_none_left_eq_some, Option.some.injEq] at hs
    exact hs.2 ▸ h.cancel
  | run => exact h.advance hs

/-! ## What is dropped -/

theorem dropped_advance (hs : s.advance = some s') : s'.dropped = s.dropped := by
  unfold Stream.advance at hs
  cases hphase : s.phase with
  | head =>
    rw [hphase] at hs
    cases hs
    unfold Stream.turn
    split
    · rfl
    · split
      · rfl
      · split
        · rfl
        · rfl
  | draining =>
    rw [hphase] at hs
    cases hqueue : s.queue with
    | nil =>
      simp only [hqueue] at hs
      cases hs
      rfl
    | cons envelope rest =>
      simp only [hqueue] at hs
      cases hs
      rfl
  | writing envelope =>
    simp only [hphase] at hs
    split at hs
    · cases hs
      rfl
    · cases hs
      rfl
  | beating =>
    simp only [hphase] at hs
    split at hs
    · cases hs
      rfl
    · cases hs
      rfl
  | waiting | closed why unwritten =>
    rw [hphase] at hs
    cases hs

/-- A step drops nothing exactly when the channel has room. -/
theorem dropped_step {m : Move α} (hs : step s m = some s') :
    s'.dropped = [] ↔ s.dropped = [] ∧ s.hasRoom m = true := by
  cases m with
  | enqueue envelope =>
    rw [step, Option.ite_none_left_eq_some, Option.some.injEq] at hs
    rw [← hs.2]
    by_cases hfull : CHANNEL_CAPACITY ≤ s.queue.length
    · obtain ⟨oldest, rest, hcons⟩ : ∃ oldest rest, s.queue = oldest :: rest :=
        List.exists_cons_of_length_pos (Nat.lt_of_lt_of_le (by decide) hfull)
      -- a full channel is not empty, so there is an oldest one to drop
      have hdropped : (s.enqueue envelope).dropped = s.dropped ++ [oldest] := by
        simp only [Stream.enqueue, hfull, if_true]
        rw [hcons]
        rfl
      apply iff_of_false
      · rw [hdropped]
        exact List.append_ne_nil_of_right_ne_nil _ (List.cons_ne_nil _ _)
      · intro hand
        have hlt : s.queue.length < CHANNEL_CAPACITY := of_decide_eq_true hand.2
        omega
    · simp only [Stream.enqueue, hfull, if_false, hasRoom]
      exact (and_iff_left (decide_eq_true (Nat.lt_of_not_le hfull))).symm
  | tick =>
    rw [step, Option.ite_none_left_eq_some, Option.some.injEq] at hs
    rw [← hs.2]
    have hsame : s.tick.dropped = s.dropped := by
      unfold Stream.tick
      split <;> rfl
    rw [hsame]
    exact (and_iff_left rfl).symm
  | cancel =>
    rw [step, Option.ite_none_left_eq_some, Option.some.injEq] at hs
    rw [← hs.2]
    exact (and_iff_left rfl).symm
  | run =>
    rw [dropped_advance hs]
    exact (and_iff_left rfl).symm

/-! ## Runs -/

/-- In every run the envelopes written are enqueued ones, each once and in their order; one that is
not written is in hand, waits, or was dropped as the oldest of a full channel; and a loop that waits
has written all the others. -/
theorem stream_delivers (ls : List (Move α)) (s : Stream α) (h : follow step initial ls = some s) :
    (s.written ++ s.inHand ++ s.queue).Sublist s.enqueued ∧
      (s.dropped ++ (s.written ++ s.inHand ++ s.queue)).Perm s.enqueued ∧
      (s.phase = .waiting → s.inHand = [] ∧ s.queue = []) ∧
      (s.dropped = [] ↔ run step hasRoom initial ls = some s) := by
  obtain ⟨hdelivers, hdropped⟩ := run_of_follow (P := fun s => s.dropped = []) initial_delivers rfl
    (fun _ _ _ ha hs => step_delivers ha hs) (fun _ _ _ _ hs => dropped_step hs) h
  exact ⟨hdelivers.order, hdelivers.once, hdelivers.idle, hdropped⟩

/-- A heartbeat, then two envelopes that arrive together, the timer ticking while they are
written. -/
def heartbeatThenEnvelopes : List (Move Nat) :=
  [.run, .tick, .run, .run, .enqueue 1, .enqueue 2, .run, .tick, .run, .run, .run, .run, .run]

theorem stream_delivers_two : ∃ s : Stream Nat, s.body = [.heartbeat, .data 1, .data 2] ∧
    (s.written ++ s.inHand ++ s.queue).Sublist s.enqueued ∧
      (s.dropped ++ (s.written ++ s.inHand ++ s.queue)).Perm s.enqueued ∧
      (s.phase = .waiting → s.inHand = [] ∧ s.queue = []) ∧
      (s.dropped = [] ↔ run step hasRoom initial heartbeatThenEnvelopes = some s) := by
  have hrun : (follow step initial heartbeatThenEnvelopes).any
      (fun s => s.body = [.heartbeat, .data 1, .data 2]) = true := by decide
  cases hs : follow step initial heartbeatThenEnvelopes with
  | none =>
    rw [hs] at hrun
    cases hrun
  | some s =>
    rw [hs, Option.any_some, decide_eq_true_eq] at hrun
    exact ⟨s, hrun, stream_delivers heartbeatThenEnvelopes s hs⟩

/-- One envelope, and the next turn. -/
def oneEnvelope : List (Move Nat) :=
  [.run, .enqueue 1, .run, .run, .run, .run]

/-- The loop waits for its first turn while the channel overflows. -/
def overflowing : List (Move Nat) :=
  (List.range 101).map .enqueue

/-- The second turn starts a wait while the first one's stands; and envelope `0` is never
written. -/
theorem stream_overlaps_and_drops :
    (follow step initial oneEnvelope).any
        (fun s => s.phase = .closed .invalidOperation none) = true ∧
      (follow step initial overflowing).any (fun s => s.dropped = [0]) = true := by
  constructor
  · decide
  · decide +kernel

end Stream

end Wallow.Api.Sse
