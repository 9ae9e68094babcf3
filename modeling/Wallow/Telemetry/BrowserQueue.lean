import Mathlib
import Wallow.Telemetry.Relay
import Wallow.Lib.Transition

/-!
# The browser queue and its relay

One page that queues telemetry with `createBrowserQueue`, and the relay its calls go to. Each wait
of the page is the end of a step, and a call is served at any time after it is made, or never.
-/

namespace Wallow.Telemetry

open Transition

structure QueueItem where
  wire : Json
  bytes : Nat
  /-- The context when the item was enqueued; nothing reads it. -/
  recordedUnder : String

/-- A `fetch` of the page, with the items its batch is made of. -/
structure RelayCall where
  request : RelayRequest
  items : List QueueItem
  answer : Option RelayResponse

/-- A `resetContext` that waits for the answer to its call. -/
structure Handshake where
  generation : Nat
  call : Nat

/-- What a `drain` waits for: the answer to a batch, the end of a response, or the context it has
asked for. -/
inductive DrainPhase
  | sending (call : Nat)
  | releasing
  | resetting (generation : Nat)

structure Drain where
  generation : Nat
  timedOut : Bool
  heldBytes : Nat
  phase : DrainPhase

/-- A batch that the relay has posted to the collector. -/
structure ForwardedBatch where
  items : List QueueItem
  identity : RelayIdentity
  wire : FaroWire

structure BrowserPage where
  queue : List QueueItem
  queuedBytes : Int
  context : Option String
  generation : Nat
  handshakes : List Handshake
  flushing : Option Drain
  calls : List RelayCall
  /-- The contexts the relay has answered with, and for whom. -/
  issued : List (String × RelayIdentity)
  forwarded : List ForwardedBatch

inductive BrowserMove
  | enqueue (input : Json)
  /-- A call of `resetContext`, with the cookies the browser has. -/
  | resetContext (cookie : Option String)
  | clear
  | flush (cookie : Option String)
  /-- The five seconds of a flush are over. -/
  | flushTimeout
  | serve (call : Nat) (turn : RelayTurn)
  | handshakeAnswer (i : Nat)
  | handshakeFailure (i : Nat)
  | postAnswer
  | postFailure (cookie : Option String)
  /-- The body of a response is cancelled, and the next batch may follow. -/
  | released (cookie : Option String)

namespace BrowserPage

def start : BrowserPage := ⟨[], 0, none, 0, [], none, [], [], []⟩

section Source

variable (o : RelayOptions)

def handshakeRequest (cookie : Option String) : RelayRequest :=
  ⟨o.origin, "GET", none, cookie, none, none, none, none⟩

def postRequest (cookie : Option String) (body : Json) : RelayRequest :=
  ⟨o.origin, "POST", some o.origin, cookie, none, some "application/json", some body.byteLength,
    some body⟩

def clear (s : BrowserPage) : BrowserPage :=
  { s with
    queue := []
    queuedBytes := s.queuedBytes - (s.queue.map fun item => (item.bytes : Int)).sum }

/-- `resetContext` up to the answer. The signal of the calls made before is aborted: it is the
generation that tells. -/
def resetContext (s : BrowserPage) (cookie : Option String) : BrowserPage :=
  { s.clear with
    generation := s.generation + 1
    context := none
    handshakes := s.handshakes ++ [⟨s.generation + 1, s.calls.length⟩]
    calls := s.calls ++ [⟨handshakeRequest o cookie, [], none⟩] }

/-- The drain that waits for a handshake ends with it. -/
def endReset (flushing : Option Drain) (generation : Nat) : Option Drain :=
  flushing.filter fun d =>
    match d.phase with
    | .resetting g => g ≠ generation
    | _ => true

/-- The context that `resetContext` takes from an answer. -/
def acceptedContext (r : RelayResponse) : Option String :=
  if 200 ≤ r.status ∧ r.status < 300 then
    r.context.filter fun c => c.length ≤ BROWSER_LIMITS.events
  else none

def endHandshake (s : BrowserPage) (i : Nat) (h : Handshake) : BrowserPage :=
  { s with
    handshakes := s.handshakes.eraseIdx i, flushing := endReset s.flushing h.generation }

def handshakeAnswer (s : BrowserPage) (i : Nat) (h : Handshake) (r : RelayResponse) :
    BrowserPage :=
  let s' := s.endHandshake i h
  match acceptedContext r with
  | some c => if h.generation = s.generation then { s' with context := some c } else s'
  | none => s'

def enqueue (s : BrowserPage) (input : Json) : BrowserPage :=
  match s.context with
  | none => s
  | some context =>
    let sanitized := o.sanitizeFaroBatch input
    let wire := sanitized.toJson
    if sanitized.eventCount = 0 then s
    else if BROWSER_LIMITS.eventBytes < wire.byteLength ||
        (BROWSER_LIMITS.bufferedBytes : Int) < wire.byteLength + s.queuedBytes then s
    else
      { s with
        queue := s.queue ++ [⟨wire, wire.byteLength, context⟩]
        queuedBytes := s.queuedBytes + wire.byteLength }

def batchJson (batch : FaroBatch) (context : String) : Json :=
  .object (batch.toFields ++ [("context", .string context)])

/-- The items that go into one batch, those that are left, and the batch. -/
def collect (context : String) : FaroBatch → List QueueItem →
    List QueueItem × List QueueItem × FaroBatch
  | batch, [] => ([], [], batch)
  | batch, next :: rest =>
    let candidate := batch.merge (o.sanitizeFaroBatch next.wire)
    if candidate.overfull ||
        BROWSER_LIMITS.batchBytes < (batchJson candidate context).byteLength then
      ([], next :: rest, batch)
    else
      let (taken, left, merged) := collect context candidate rest
      (next :: taken, left, merged)

/-- What follows the loop of `drain`. -/
def drainEnd (s : BrowserPage) (cookie : Option String) (d : Drain) : BrowserPage :=
  if d.generation ≠ s.generation then { s with flushing := none }
  else if d.timedOut then { s.clear with flushing := none }
  else
    match s.context with
    | none =>
      { s.resetContext o cookie with
        flushing := some { d with phase := .resetting (s.generation + 1) } }
    | some _ => { s with flushing := none }

/-- The loop of `drain`, up to the call of its next batch. -/
def drainLoop (s : BrowserPage) (cookie : Option String) (d : Drain) : BrowserPage :=
  match s.context with
  | none => s.drainEnd o cookie d
  | some context =>
    if s.queue.isEmpty || d.timedOut || d.generation ≠ s.generation then s.drainEnd o cookie d
    else
      let (taken, left, batch) := collect o context (o.sanitizeFaroBatch (.object [])) s.queue
      if taken.isEmpty then s.clear.drainEnd o cookie d
      else
        { s with
          queue := left
          flushing := some
            ⟨d.generation, false, (taken.map (·.bytes)).sum, .sending s.calls.length⟩
          calls := s.calls ++ [⟨postRequest o cookie (batchJson batch context), taken, none⟩] }

def flush (s : BrowserPage) (cookie : Option String) : BrowserPage :=
  match s.flushing with
  | some _ => s
  | none => s.drainLoop o cookie ⟨s.generation, false, 0, .releasing⟩

/-- The `finally` of a batch, and the loop. -/
def nextBatch (s : BrowserPage) (cookie : Option String) (d : Drain) : BrowserPage :=
  { s with queuedBytes := s.queuedBytes - d.heldBytes }.drainLoop o cookie { d with heldBytes := 0 }

/-- The answer to a batch; the identity has changed if its status is 409. -/
def postAnswer (s : BrowserPage) (d : Drain) (r : RelayResponse) : BrowserPage :=
  let flushing := some { d with phase := .releasing }
  if d.generation = s.generation ∧ r.status = 409 then
    { s.clear with context := none, flushing := flushing }
  else { s with flushing := flushing }

def serve (s : BrowserPage) (k : Nat) (turn : RelayTurn) (call : RelayCall) : BrowserPage :=
  let (found, response, wire) := o.handle turn call.request
  { s with
    calls := s.calls.set k { call with answer := some response }
    issued := s.issued ++
      (response.context.bind fun c => found.map fun i => (c, i)).toList
    forwarded := s.forwarded ++
      (wire.bind fun w => found.map fun i => ForwardedBatch.mk call.items i w).toList }

def step (s : BrowserPage) : BrowserMove → Option BrowserPage
  | .enqueue input => some (s.enqueue o input)
  | .resetContext cookie => some (s.resetContext o cookie)
  | .clear => some s.clear
  | .flush cookie => some (s.flush o cookie)
  | .flushTimeout => s.flushing.map fun d => { s with flushing := some { d with timedOut := true } }
  | .serve k turn =>
    (s.calls[k]?.filter (·.answer.isNone)).map (s.serve o k turn)
  | .handshakeAnswer i =>
    s.handshakes[i]?.bind fun h =>
      (s.calls[h.call]?.bind (·.answer)).map (s.handshakeAnswer i h)
  | .handshakeFailure i => s.handshakes[i]?.map (s.endHandshake i)
  | .postAnswer =>
    s.flushing.bind fun d =>
      match d.phase with
      | .sending k => (s.calls[k]?.bind (·.answer)).map (s.postAnswer d)
      | _ => none
  | .postFailure cookie =>
    s.flushing.bind fun d =>
      match d.phase with
      | .sending _ => some (s.nextBatch o cookie d)
      | _ => none
  | .released cookie =>
    s.flushing.bind fun d =>
      match d.phase with
      | .releasing => some (s.nextBatch o cookie d)
      | _ => none

end Source

/-! ## The invariant -/

section Invariant

variable {o : RelayOptions} {s t : BrowserPage}

/-- The relay has answered with this context. -/
def Issued (s : BrowserPage) (context : String) : Prop := ∃ i, (context, i) ∈ s.issued

/-- The batch that the items make up. -/
def mergedItems (o : RelayOptions) (items : List QueueItem) : FaroBatch :=
  items.foldl (fun batch item => batch.merge (o.sanitizeFaroBatch item.wire))
    (o.sanitizeFaroBatch (.object []))

/-- A call is for a context, or carries items under the context they were enqueued with. -/
def CallSound (o : RelayOptions) (s : BrowserPage) (call : RelayCall) : Prop :=
  call.request.body = none ∨
    ∃ context, s.Issued context ∧ (∀ item ∈ call.items, item.recordedUnder = context) ∧
      call.request.body = some (batchJson (mergedItems o call.items) context)

/-- A forwarded batch is that of its items, wired for the identity of their context. -/
def ForwardedSound (o : RelayOptions) (s : BrowserPage) (f : ForwardedBatch) : Prop :=
  s.Issued (o.contextOf f.identity) ∧
    (∀ item ∈ f.items, item.recordedUnder = o.contextOf f.identity) ∧
    f.wire = o.wireOf f.identity (batchJson (mergedItems o f.items) (o.contextOf f.identity))

structure Isolated (o : RelayOptions) (s : BrowserPage) : Prop where
  /-- What is queued was recorded under the context the queue has. -/
  queue : ∀ item ∈ s.queue, s.context = some item.recordedUnder
  context : ∀ c, s.context = some c → s.Issued c
  /-- Until the handshake of its generation is over the queue has no context. -/
  pending : ∀ h ∈ s.handshakes, h.generation = s.generation → s.context = none
  generations : (s.handshakes.map (·.generation)).Nodup
  bounded : ∀ h ∈ s.handshakes, h.generation ≤ s.generation
  calls : ∀ call ∈ s.calls, CallSound o s call
  answers : ∀ call ∈ s.calls, ∀ r, call.answer = some r → ∀ c, r.context = some c → s.Issued c
  issued : ∀ e ∈ s.issued, e.1 = o.contextOf e.2
  forwarded : ∀ f ∈ s.forwarded, ForwardedSound o s f

theorem isolated_start : Isolated o start := by
  constructor <;> simp [start]

theorem clear_isolated (h : Isolated o s) : Isolated o s.clear :=
  { h with queue := fun _ hitem => absurd hitem List.not_mem_nil }

/-- What only concerns the drain leaves the rest as it is. -/
theorem Isolated.of_flushing (h : Isolated o s) (flushing : Option Drain) (bytes : Int) :
    Isolated o { s with flushing := flushing, queuedBytes := bytes } :=
  { h with }

/-- A page without a context has an empty queue. -/
theorem Isolated.queue_nil (h : Isolated o s) (hnone : s.context = none) : s.queue = [] := by
  apply List.eq_nil_iff_forall_not_mem.mpr
  intro item hitem
  have hsome := h.queue item hitem
  rw [hnone] at hsome
  cases hsome

theorem dropContext_isolated (h : Isolated o s) :
    Isolated o { s.clear with context := none } where
  queue := fun _ hitem => absurd hitem List.not_mem_nil
  context := fun _ hc => by cases hc
  pending := fun _ _ _ => rfl
  generations := h.generations
  bounded := h.bounded
  calls := h.calls
  answers := h.answers
  issued := h.issued
  forwarded := h.forwarded

theorem resetContext_isolated (h : Isolated o s) (cookie : Option String) :
    Isolated o (s.resetContext o cookie) where
  queue := fun _ hitem => absurd hitem List.not_mem_nil
  context := fun _ hc => by cases hc
  pending := fun _ _ _ => rfl
  generations := by
    -- the new generation is above all others
    show ((s.handshakes ++ [Handshake.mk (s.generation + 1) s.calls.length]).map
      (·.generation)).Nodup
    rw [List.map_append, List.map_singleton, List.nodup_append]
    refine ⟨h.generations, List.nodup_singleton _, ?_⟩
    intro g hg g' hg'
    obtain ⟨handshake, hmem, rfl⟩ := List.mem_map.mp hg
    have hle := h.bounded handshake hmem
    rw [List.mem_singleton.mp hg']
    exact Nat.ne_of_lt (Nat.lt_succ_of_le hle)
  bounded := by
    intro handshake hmem
    show handshake.generation ≤ s.generation + 1
    cases List.mem_append.mp hmem with
    | inl hold => exact Nat.le_succ_of_le (h.bounded handshake hold)
    | inr hnew =>
      exact Nat.le_of_eq (congrArg (·.generation) (List.mem_singleton.mp hnew))
  calls := by
    intro call hcall
    cases List.mem_append.mp hcall with
    | inl hold => exact h.calls call hold
    | inr hnew =>
      rw [List.mem_singleton.mp hnew]
      exact .inl rfl
  answers := by
    intro call hcall
    cases List.mem_append.mp hcall with
    | inl hold => exact h.answers call hold
    | inr hnew =>
      rw [List.mem_singleton.mp hnew]
      exact fun r hr => by cases hr
  issued := h.issued
  forwarded := h.forwarded

theorem endHandshake_isolated (h : Isolated o s) (i : Nat) (handshake : Handshake) :
    Isolated o (s.endHandshake i handshake) :=
  { h with
    pending := fun k hk => h.pending k ((List.eraseIdx_sublist _ _).subset hk)
    generations := h.generations.sublist ((List.eraseIdx_sublist _ _).map _)
    bounded := fun k hk => h.bounded k ((List.eraseIdx_sublist _ _).subset hk) }

/-- No handshake that is left has the generation of the one that is over. -/
theorem generation_ne_of_mem_eraseIdx {handshakes : List Handshake} {i : Nat}
    {h k : Handshake} (hnodup : (handshakes.map (·.generation)).Nodup)
    (hi : handshakes[i]? = some h) (hk : k ∈ handshakes.eraseIdx i) :
    k.generation ≠ h.generation := by
  obtain ⟨hlt, rfl⟩ := List.getElem?_eq_some_iff.mp hi
  have hperm := (List.getElem_cons_eraseIdx_perm hlt).map Handshake.generation
  have hcons := hperm.nodup_iff.mpr hnodup
  rw [List.map_cons, List.nodup_cons] at hcons
  exact fun heq => hcons.1 (heq ▸ List.mem_map_of_mem hk)

theorem handshakeAnswer_isolated (h : Isolated o s) {i : Nat} {handshake : Handshake}
    {r : RelayResponse} (hi : s.handshakes[i]? = some handshake)
    (hr : ∀ c, r.context = some c → s.Issued c) :
    Isolated o (s.handshakeAnswer i handshake r) := by
  have hend := endHandshake_isolated h i handshake
  unfold handshakeAnswer
  simp only
  split
  · rename_i c hc
    split
    · rename_i hcurrent
      have hnone := h.pending handshake (List.mem_of_getElem? hi) hcurrent
      have hqueue := h.queue_nil hnone
      have hissued : s.Issued c := by
        rw [acceptedContext, Option.ite_none_right_eq_some] at hc
        exact hr c (Option.filter_eq_some_iff.mp hc.2).1
      refine { hend with queue := ?_, context := ?_, pending := ?_ }
      · intro item hitem
        rw [show ({ s.endHandshake i handshake with context := some c } : BrowserPage).queue = []
          from hqueue] at hitem
        cases hitem
      · intro c' hc'
        exact Option.some.inj hc' ▸ hissued
      · intro k hk hgeneration
        exact absurd (hgeneration.trans hcurrent.symm)
          (generation_ne_of_mem_eraseIdx h.generations hi hk)
    · exact hend
  · exact hend

theorem enqueue_isolated (h : Isolated o s) (input : Json) : Isolated o (s.enqueue o input) := by
  unfold enqueue
  split
  · exact h
  rename_i context hcontext
  simp only
  split
  · exact h
  split
  · exact h
  refine { h with queue := ?_ }
  intro item hitem
  cases List.mem_append.mp hitem with
  | inl hold => exact h.queue item hold
  | inr hnew =>
    rw [List.mem_singleton.mp hnew]
    exact hcontext

/-- The items collected are a first part of the queue, and their batch is what they make up. -/
theorem collect_spec (o : RelayOptions) (context : String) (batch : FaroBatch)
    (queue : List QueueItem) :
    (collect o context batch queue).1 ++ (collect o context batch queue).2.1 = queue ∧
      (collect o context batch queue).2.2 =
        (collect o context batch queue).1.foldl
          (fun batch item => batch.merge (o.sanitizeFaroBatch item.wire)) batch := by
  induction queue generalizing batch with
  | nil => exact ⟨rfl, rfl⟩
  | cons next rest ih =>
    rw [collect]
    simp only
    split
    · exact ⟨rfl, rfl⟩
    · have hrest := ih (batch.merge (o.sanitizeFaroBatch next.wire))
      exact ⟨congrArg (next :: ·) hrest.1, hrest.2⟩

theorem drainEnd_isolated (h : Isolated o s) (cookie : Option String) (d : Drain) :
    Isolated o (s.drainEnd o cookie d) := by
  unfold drainEnd
  split
  · exact h.of_flushing none s.queuedBytes
  split
  · exact (clear_isolated h).of_flushing none s.clear.queuedBytes
  split
  · exact (resetContext_isolated h cookie).of_flushing _ (s.resetContext o cookie).queuedBytes
  · exact h.of_flushing none s.queuedBytes

theorem drainLoop_isolated (h : Isolated o s) (cookie : Option String) (d : Drain) :
    Isolated o (s.drainLoop o cookie d) := by
  unfold drainLoop
  split
  · exact drainEnd_isolated h cookie d
  rename_i context hcontext
  split
  · exact drainEnd_isolated h cookie d
  simp only
  split
  · exact drainEnd_isolated (clear_isolated h) cookie d
  -- the batch takes items of the queue, which all have the context it names
  obtain ⟨happend, hbatch⟩ := collect_spec o context (o.sanitizeFaroBatch (.object [])) s.queue
  have hcall : CallSound o s ⟨postRequest o cookie
      (batchJson (collect o context (o.sanitizeFaroBatch (.object [])) s.queue).2.2 context),
      (collect o context (o.sanitizeFaroBatch (.object [])) s.queue).1, none⟩ := by
    refine .inr ⟨context, h.context context hcontext, ?_, ?_⟩
    · intro item hitem
      have hqueued := h.queue item (happend ▸ List.mem_append_left _ hitem)
      rw [hcontext, Option.some.injEq] at hqueued
      exact hqueued.symm
    · rw [hbatch]
      rfl
  refine { h with queue := ?_, calls := ?_, answers := ?_ }
  · exact fun item hitem => h.queue item (happend ▸ List.mem_append_right _ hitem)
  · intro call hmem
    cases List.mem_append.mp hmem with
    | inl hold => exact h.calls call hold
    | inr hnew => exact List.mem_singleton.mp hnew ▸ hcall
  · intro call hmem
    cases List.mem_append.mp hmem with
    | inl hold => exact h.answers call hold
    | inr hnew =>
      rw [List.mem_singleton.mp hnew]
      exact fun r hr => by cases hr

theorem nextBatch_isolated (h : Isolated o s) (cookie : Option String) (d : Drain) :
    Isolated o (s.nextBatch o cookie d) :=
  drainLoop_isolated (h.of_flushing s.flushing (s.queuedBytes - d.heldBytes)) cookie _

theorem postAnswer_isolated (h : Isolated o s) (d : Drain) (r : RelayResponse) :
    Isolated o (s.postAnswer d r) := by
  unfold postAnswer
  simp only
  split
  · exact (dropContext_isolated h).of_flushing _ s.clear.queuedBytes
  · exact h.of_flushing _ s.queuedBytes

theorem flush_isolated (h : Isolated o s) (cookie : Option String) :
    Isolated o (s.flush o cookie) := by
  unfold flush
  split
  · exact h
  · exact drainLoop_isolated h cookie _

/-! ## The relay -/

theorem CallSound.mono {call : RelayCall} (h : CallSound o s call)
    (hissued : ∀ e ∈ s.issued, e ∈ t.issued) : CallSound o t call := by
  refine h.imp_right ?_
  rintro ⟨context, ⟨i, hi⟩, hitems, hbody⟩
  exact ⟨context, ⟨i, hissued _ hi⟩, hitems, hbody⟩

theorem ForwardedSound.mono {f : ForwardedBatch} (h : ForwardedSound o s f)
    (hissued : ∀ e ∈ s.issued, e ∈ t.issued) : ForwardedSound o t f := by
  obtain ⟨⟨i, hi⟩, hrest⟩ := h
  exact ⟨⟨i, hissued _ hi⟩, hrest⟩

theorem get_context_batchJson (batch : FaroBatch) (context : String) :
    (record (batchJson batch context)).get "context" = some (.string context) := by
  simp [record, batchJson, Json.isObject, Json.get, FaroBatch.toFields, List.lookup]

/-- A batch is only forwarded for the identity whose context its items have. -/
theorem forwardedSound_of_handled {call : RelayCall} {i : RelayIdentity} {w : FaroWire}
    {answer : RelayResponse × Option FaroWire} (hcall : CallSound o s call)
    (hhandled : RelayOptions.HandledFor o i call.request answer) (hw : answer.2 = some w) :
    ForwardedSound o s ⟨call.items, i, w⟩ := by
  obtain ⟨body, hbody, hcontext, rfl⟩ := hhandled.forwarded w hw
  cases hcall with
  | inl hnone =>
    rw [hnone] at hbody
    cases hbody
  | inr hbatch =>
    obtain ⟨context, hissued, hitems, hsent⟩ := hbatch
    rw [hsent, Option.some.injEq] at hbody
    subst hbody
    rw [get_context_batchJson, Option.some.injEq, Json.string.injEq] at hcontext
    subst hcontext
    exact ⟨hissued, hitems, rfl⟩

theorem serve_eq (k : Nat) (turn : RelayTurn) (call : RelayCall) :
    s.serve o k turn call =
      { s with
        calls := s.calls.set k { call with answer := some (o.handle turn call.request).2.1 }
        issued := s.issued ++ ((o.handle turn call.request).2.1.context.bind fun c =>
          (o.handle turn call.request).1.map fun i => (c, i)).toList
        forwarded := s.forwarded ++ ((o.handle turn call.request).2.2.bind fun w =>
          (o.handle turn call.request).1.map fun i => ForwardedBatch.mk call.items i w).toList } :=
  rfl

theorem serve_isolated (h : Isolated o s) {k : Nat} {call : RelayCall} (turn : RelayTurn)
    (hk : s.calls[k]? = some call) : Isolated o (s.serve o k turn call) := by
  have hmono : ∀ e ∈ s.issued, e ∈ (s.serve o k turn call).issued :=
    fun e he => List.mem_append_left _ he
  have hcall := h.calls call (List.mem_of_getElem? hk)
  have hcontext : ∀ c, (o.handle turn call.request).2.1.context = some c →
      ∃ i, (o.handle turn call.request).1 = some i ∧ c = o.contextOf i := by
    intro c hc
    obtain ⟨status, hreject⟩ | ⟨i, hfound, hhandled⟩ := o.handle_cases turn call.request
    · rw [hreject] at hc
      cases hc
    · exact ⟨i, hfound, hhandled.context c hc⟩
  have hwire : ∀ i w, (o.handle turn call.request).1 = some i →
      (o.handle turn call.request).2.2 = some w → ForwardedSound o s ⟨call.items, i, w⟩ := by
    intro i w hfound hw
    obtain ⟨status, hreject⟩ | ⟨i', hfound', hhandled⟩ := o.handle_cases turn call.request
    · rw [hreject] at hw
      cases hw
    · rw [hfound', Option.some.injEq] at hfound
      exact hfound ▸ forwardedSound_of_handled hcall hhandled hw
  rw [serve_eq] at hmono ⊢
  constructor
  · exact h.queue
  · intro c hc
    obtain ⟨i, hi⟩ := h.context c hc
    exact ⟨i, hmono _ hi⟩
  · exact h.pending
  · exact h.generations
  · exact h.bounded
  · intro other hother
    cases List.mem_or_eq_of_mem_set hother with
    | inl hold => exact (h.calls other hold).mono hmono
    | inr hnew =>
      rw [hnew]
      exact hcall.mono hmono
  · intro other hother r hr c hc
    cases List.mem_or_eq_of_mem_set hother with
    | inl hold =>
      obtain ⟨i, hi⟩ := h.answers other hold r hr c hc
      exact ⟨i, hmono _ hi⟩
    | inr hnew =>
      -- the answer just given
      rw [hnew] at hr
      cases hr
      obtain ⟨i, hfound, -⟩ := hcontext c hc
      refine ⟨i, List.mem_append_right _ ?_⟩
      rw [Option.mem_toList, hc, hfound]
      rfl
  · intro e he
    cases List.mem_append.mp he with
    | inl hold => exact h.issued e hold
    | inr hnew =>
      rw [Option.mem_toList, Option.bind_eq_some_iff] at hnew
      obtain ⟨c, hc, hpair⟩ := hnew
      obtain ⟨i, hfound, hi⟩ := hcontext c hc
      rw [hfound] at hpair
      cases hpair
      exact hi
  · intro f hf
    cases List.mem_append.mp hf with
    | inl hold => exact (h.forwarded f hold).mono hmono
    | inr hnew =>
      rw [Option.mem_toList, Option.bind_eq_some_iff] at hnew
      obtain ⟨w, hw, hbatch⟩ := hnew
      obtain ⟨i, hfound, rfl⟩ := Option.map_eq_some_iff.mp hbatch
      exact (hwire i w hfound hw).mono hmono

theorem step_isolated (h : Isolated o s) {move : BrowserMove} (hstep : s.step o move = some t) :
    Isolated o t := by
  cases move with
  | enqueue input =>
    cases hstep
    exact enqueue_isolated h input
  | resetContext cookie =>
    cases hstep
    exact resetContext_isolated h cookie
  | clear =>
    cases hstep
    exact clear_isolated h
  | flush cookie =>
    cases hstep
    exact flush_isolated h cookie
  | flushTimeout =>
    obtain ⟨d, -, rfl⟩ := Option.map_eq_some_iff.mp hstep
    exact h.of_flushing _ s.queuedBytes
  | serve k turn =>
    obtain ⟨call, hcall, rfl⟩ := Option.map_eq_some_iff.mp hstep
    exact serve_isolated h turn (Option.filter_eq_some_iff.mp hcall).1
  | handshakeAnswer i =>
    obtain ⟨handshake, hi, hanswer⟩ := Option.bind_eq_some_iff.mp hstep
    obtain ⟨r, hr, rfl⟩ := Option.map_eq_some_iff.mp hanswer
    obtain ⟨call, hcall, hr⟩ := Option.bind_eq_some_iff.mp hr
    exact handshakeAnswer_isolated h hi
      (h.answers call (List.mem_of_getElem? hcall) r hr)
  | handshakeFailure i =>
    obtain ⟨handshake, -, rfl⟩ := Option.map_eq_some_iff.mp hstep
    exact endHandshake_isolated h i handshake
  | postAnswer =>
    obtain ⟨d, -, hphase⟩ := Option.bind_eq_some_iff.mp hstep
    split at hphase
    · obtain ⟨r, -, rfl⟩ := Option.map_eq_some_iff.mp hphase
      exact postAnswer_isolated h d r
    · cases hphase
  | postFailure cookie =>
    obtain ⟨d, -, hphase⟩ := Option.bind_eq_some_iff.mp hstep
    split at hphase
    · cases hphase
      exact nextBatch_isolated h cookie d
    · cases hphase
  | released cookie =>
    obtain ⟨d, -, hphase⟩ := Option.bind_eq_some_iff.mp hstep
    split at hphase
    · cases hphase
      exact nextBatch_isolated h cookie d
    · cases hphase

end Invariant

/-- Whatever the order of the steps, every batch the relay forwards is stamped with the identity
that the context of each of its items was issued for, and with no other. -/
theorem forwarded_under_own_identity (o : RelayOptions)
    (hhmac : Function.Injective o.createHmac) (s : BrowserPage)
    (h : Reachable (fun s move => s.step o move) start s) :
    ∀ f ∈ s.forwarded,
      (∀ item ∈ f.items, (item.recordedUnder, f.identity) ∈ s.issued ∧
        ∀ i, (item.recordedUnder, i) ∈ s.issued → i = f.identity) ∧
      f.wire = o.wireOf f.identity
        (batchJson (mergedItems o f.items) (o.contextOf f.identity)) ∧
      ∀ r ∈ f.wire.batch.records, StampedWith (o.trusted f.identity) r := by
  have hisolated : Isolated o s := h.invariant (Isolated o) isolated_start
    fun _ _ _ ha _ hstep => step_isolated ha hstep
  intro f hf
  obtain ⟨⟨i, hi⟩, hitems, hwire⟩ := hisolated.forwarded f hf
  have hsame : i = f.identity :=
    (RelayOptions.contextOf_inj hhmac (hisolated.issued _ hi)).symm
  subst hsame
  refine ⟨?_, hwire, ?_⟩
  · intro item hitem
    rw [hitems item hitem]
    exact ⟨hi, fun j hj => (RelayOptions.contextOf_inj hhmac (hisolated.issued _ hj)).symm⟩
  · rw [hwire]
    exact stampFaroContext_stamped _

/-! A page that a signed-in user has, and an event on it. -/

def swapDot (c : Char) : Char := if c = '.' then '!' else if c = '!' then '.' else c

theorem swapDot_injective : Function.Injective swapDot := by
  apply Function.Involutive.injective
  intro c
  unfold swapDot
  split_ifs <;> simp_all

/-- A relay whose codes are readable, and which only keeps how many logs there are. -/
def readableRelay : RelayOptions where
  origin := "https://a.example"
  environment := "test"
  release := "1"
  createHmac text := String.ofList (text.toList.map swapDot)
  sanitizeFaroBatch payload :=
    match payload.get "logs" with
    | some (.array logs) =>
      { FaroBatch.empty with
        logs := logs.map fun _ => ⟨[("message", .string "log")], []⟩ }
    | _ => FaroBatch.empty
  sanitizeUrl url := url

theorem readableRelay_injective : Function.Injective readableRelay.createHmac := by
  intro text text' h
  exact String.toList_inj.mp (List.map_injective_iff.mpr swapDot_injective
    (String.ofList_injective h))

def visitorId : AnonymousId := ⟨"0123456789abcdef0123456789abcdef", by decide⟩

def signedInTurn : RelayTurn :=
  ⟨true, some (some ⟨"u1", some "o1", "s1"⟩), 1000000000, visitorId, false⟩

/-- The page asks for its context, records a log and sends it.  It keeps no cookies, and the relay
draws the same identifier again. -/
def signedInMoves : List BrowserMove :=
  [.resetContext none, .serve 0 signedInTurn, .handshakeAnswer 0,
    .enqueue (.object [("logs", .array [.null])]), .flush none,
    .serve 1 signedInTurn]

theorem forwarded_under_own_identity_signed_in :
    ∃ s : BrowserPage, ∃ f ∈ s.forwarded, f.items ≠ [] ∧
      ∀ r ∈ f.wire.batch.records, StampedWith (readableRelay.trusted f.identity) r := by
  have hrun : ((follow (fun s move => step readableRelay s move) start signedInMoves).any
      fun s => s.forwarded.any fun f => !f.items.isEmpty) = true := by decide +kernel
  obtain ⟨s, hreach, hsome⟩ := exists_reaches_of_run (fun _ _ _ => trivial) hrun
  obtain ⟨f, hf, hitems⟩ := List.any_eq_true.mp hsome
  have hown := forwarded_under_own_identity readableRelay readableRelay_injective s hreach f hf
  exact ⟨s, f, hf, by simpa using hitems, hown.2.2⟩

end BrowserPage

end Wallow.Telemetry
