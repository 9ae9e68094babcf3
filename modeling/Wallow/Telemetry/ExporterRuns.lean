import Wallow.Telemetry.Exporter

/-!
# Runs of the exporter

Where no drain is started while a `shutdown` is about to go on after an earlier one, the accounts
are right in every state; and what becomes of them otherwise.
-/

namespace Wallow.Telemetry.Exporter

open Transition

variable {s : Exporter} {before : List DrainStage} {stage : DrainStage}

/-- The step does not start a drain of what is queued while a `shutdown` is about to go on after an
earlier drain. -/
def Orderly (s : Exporter) (e : ExporterEvent) : Prop :=
  (e = .flush ∨ e = .tick ∨ e = .shutdown) → s.exporting = none → s.queue ≠ [] →
    s.aborted = false → ∀ drain, .waiting drain ∉ s.shutdowns

structure Inv (s : Exporter) : Prop where
  shape : s.Shape
  books : Books s.inFlight s.uncounted s
  /-- A `shutdown` that waits for a drain that is over waits for no request. -/
  waiting : ∀ drain, .waiting drain ∈ s.shutdowns →
    s.stopped = true ∧ (s.exporting ≠ some drain → s.inFlight = [])
  resolved : s.isShutDown → s.stopped = true ∧ s.queue = [] ∧ s.inFlight = []

theorem inv_start : start.Inv where
  shape := Or.inl ⟨by simp [start], rfl⟩
  books := {
    bytes := rfl
    bounded := by decide
    ordered := List.Pairwise.nil
    fresh := by simp [start]
    tallies := ⟨rfl, rfl, rfl⟩
    ledger := List.Perm.refl _ }
  waiting := by simp [start]
  resolved := by simp [start, isShutDown]

theorem uncounted_le_held (d : DrainStage) : d.uncounted.length ≤ d.held.length := by
  cases d <;> simp [DrainStage.uncounted, DrainStage.held]

theorem Inv.uncounted_nil (h : s.Inv) (hnone : s.inFlight = []) : s.uncounted = [] := by
  cases h.shape with
  | inl hidle => exact uncounted_of_idle hidle
  | inr hbusy =>
    have ⟨before, stage, hb⟩ := hbusy
    rw [inFlight_of_busy hb] at hnone
    rw [uncounted_of_busy hb]
    have hle := uncounted_le_held stage
    rw [hnone, List.length_nil] at hle
    exact List.eq_nil_of_length_eq_zero (Nat.le_zero.mp hle)

theorem Inv.accounts (h : s.Inv) : Accounts s := by
  refine h.books.accounts rfl ?_ fun hshut => ?_
  · cases h.shape with
    | inl hidle => simp [inFlight_of_idle hidle]
    | inr hbusy =>
      have ⟨before, stage, hb⟩ := hbusy
      rw [inFlight_of_busy hb]
      cases stage <;> simp [DrainStage.held]
  · have ⟨_, hqueue, hnone⟩ := h.resolved hshut
    exact ⟨h.uncounted_nil hnone, hqueue⟩

theorem loop_cases (s : Exporter) (drain : Nat) :
    s.loop drain = { s with drains := s.drains.set drain .left } ∨
      ∃ item rest, s.queue = item :: rest ∧ s.aborted = false ∧
        s.loop drain =
          { s with
            queue := rest
            drains := s.drains.set drain (.sending item)
            sent := s.sent ++ [item] } := by
  unfold loop
  cases hqueue : s.queue with
  | nil => exact Or.inl rfl
  | cons item rest =>
    cases haborted : s.aborted with
    | true => exact Or.inl rfl
    | false => exact Or.inr ⟨item, rest, rfl, rfl, rfl⟩

/-- The loop keeps the invariant from where the books are even; where it sends, no `shutdown` may
be about to go on. -/
theorem inv_loop (hb : Busy before stage s) (hbooks : Books [] [] s)
    (hwaiting : ∀ drain, .waiting drain ∈ s.shutdowns → s.stopped = true ∧
      (s.exporting ≠ some drain → s.queue = [] ∨ s.aborted = true))
    (hresolved : s.isShutDown → s.stopped = true ∧ s.queue = []) :
    (s.loop before.length).Inv := by
  cases loop_cases s before.length with
  | inl hleft =>
    rw [hleft]
    have hb' : Busy before .left { s with drains := s.drains.set before.length .left } :=
      hb.advance (by simp)
    have hnone := inFlight_of_busy hb'
    have huncounted := uncounted_of_busy hb'
    exact {
      shape := Or.inr ⟨before, .left, hb'⟩
      books := by
        rw [hnone, huncounted]
        exact hbooks.frame _ _ _ _ _
      waiting := fun drain hdrain => ⟨(hwaiting drain hdrain).1, fun _ => hnone⟩
      resolved := fun hshut => ⟨(hresolved hshut).1, (hresolved hshut).2, hnone⟩ }
  | inr hsends =>
    have ⟨item, rest, hqueue, haborted, heq⟩ := hsends
    rw [heq]
    have hb' : Busy before (.sending item)
        { s with
          queue := rest
          drains := s.drains.set before.length (.sending item)
          sent := s.sent ++ [item] } :=
      hb.advance (by simp)
    exact {
      shape := Or.inr ⟨before, .sending item, hb'⟩
      books := by
        rw [inFlight_of_busy hb', uncounted_of_busy hb']
        exact hbooks.send hqueue
      waiting := fun drain hdrain => by
        refine ⟨(hwaiting drain hdrain).1, fun hne => ?_⟩
        cases (hwaiting drain hdrain).2 hne with
        | inl hnil => exact absurd (hqueue.symm.trans hnil) (by simp)
        | inr htrue => exact absurd (haborted.symm.trans htrue) (by simp)
      resolved := fun hshut => absurd (hqueue.symm.trans (hresolved hshut).2) (by simp) }

namespace Inv

theorem startDrain (h : s.Inv) (hnone : s.exporting = none)
    (horderly : s.queue ≠ [] → s.aborted = false → ∀ drain, .waiting drain ∉ s.shutdowns) :
    s.startDrain.Inv := by
  have hidle : s.Idle := h.shape.idle_of_cell hnone
  have hbooks : Books [] [] s := by
    have hbooks := h.books
    rw [inFlight_of_idle hidle, uncounted_of_idle hidle] at hbooks
    exact hbooks
  have hb : Busy s.drains .left
      { s with exporting := some s.drains.length, drains := s.drains ++ [.left] } :=
    hidle.start (by simp)
  refine inv_loop hb (hbooks.frame _ _ _ _ _) (fun drain hdrain => ?_) fun hshut => ?_
  · refine ⟨(h.waiting drain hdrain).1, fun _ => ?_⟩
    by_cases hqueue : s.queue = []
    · exact Or.inl hqueue
    · cases haborted : s.aborted with
      | true => exact Or.inr rfl
      | false => exact absurd hdrain (horderly hqueue haborted drain)
  · exact ⟨(h.resolved hshut).1, (h.resolved hshut).2.1⟩

theorem flush (h : s.Inv) (horderly : s.exporting = none → s.queue ≠ [] → s.aborted = false →
      ∀ drain, .waiting drain ∉ s.shutdowns) : s.flush.1.Inv := by
  unfold Exporter.flush
  cases hexporting : s.exporting with
  | some drain => exact h
  | none => exact h.startDrain hexporting (horderly hexporting)

theorem stop (h : s.Inv) : Inv { s with stopped := true } where
  shape := h.shape
  books := h.books.frame _ _ _ _ _
  waiting drain hdrain := ⟨rfl, (h.waiting drain hdrain).2⟩
  resolved hshut := ⟨rfl, (h.resolved hshut).2⟩

end Inv

theorem flush_stopped (s : Exporter) : s.flush.1.stopped = s.stopped := by
  unfold flush
  cases s.exporting with
  | some drain => rfl
  | none =>
    unfold startDrain
    cases loop_cases { s with exporting := some s.drains.length, drains := s.drains ++ [.left] }
        s.drains.length with
    | inl heq => rw [heq]
    | inr hsends =>
      have ⟨_, _, _, _, heq⟩ := hsends
      rw [heq]

theorem flush_exporting (s : Exporter) : s.flush.1.exporting = some s.flush.2 := by
  unfold flush
  cases hexporting : s.exporting with
  | some drain => exact hexporting
  | none =>
    unfold startDrain
    cases loop_cases { s with exporting := some s.drains.length, drains := s.drains ++ [.left] }
        s.drains.length with
    | inl heq => rw [heq]
    | inr hsends =>
      have ⟨_, _, _, _, heq⟩ := hsends
      rw [heq]

namespace Inv

theorem shutdown (h : s.Inv) (horderly : s.exporting = none → s.queue ≠ [] → s.aborted = false →
      ∀ drain, .waiting drain ∉ s.shutdowns) : s.shutdown.Inv := by
  have hflush := h.stop.flush horderly
  have hexporting := flush_exporting { s with stopped := true }
  have hstopped := flush_stopped { s with stopped := true }
  unfold Exporter.shutdown
  generalize Exporter.flush { s with stopped := true } = flushed at *
  exact {
    shape := hflush.shape
    books := hflush.books.frame _ _ _ _ _
    waiting := fun drain hdrain => by
      cases List.mem_append.mp hdrain with
      | inl hold => exact hflush.waiting drain hold
      | inr hnew =>
        have heq : drain = flushed.2 := by simpa using hnew
        exact ⟨hstopped, fun hne => absurd hexporting (heq ▸ hne)⟩
    resolved := fun hshut => by
      cases List.mem_append.mp hshut with
      | inl hold => exact hflush.resolved hold
      | inr hnew => exact absurd hnew (by simp) }

/-- While the drain that runs holds an item, every `shutdown` that waits does so for it. -/
theorem waits_for (h : s.Inv) (hb : Busy before stage s) (hheld : stage.held ≠ []) :
    (∀ drain, .waiting drain ∈ s.shutdowns →
      s.stopped = true ∧ s.exporting = some drain) ∧ ¬ s.isShutDown := by
  have hne : s.inFlight ≠ [] := inFlight_of_busy hb ▸ hheld
  refine ⟨fun drain hdrain => ?_, fun hshut => hne (h.resolved hshut).2.2⟩
  have ⟨hstopped, hwaits⟩ := h.waiting drain hdrain
  refine ⟨hstopped, ?_⟩
  by_cases heq : s.exporting = some drain
  · exact heq
  · exact absurd (hwaits heq) hne

/-- The `finally` of a request, once its item is counted. -/
theorem release {item : ExportItem} {counted : Exporter} (h : s.Inv) (hb : Busy before stage s)
    (hheld : stage.held = [item]) (hbooks : Books [item] [] counted)
    (hdrains : counted.drains = s.drains) (hexporting : counted.exporting = s.exporting)
    (hshutdowns : counted.shutdowns = s.shutdowns) (hstopped : counted.stopped = s.stopped) :
    (counted.release before.length item).Inv := by
  have ⟨hwaits, hopen⟩ := h.waits_for hb (by simp [hheld])
  have hb' : Busy before stage counted := by
    unfold Busy
    rw [hdrains, hexporting]
    exact hb
  refine inv_loop hb' hbooks.release (fun drain hdrain => ?_) fun hshut => ?_
  · have ⟨hstop, hwait⟩ := hwaits drain (hshutdowns ▸ hdrain)
    exact ⟨hstopped.trans hstop, fun hne => absurd (hexporting.trans hwait) hne⟩
  · have hshut' : ShutdownStage.resolved ∈ counted.shutdowns := hshut
    rw [hshutdowns] at hshut'
    exact absurd hshut' hopen

/-- The drain that runs goes to another stage, with its item. -/
theorem advance {counted : Exporter} (h : s.Inv) (hb : Busy before stage s) (stage' : DrainStage)
    (hheld : stage.held ≠ []) (hruns : stage' ≠ .settled)
    (hbooks : Books stage'.held stage'.uncounted counted)
    (hdrains : counted.drains = s.drains) (hexporting : counted.exporting = s.exporting)
    (hshutdowns : counted.shutdowns = s.shutdowns) (hstopped : counted.stopped = s.stopped) :
    Inv { counted with drains := counted.drains.set before.length stage' } := by
  have hb' : Busy before stage'
      { counted with drains := counted.drains.set before.length stage' } := by
    show SingleFlight.Busy _ before stage' (counted.drains.set before.length stage')
      counted.exporting
    rw [hdrains, hexporting]
    exact hb.advance hruns
  have ⟨hwaits, hopen⟩ := h.waits_for hb hheld
  exact {
    shape := Or.inr ⟨before, stage', hb'⟩
    books := by
      rw [inFlight_of_busy hb', uncounted_of_busy hb']
      exact hbooks.frame _ _ _ _ _
    waiting := fun drain hdrain => by
      have ⟨hstop, hwait⟩ := hwaits drain (hshutdowns ▸ hdrain)
      exact ⟨hstopped.trans hstop, fun hne => absurd (hexporting.trans hwait) hne⟩
    resolved := fun hshut => by
      have hshut' : ShutdownStage.resolved ∈ counted.shutdowns := hshut
      rw [hshutdowns] at hshut'
      exact absurd hshut' hopen }

theorem booksOf (h : s.Inv) (hb : Busy before stage s) : Books stage.held stage.uncounted s := by
  rw [← inFlight_of_busy hb, ← uncounted_of_busy hb]
  exact h.books

theorem fetched {drain : Nat} {item : ExportItem} (h : s.Inv)
    (hd : s.drains[drain]? = some (.sending item)) (outcome : FetchOutcome) :
    (s.fetched drain item outcome).Inv := by
  have ⟨before, hb, heq⟩ := h.shape.busy_of_getElem? hd (by simp)
  have hbooks : Books [item] [item] s := h.booksOf hb
  subst heq
  cases outcome with
  | rejects =>
    exact h.release hb rfl (hbooks.count .failed) (count_drains _ _) (count_exporting _ _)
      (count_shutdowns _ _) (count_stopped _ _)
  | responds ok =>
    exact h.advance hb (.cancelling item ok) (by simp [DrainStage.held]) (by simp)
      hbooks rfl rfl rfl rfl

theorem cancelled {drain : Nat} {item : ExportItem} {ok : Bool} (h : s.Inv)
    (hd : s.drains[drain]? = some (.cancelling item ok)) (succeeds : Bool) :
    (s.cancelled drain item ok succeeds).Inv := by
  have ⟨before, hb, heq⟩ := h.shape.busy_of_getElem? hd (by simp)
  have hbooks : Books [item] [item] s := h.booksOf hb
  subst heq
  unfold Exporter.cancelled
  split
  · exact h.advance hb (.calling item) (by simp [DrainStage.held]) (by simp)
      (hbooks.count .exported) (count_drains _ _) (count_exporting _ _) (count_shutdowns _ _)
      (count_stopped _ _)
  · exact h.release hb rfl (hbooks.count .failed) (count_drains _ _) (count_exporting _ _)
      (count_shutdowns _ _) (count_stopped _ _)

theorem called {drain : Nat} {item : ExportItem} (h : s.Inv)
    (hd : s.drains[drain]? = some (.calling item)) : (s.release drain item).Inv := by
  have ⟨before, hb, heq⟩ := h.shape.busy_of_getElem? hd (by simp)
  have hbooks : Books [item] [] s := h.booksOf hb
  subst heq
  exact h.release hb rfl hbooks rfl rfl rfl rfl

theorem settle {drain : Nat} (h : s.Inv) (hd : s.drains[drain]? = some .left) :
    Inv { s with drains := s.drains.set drain .settled, exporting := none } := by
  have ⟨before, hb, heq⟩ := h.shape.busy_of_getElem? hd (by simp)
  have hbooks : Books [] [] s := h.booksOf hb
  subst heq
  have hidle : Idle { s with drains := s.drains.set before.length .settled, exporting := none } :=
    hb.settle .settled rfl
  exact {
    shape := Or.inl hidle
    books := by
      rw [inFlight_of_idle hidle, uncounted_of_idle hidle]
      exact hbooks.frame _ _ _ _ _
    waiting := fun drain hdrain => ⟨(h.waiting drain hdrain).1, fun _ => inFlight_of_idle hidle⟩
    resolved := fun hshut => ⟨(h.resolved hshut).1, (h.resolved hshut).2.1, inFlight_of_idle hidle⟩ }

theorem resume {shutdown drain : Nat} (h : s.Inv)
    (hwaiting : s.shutdowns[shutdown]? = some (.waiting drain))
    (hd : s.drains[drain]? = some .settled) : (s.resume shutdown).Inv := by
  have ⟨hstopped, hwaits⟩ := h.waiting drain (List.mem_of_getElem? hwaiting)
  have hnone := hwaits (h.shape.cell_ne hd rfl)
  have hbooks : Books [] [] s := by
    have hbooks := h.books
    rw [hnone, h.uncounted_nil hnone] at hbooks
    exact hbooks
  exact {
    shape := h.shape
    books := by
      have hinFlight : (s.resume shutdown).inFlight = [] := hnone
      have huncounted : (s.resume shutdown).uncounted = [] := h.uncounted_nil hnone
      rw [hinFlight, huncounted]
      exact hbooks.resume shutdown
    waiting := fun other hother => by
      cases List.mem_or_eq_of_mem_set hother with
      | inl hold => exact ⟨(h.waiting other hold).1, fun _ => hnone⟩
      | inr hnew => exact absurd hnew (by simp)
    resolved := fun _ => ⟨hstopped, rfl, hnone⟩ }

theorem abort (h : s.Inv) : Inv { s with aborted := true } where
  shape := h.shape
  books := h.books.frame _ _ _ _ _
  waiting := h.waiting
  resolved := h.resolved

end Inv

/-- What `enqueue` leaves as it is. -/
theorem enqueue_frame (s : Exporter) (signal : Signal) (body : Option (List UInt8)) :
    (s.enqueue signal body).drains = s.drains ∧
      (s.enqueue signal body).exporting = s.exporting ∧
      (s.enqueue signal body).shutdowns = s.shutdowns ∧
      (s.enqueue signal body).stopped = s.stopped ∧
      (s.stopped = true → (s.enqueue signal body).queue = s.queue) := by
  unfold enqueue
  dsimp only
  split
  · exact ⟨rfl, rfl, rfl, rfl, fun _ => rfl⟩
  · rename_i hopen
    cases body with
    | none => exact ⟨rfl, rfl, rfl, rfl, fun _ => rfl⟩
    | some body =>
      dsimp only
      split
      · exact ⟨rfl, rfl, rfl, rfl, fun _ => rfl⟩
      · exact ⟨rfl, rfl, rfl, rfl, fun hstopped => absurd hstopped hopen⟩

theorem Inv.enqueue (h : s.Inv) (signal : Signal) (body : Option (List UInt8)) :
    (s.enqueue signal body).Inv := by
  have ⟨hdrains, hexporting, hshutdowns, hstopped, hqueue⟩ := enqueue_frame s signal body
  have hinFlight : (s.enqueue signal body).inFlight = s.inFlight := by
    rw [inFlight, hdrains, inFlight]
  have huncounted : (s.enqueue signal body).uncounted = s.uncounted := by
    rw [uncounted, hdrains, uncounted]
  have hbooks := h.books.enqueue signal body
  exact {
    shape := by
      unfold Shape
      rw [hdrains, hexporting]
      exact h.shape
    books := by
      rw [hinFlight, huncounted]
      exact hbooks
    waiting := fun drain hdrain => by
      have ⟨hstop, hwaits⟩ := h.waiting drain (hshutdowns ▸ hdrain)
      rw [hstopped, hexporting, hinFlight]
      exact ⟨hstop, hwaits⟩
    resolved := fun hshut => by
      have hshut' : s.isShutDown := by
        rw [isShutDown, ← hshutdowns]
        exact hshut
      have ⟨hstop, hnil, hnone⟩ := h.resolved hshut'
      rw [hstopped, hqueue hstop, hinFlight]
      exact ⟨hstop, hnil, hnone⟩ }

/-- An orderly step keeps the invariant. -/
theorem Inv.step {t : Exporter} {e : ExporterEvent} (h : s.Inv) (horderly : s.Orderly e)
    (hstep : s.step e = some t) : t.Inv := by
  cases e with
  | enqueue signal body =>
    rw [← Option.some.inj hstep]
    exact h.enqueue signal body
  | flush =>
    rw [← Option.some.inj hstep]
    exact h.flush (horderly (Or.inl rfl))
  | tick =>
    simp only [Exporter.step, Option.ite_none_left_eq_some] at hstep
    rw [← Option.some.inj hstep.2]
    exact h.flush (horderly (Or.inr (Or.inl rfl)))
  | shutdown =>
    rw [← Option.some.inj hstep]
    exact h.shutdown (horderly (Or.inr (Or.inr rfl)))
  | deadline shutdown =>
    simp only [Exporter.step] at hstep
    split at hstep
    · rw [← Option.some.inj hstep]
      exact h.abort
    · exact absurd hstep (by simp)
  | fetched drain outcome =>
    simp only [Exporter.step] at hstep
    split at hstep
    · rename_i item hd
      rw [← Option.some.inj hstep]
      exact h.fetched hd outcome
    · exact absurd hstep (by simp)
  | cancelled drain succeeds =>
    simp only [Exporter.step] at hstep
    split at hstep
    · rename_i item ok hd
      rw [← Option.some.inj hstep]
      exact h.cancelled hd succeeds
    · exact absurd hstep (by simp)
  | called drain =>
    simp only [Exporter.step] at hstep
    split at hstep
    · rename_i item hd
      rw [← Option.some.inj hstep]
      exact h.called hd
    · exact absurd hstep (by simp)
  | settle drain =>
    simp only [Exporter.step] at hstep
    split at hstep
    · rename_i hd
      rw [← Option.some.inj hstep]
      exact h.settle hd
    · exact absurd hstep (by simp)
  | resume shutdown =>
    simp only [Exporter.step] at hstep
    split at hstep
    · rename_i drain hwaiting
      split at hstep
      · rename_i hd
        rw [← Option.some.inj hstep]
        exact h.resume hwaiting hd
      · exact absurd hstep (by simp)
    · exact absurd hstep (by simp)

theorem loop_nil (hqueue : s.queue = []) (drain : Nat) :
    s.loop drain = { s with drains := s.drains.set drain .left } := by
  cases loop_cases s drain with
  | inl heq => exact heq
  | inr hsends =>
    have ⟨_, _, hcons, _⟩ := hsends
    exact absurd (hqueue.symm.trans hcons) (by simp)

theorem flush_nil (hqueue : s.queue = []) :
    s.flush.1.sent = s.sent ∧ s.flush.1.shutdowns = s.shutdowns := by
  unfold flush
  cases s.exporting with
  | some drain => exact ⟨rfl, rfl⟩
  | none =>
    show s.startDrain.sent = s.sent ∧ s.startDrain.shutdowns = s.shutdowns
    have hloop := loop_nil
      (s := { s with exporting := some s.drains.length, drains := s.drains ++ [.left] }) hqueue
      s.drains.length
    rw [show s.startDrain = _ from hloop]
    exact ⟨rfl, rfl⟩

theorem enqueue_sent (s : Exporter) (signal : Signal) (body : Option (List UInt8)) :
    (s.enqueue signal body).sent = s.sent := by
  unfold enqueue
  dsimp only
  split
  · rfl
  · cases body with
    | none => rfl
    | some body =>
      dsimp only
      split <;> rfl

/-- A drain that is at an item holds it. -/
theorem Inv.not_shutDown {drain : Nat} (h : s.Inv) (hd : s.drains[drain]? = some stage)
    (hheld : stage.held ≠ []) : ¬ s.isShutDown := by
  have hruns : stage ≠ .settled := by
    intro heq
    rw [heq] at hheld
    exact hheld rfl
  have ⟨before, hb, _⟩ := h.shape.busy_of_getElem? hd hruns
  exact (h.waits_for hb hheld).2

/-- Once a `shutdown` is resolved, no step sends anything, and it stays resolved. -/
theorem Inv.sent_of_shutDown {t : Exporter} {e : ExporterEvent} (h : s.Inv)
    (hshut : s.isShutDown) (hstep : s.step e = some t) : t.sent = s.sent ∧ t.isShutDown := by
  have hqueue := (h.resolved hshut).2.1
  cases e with
  | enqueue signal body =>
    rw [← Option.some.inj hstep]
    have ⟨_, _, hshutdowns, _⟩ := enqueue_frame s signal body
    refine ⟨enqueue_sent s signal body, ?_⟩
    rw [isShutDown, hshutdowns]
    exact hshut
  | flush =>
    rw [← Option.some.inj hstep]
    have ⟨hsent, hshutdowns⟩ := flush_nil hqueue
    exact ⟨hsent, by rw [isShutDown, hshutdowns]; exact hshut⟩
  | tick =>
    simp only [Exporter.step, Option.ite_none_left_eq_some] at hstep
    rw [← Option.some.inj hstep.2]
    have ⟨hsent, hshutdowns⟩ := flush_nil hqueue
    exact ⟨hsent, by rw [isShutDown, hshutdowns]; exact hshut⟩
  | shutdown =>
    rw [← Option.some.inj hstep]
    have ⟨hsent, hshutdowns⟩ := flush_nil (s := { s with stopped := true }) hqueue
    have hmem : ShutdownStage.resolved ∈
        (Exporter.flush { s with stopped := true }).1.shutdowns := by
      rw [hshutdowns]
      exact hshut
    exact ⟨hsent, List.mem_append_left _ hmem⟩
  | deadline shutdown =>
    simp only [Exporter.step] at hstep
    split at hstep
    · rw [← Option.some.inj hstep]
      exact ⟨rfl, hshut⟩
    · exact absurd hstep (by simp)
  | fetched drain outcome =>
    simp only [Exporter.step] at hstep
    split at hstep
    · rename_i item hd
      exact absurd hshut (h.not_shutDown hd (by simp [DrainStage.held]))
    · exact absurd hstep (by simp)
  | cancelled drain succeeds =>
    simp only [Exporter.step] at hstep
    split at hstep
    · rename_i item ok hd
      exact absurd hshut (h.not_shutDown hd (by simp [DrainStage.held]))
    · exact absurd hstep (by simp)
  | called drain =>
    simp only [Exporter.step] at hstep
    split at hstep
    · rename_i item hd
      exact absurd hshut (h.not_shutDown hd (by simp [DrainStage.held]))
    · exact absurd hstep (by simp)
  | settle drain =>
    simp only [Exporter.step] at hstep
    split at hstep
    · rw [← Option.some.inj hstep]
      exact ⟨rfl, hshut⟩
    · exact absurd hstep (by simp)
  | resume shutdown =>
    simp only [Exporter.step] at hstep
    split at hstep
    · rename_i drain hwaiting
      split at hstep
      · rw [← Option.some.inj hstep]
        have hlt := (List.getElem?_eq_some_iff.mp hwaiting).1
        exact ⟨rfl, List.mem_set hlt .resolved⟩
      · exact absurd hstep (by simp)
    · exact absurd hstep (by simp)

theorem Inv.of_reaches {t : Exporter} (h : s.Inv) (hreach : Reaches Exporter.step Orderly s t) :
    t.Inv :=
  hreach.invariant Inv h fun _ _ _ hinv horderly hstep => hinv.step horderly hstep

/-- The accounts are right in every state of an orderly run, and nothing is sent after a `shutdown`
is resolved. -/
theorem orderly_accounts {s : Exporter} (h : Reaches step Orderly start s) :
    Accounts s ∧
      (s.isShutDown → ∀ t, Reaches step Orderly s t → t.sent = s.sent ∧ t.CountsEach) := by
  have hinv := inv_start.of_reaches h
  refine ⟨hinv.accounts, fun hshut t ht => ?_⟩
  have hafter : t.Inv ∧ t.sent = s.sent ∧ t.isShutDown :=
    ht.invariant (fun u => u.Inv ∧ u.sent = s.sent ∧ u.isShutDown) ⟨hinv, rfl, hshut⟩ (by
      intro a e b ⟨ha, hsent, hdown⟩ horderly hstep
      have ⟨hsame, hstays⟩ := ha.sent_of_shutDown hdown hstep
      exact ⟨ha.step horderly hstep, hsame.trans hsent, hstays⟩)
  exact ⟨hafter.2.1, hafter.1.accounts.counted hafter.2.2⟩

theorem orderly_accounts_flush : ∃ s : Exporter, s.sent.length = 1 ∧ Accounts s := by
  refine ⟨_, ?_, (orderly_accounts (.tail (.tail (l := .enqueue .logs (some [1])) .refl ?_ rfl)
    (l := .flush) ?_ rfl)).1⟩
  · rfl
  · intro h
    simp at h
  · intro _ _ _ _ drain
    exact List.not_mem_nil

/-- A flush between the end of a drain and the `shutdown` that waited for it. -/
def overtakingRun : List ExporterEvent :=
  [.enqueue .logs (some [1]), .flush, .fetched 0 (.responds true), .cancelled 0 true, .called 0,
    .enqueue .logs (some [2]), .shutdown, .settle 0, .flush, .resume 0]

theorem overtaken_shutdown : ¬ ∀ s, Reachable step start s → Accounts s := by
  intro h
  have hrun : (run step (fun _ _ => true) start overtakingRun).any (fun s =>
      decide (.resolved ∈ s.shutdowns) && decide (s.calls = 2) &&
        decide ((s.counted.map Prod.fst).count 1 = 0)) = true := by decide
  have hreach : ∃ t, Reachable step start t ∧ _ = true :=
    exists_reaches_of_run (fun _ _ _ => trivial) hrun
  have ⟨s, hs, htest⟩ := hreach
  simp only [Bool.and_eq_true, decide_eq_true_eq] at htest
  have ⟨⟨hshut, hcalls⟩, hcount⟩ := htest
  have hone := (h s hs).counted hshut 1 (by omega)
  exact absurd (hcount.symm.trans hone) (by decide)

end Wallow.Telemetry.Exporter
