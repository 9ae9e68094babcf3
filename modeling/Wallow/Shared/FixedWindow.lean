import Wallow.Lib.Expiring
import Wallow.Lib.Transition

/-!
# The fixed window

`RedisFixedWindowCounter.cs`, cut at its Redis commands.  The increment and the expiry are two of
them, and a call can end between the two: its reply is lost, the second command fails, or the
caller is gone.
-/

namespace Wallow.Shared.FixedWindow

open Transition

variable {κ : Type*} [DecidableEq κ]

/-! ## The commands -/

/-- `INCR`, which keeps the expiry of a live counter and gives a new one none. -/
def stringIncrement (counters : ExpiringMap κ Int) (now : Int) (key : κ) :
    Int × ExpiringMap κ Int :=
  match counters.alive now key with
  | none => (1, counters.put key 1 none)
  | some counter => (counter.value + 1, counters.put key (counter.value + 1) counter.expiresAt)

def keyExpire (counters : ExpiringMap κ Int) (now : Int) (key : κ) (window : Int) :
    ExpiringMap κ Int :=
  match counters.alive now key with
  | none => counters
  | some counter => counters.put key counter.value (some (now + window))

/-- `null` for a missing key and for one without an expiry. -/
def keyTimeToLive (counters : ExpiringMap κ Int) (now : Int) (key : κ) : Option Int :=
  (counters.alive now key).bind fun counter => counter.expiresAt.map (· - now)

/-- `GetRetryAfterAsync`, which changes nothing. -/
def getRetryAfter (counters : ExpiringMap κ Int) (now : Int) (key : κ) (window : Int) : Int :=
  match keyTimeToLive counters now key with
  | some remaining => if remaining > 0 then remaining else window
  | none => window

/-- The arguments of `IncrementAsync`. -/
structure Call (κ : Type*) where
  key : κ
  window : Int
  deriving DecidableEq

/-- What becomes of a command: it is executed and answered, executed with its reply lost, or not
executed.  The last two throw in the caller. -/
inductive Outcome
  | answered
  | lost
  | failed
  deriving DecidableEq

/-- `IncrementAsync` with nothing in between; no count where a command throws. -/
def increment (counters : ExpiringMap κ Int) (now : Int) (call : Call κ)
    (incremented expired : Outcome) : Option Int × ExpiringMap κ Int :=
  match incremented with
  | .failed => (none, counters)
  | .lost => (none, (stringIncrement counters now call.key).2)
  | .answered =>
    let (count, counters) := stringIncrement counters now call.key
    if count = 1 then
      match expired with
      | .failed => (none, counters)
      | .lost => (none, keyExpire counters now call.key call.window)
      | .answered => (some count, keyExpire counters now call.key call.window)
    else (some count, counters)

/-! ## Calls at the same time -/

/-- A command of a counted event, when it was executed. -/
structure Event (κ : Type*) where
  call : Call κ
  time : Int
  deriving DecidableEq

structure State (κ : Type*) where
  counters : ExpiringMap κ Int
  now : Int
  /-- The calls that are to set an expiry. -/
  pending : Nat → Option (Call κ)
  events : List (Event κ)

def State.initial (now : Int) : State κ := ⟨.empty, now, fun _ => none, []⟩

inductive Action (κ : Type*)
  | increment (id : Nat) (call : Call κ) (outcome : Outcome)
  | expire (id : Nat) (outcome : Outcome)
  /-- The caller is gone before its second command is sent. -/
  | cancel (id : Nat)
  | tick (elapsed : Nat)
  deriving DecidableEq

/-- The server counts the event. -/
def State.count (s : State κ) (call : Call κ) : State κ :=
  { s with
    counters := (stringIncrement s.counters s.now call.key).2
    events := ⟨call, s.now⟩ :: s.events }

/-- The server sets the expiry. -/
def State.expire (s : State κ) (call : Call κ) : State κ :=
  { s with
    counters := keyExpire s.counters s.now call.key call.window
    events := ⟨call, s.now⟩ :: s.events }

def State.start (s : State κ) (id : Nat) (call : Call κ) : State κ :=
  { s with pending := Function.update s.pending id (some call) }

def State.drop (s : State κ) (id : Nat) : State κ :=
  { s with pending := Function.update s.pending id none }

def step (s : State κ) : Action κ → Option (State κ)
  | .increment id call outcome =>
    match s.pending id, outcome with
    | some _, _ => none
    | none, .failed => some s
    | none, .lost => some (s.count call)
    | none, .answered =>
      if (stringIncrement s.counters s.now call.key).1 = 1 then
        some ((s.count call).start id call)
      else some (s.count call)
  | .expire id outcome =>
    match s.pending id with
    | none => none
    | some call =>
      if outcome = .failed then some (s.drop id) else some ((s.expire call).drop id)
  | .cancel id => (s.pending id).map fun _ => s.drop id
  | .tick elapsed => some { s with now := s.now + elapsed }

/-- No call ends between an increment that made its counter and the expiry that is due. -/
def completes (s : State κ) : Action κ → Bool
  | .increment _ call .lost => (s.counters.alive s.now call.key).isSome
  | .expire _ .failed => false
  | .cancel _ => false
  | _ => true

/-! ## Expiries -/

/-- No call is between its two commands on the key. -/
def AtRest (s : State κ) (key : κ) : Prop := ∀ id call, s.pending id = some call → call.key ≠ key

/-- If the counter exists, it lapses one window after an event that was counted on it. -/
def Windowed (s : State κ) (key : κ) : Prop :=
  ∀ counter, s.counters.alive s.now key = some counter →
    ∃ event ∈ s.events, event.call.key = key ∧
      counter.expiresAt = some (event.time + event.call.window)

def Expires (s : State κ) : Prop := ∀ key, AtRest s key → Windowed s key

/-- A call that is to set an expiry is the only one to do so on its counter, which has none. -/
structure Sound (s : State κ) : Prop where
  fresh : ∀ id call, s.pending id = some call → ∃ value, s.counters call.key = some ⟨value, none⟩
  unique : ∀ id id' call call', s.pending id = some call → s.pending id' = some call' →
    call.key = call'.key → id = id'
  positive : ∀ key counter, s.counters key = some counter → 1 ≤ counter.value

/-! ## One command -/

section Commands

variable {counters : ExpiringMap κ Int} {now : Int} {key : κ}

theorem stringIncrement_of_ne {other : κ} (h : other ≠ key) :
    (stringIncrement counters now key).2 other = counters other := by
  unfold stringIncrement
  cases counters.alive now key with
  | none => exact ExpiringMap.put_of_ne _ _ _ h
  | some counter => exact ExpiringMap.put_of_ne _ _ _ h

theorem stringIncrement_of_dead (h : counters.alive now key = none) :
    stringIncrement counters now key = (1, counters.put key 1 none) := by
  unfold stringIncrement
  rw [h]

theorem stringIncrement_of_alive {counter : Expiring Int}
    (h : counters.alive now key = some counter) :
    stringIncrement counters now key =
      (counter.value + 1, counters.put key (counter.value + 1) counter.expiresAt) := by
  unfold stringIncrement
  rw [h]

theorem stringIncrement_self_of_dead (h : counters.alive now key = none) :
    (stringIncrement counters now key).2 key = some ⟨1, none⟩ := by
  rw [stringIncrement_of_dead h]
  exact ExpiringMap.put_self _ _ _ _

theorem stringIncrement_self_of_alive {counter : Expiring Int}
    (h : counters.alive now key = some counter) :
    (stringIncrement counters now key).2 key = some ⟨counter.value + 1, counter.expiresAt⟩ := by
  rw [stringIncrement_of_alive h]
  exact ExpiringMap.put_self _ _ _ _

theorem keyExpire_of_ne {window : Int} {other : κ} (h : other ≠ key) :
    keyExpire counters now key window other = counters other := by
  unfold keyExpire
  cases counters.alive now key with
  | none => rfl
  | some counter => exact ExpiringMap.put_of_ne _ _ _ h

theorem keyExpire_of_alive {window : Int} {counter : Expiring Int}
    (h : counters.alive now key = some counter) :
    keyExpire counters now key window = counters.put key counter.value (some (now + window)) := by
  unfold keyExpire
  rw [h]

omit [DecidableEq κ] in
/-- Without an expiry a counter does not lapse. -/
theorem alive_of_fresh {value : Int} (h : counters key = some ⟨value, none⟩) :
    counters.alive now key = some ⟨value, none⟩ :=
  ExpiringMap.alive_eq_some_iff.mpr ⟨h, rfl⟩

end Commands

/-! ## The invariant -/

section Invariant

variable {s : State κ} {call : Call κ} {id : Nat}

/-- The first event of a window is the one that finds no counter. -/
theorem count_eq_one_iff (h : Sound s) (key : κ) :
    (stringIncrement s.counters s.now key).1 = 1 ↔ s.counters.alive s.now key = none := by
  cases hcounter : s.counters.alive s.now key with
  | none =>
    rw [stringIncrement_of_dead hcounter]
    exact iff_of_true rfl rfl
  | some counter =>
    rw [stringIncrement_of_alive hcounter]
    have hpos := h.positive key counter (ExpiringMap.alive_eq_some_iff.mp hcounter).1
    constructor
    · intro hone
      dsimp only at hone
      omega
    · intro hnone
      cases hnone

theorem Sound.count (h : Sound s) (call : Call κ) : Sound (s.count call) where
  fresh := by
    intro id pending hpending
    obtain ⟨value, hvalue⟩ := h.fresh id pending hpending
    by_cases hkey : pending.key = call.key
    · rw [hkey] at hvalue ⊢
      exact ⟨value + 1, stringIncrement_self_of_alive (alive_of_fresh hvalue)⟩
    · exact ⟨value, (stringIncrement_of_ne hkey).trans hvalue⟩
  unique := h.unique
  positive := by
    intro key counter hcounter
    by_cases hkey : key = call.key
    · subst hkey
      change (stringIncrement s.counters s.now call.key).2 call.key = _ at hcounter
      cases halive : s.counters.alive s.now call.key with
      | none =>
        rw [stringIncrement_self_of_dead halive] at hcounter
        cases hcounter
        exact Int.le_refl 1
      | some old =>
        rw [stringIncrement_self_of_alive halive] at hcounter
        cases hcounter
        have hpos := h.positive call.key old (ExpiringMap.alive_eq_some_iff.mp halive).1
        show 1 ≤ old.value + 1
        omega
    · change (stringIncrement s.counters s.now call.key).2 key = _ at hcounter
      rw [stringIncrement_of_ne hkey] at hcounter
      exact h.positive key counter hcounter

/-- A call that made its counter is the only one to be pending on it. -/
theorem Sound.start (h : Sound s) (hid : s.pending id = none)
    (hdead : s.counters.alive s.now call.key = none) : Sound ((s.count call).start id call) where
  fresh := by
    intro other pending hpending
    by_cases hother : other = id
    · subst hother
      change Function.update s.pending other (some call) other = some pending at hpending
      rw [Function.update_self] at hpending
      cases hpending
      exact ⟨1, stringIncrement_self_of_dead hdead⟩
    · change Function.update s.pending id (some call) other = some pending at hpending
      rw [Function.update_of_ne hother] at hpending
      exact (h.count call).fresh other pending hpending
  unique := by
    -- a pending call's counter is alive, and this one was not
    have hnone : ∀ other pending, s.pending other = some pending → pending.key ≠ call.key := by
      intro other pending hpending hkey
      obtain ⟨value, hvalue⟩ := h.fresh other pending hpending
      rw [hkey] at hvalue
      rw [alive_of_fresh hvalue] at hdead
      cases hdead
    intro i j c d hi hj hkey
    change Function.update s.pending id (some call) i = some c at hi
    change Function.update s.pending id (some call) j = some d at hj
    by_cases hi' : i = id
    · by_cases hj' : j = id
      · exact hi'.trans hj'.symm
      · rw [hi', Function.update_self] at hi
        rw [Function.update_of_ne hj'] at hj
        cases hi
        exact absurd hkey.symm (hnone j d hj)
    · rw [Function.update_of_ne hi'] at hi
      by_cases hj' : j = id
      · rw [hj', Function.update_self] at hj
        cases hj
        exact absurd hkey (hnone i c hi)
      · rw [Function.update_of_ne hj'] at hj
        exact h.unique i j c d hi hj hkey
  positive := (h.count call).positive

omit [DecidableEq κ] in
theorem drop_pending {other : Nat} {pending : Call κ}
    (h : (s.drop id).pending other = some pending) :
    other ≠ id ∧ s.pending other = some pending := by
  change Function.update s.pending id none other = some pending at h
  by_cases hother : other = id
  · rw [hother, Function.update_self] at h
    cases h
  · rw [Function.update_of_ne hother] at h
    exact ⟨hother, h⟩

omit [DecidableEq κ] in
theorem Sound.drop (h : Sound s) (id : Nat) : Sound (s.drop id) where
  fresh := fun other pending hpending => h.fresh other pending (drop_pending hpending).2
  unique := fun i j c d hi hj => h.unique i j c d (drop_pending hi).2 (drop_pending hj).2
  positive := h.positive

theorem Sound.expire (h : Sound s) (hid : s.pending id = some call) :
    Sound ((s.expire call).drop id) where
  fresh := by
    intro other pending hpending
    obtain ⟨hother, hpending⟩ := drop_pending hpending
    have hkey : pending.key ≠ call.key := fun hkey =>
      hother (h.unique other id pending call hpending hid hkey)
    obtain ⟨value, hvalue⟩ := h.fresh other pending hpending
    exact ⟨value, (keyExpire_of_ne hkey).trans hvalue⟩
  unique := (h.drop id).unique
  positive := by
    intro key counter hcounter
    change keyExpire s.counters s.now call.key call.window key = some counter at hcounter
    by_cases hkey : key = call.key
    · obtain ⟨value, hvalue⟩ := h.fresh id call hid
      rw [hkey, keyExpire_of_alive (alive_of_fresh hvalue), ExpiringMap.put_self] at hcounter
      cases hcounter
      exact h.positive call.key ⟨value, none⟩ hvalue
    · rw [keyExpire_of_ne hkey] at hcounter
      exact h.positive key counter hcounter

end Invariant

/-- What a step does, by what becomes of its command and whether the counter exists. -/
inductive Effect (s : State κ) : Action κ → State κ → Prop
  | uncounted (id : Nat) (call : Call κ) : Effect s (.increment id call .failed) s
  | counted (id : Nat) (call : Call κ) (outcome : Outcome) (counter : Expiring Int)
      (halive : s.counters.alive s.now call.key = some counter) :
      Effect s (.increment id call outcome) (s.count call)
  | made (id : Nat) (call : Call κ) (hid : s.pending id = none)
      (hdead : s.counters.alive s.now call.key = none) :
      Effect s (.increment id call .answered) ((s.count call).start id call)
  | unanswered (id : Nat) (call : Call κ) (hdead : s.counters.alive s.now call.key = none) :
      Effect s (.increment id call .lost) (s.count call)
  | expiring (id : Nat) (call : Call κ) (outcome : Outcome) (houtcome : outcome ≠ .failed)
      (hid : s.pending id = some call) : Effect s (.expire id outcome) ((s.expire call).drop id)
  | refused (id : Nat) (call : Call κ) (hid : s.pending id = some call) :
      Effect s (.expire id .failed) (s.drop id)
  | cancelled (id : Nat) (call : Call κ) (hid : s.pending id = some call) :
      Effect s (.cancel id) (s.drop id)
  | elapsed (elapsed : Nat) : Effect s (.tick elapsed) { s with now := s.now + elapsed }

theorem effect_of_step {s t : State κ} {action : Action κ} (h : Sound s)
    (hstep : step s action = some t) : Effect s action t := by
  cases action with
  | increment id call outcome =>
    cases hid : s.pending id with
    | some other =>
      simp only [step, hid] at hstep
      cases hstep
    | none =>
      cases outcome with
      | failed =>
        simp only [step, hid] at hstep
        cases hstep
        exact .uncounted id call
      | lost =>
        simp only [step, hid] at hstep
        cases hstep
        cases halive : s.counters.alive s.now call.key with
        | none => exact .unanswered id call halive
        | some counter => exact .counted id call .lost counter halive
      | answered =>
        simp only [step, hid, count_eq_one_iff h] at hstep
        cases halive : s.counters.alive s.now call.key with
        | none =>
          rw [if_pos halive] at hstep
          cases hstep
          exact .made id call hid halive
        | some counter =>
          rw [if_neg (by rw [halive]; exact Option.some_ne_none _)] at hstep
          cases hstep
          exact .counted id call .answered counter halive
  | expire id outcome =>
    cases hid : s.pending id with
    | none =>
      simp only [step, hid] at hstep
      cases hstep
    | some call =>
      simp only [step, hid] at hstep
      by_cases hfailed : outcome = .failed
      · rw [if_pos hfailed] at hstep
        cases hstep
        exact hfailed ▸ .refused id call hid
      · rw [if_neg hfailed] at hstep
        cases hstep
        exact .expiring id call outcome hfailed hid
  | cancel id =>
    obtain ⟨call, hid, rfl⟩ := Option.map_eq_some_iff.mp hstep
    exact .cancelled id call hid
  | tick elapsed =>
    cases hstep
    exact .elapsed elapsed

/-- Whatever becomes of the commands, the pending calls stay apart. -/
theorem Sound.step {s t : State κ} {action : Action κ} (h : Sound s)
    (hstep : FixedWindow.step s action = some t) : Sound t := by
  cases effect_of_step h hstep with
  | uncounted id call => exact h
  | counted id call outcome counter halive => exact h.count call
  | made id call hid hdead => exact h.start hid hdead
  | unanswered id call hdead => exact h.count call
  | expiring id call outcome houtcome hid => exact h.expire hid
  | refused id call hid => exact h.drop id
  | cancelled id call hid => exact h.drop id
  | elapsed elapsed => exact ⟨h.fresh, h.unique, h.positive⟩

omit [DecidableEq κ] in
theorem sound_initial (now : Int) : Sound (State.initial now : State κ) where
  fresh := fun _ _ hnone => nomatch hnone
  unique := fun _ _ _ _ hnone => nomatch hnone
  positive := fun _ _ hnone => nomatch hnone

/-! ## Whose counters expire -/

section Expires

variable {s : State κ} {call : Call κ} {id : Nat} {key : κ}

omit [DecidableEq κ] in
/-- The counter as it was, with at least the events there were. -/
theorem Windowed.of_frame {t : State κ} (h : Windowed s key)
    (hcounter : t.counters key = s.counters key) (hnow : s.now ≤ t.now)
    (hevents : ∀ event ∈ s.events, event ∈ t.events) : Windowed t key := by
  intro counter halive
  obtain ⟨hkey, hlater⟩ := ExpiringMap.alive_eq_some_iff.mp halive
  rw [hcounter] at hkey
  have hbefore := ExpiringMap.alive_eq_some_iff.mpr ⟨hkey, Expiring.isAlive_anti hnow hlater⟩
  obtain ⟨event, hmem, hevent⟩ := h counter hbefore
  exact ⟨event, hevents event hmem, hevent⟩

/-- Counting an event on a counter that exists keeps its expiry. -/
theorem Windowed.count {counter : Expiring Int}
    (halive : s.counters.alive s.now call.key = some counter) (h : Windowed s call.key) :
    Windowed (s.count call) call.key := by
  intro after hafter
  have hkey := (ExpiringMap.alive_eq_some_iff.mp hafter).1
  change (stringIncrement s.counters s.now call.key).2 call.key = some after at hkey
  rw [stringIncrement_self_of_alive halive] at hkey
  cases hkey
  obtain ⟨event, hmem, hevent⟩ := h counter halive
  exact ⟨event, List.mem_cons_of_mem _ hmem, hevent⟩

theorem windowed_count_of_ne (hkey : key ≠ call.key) (h : Windowed s key) :
    Windowed (s.count call) key :=
  h.of_frame (stringIncrement_of_ne hkey) (Int.le_refl _) fun _ => List.mem_cons_of_mem _

theorem Expires.count {counter : Expiring Int}
    (halive : s.counters.alive s.now call.key = some counter) (h : Expires s) :
    Expires (s.count call) := by
  intro key hrest
  by_cases hkey : key = call.key
  · subst hkey
    exact (h call.key hrest).count halive
  · exact windowed_count_of_ne hkey (h key hrest)

theorem Expires.start (hid : s.pending id = none) (h : Expires s) :
    Expires ((s.count call).start id call) := by
  intro key hrest
  have hkey : key ≠ call.key := by
    rintro rfl
    exact hrest id call (Function.update_self _ _ _) rfl
  have hbefore : AtRest s key := by
    intro other pending hpending
    refine hrest other pending ?_
    have hother : other ≠ id := by
      rintro rfl
      rw [hid] at hpending
      cases hpending
    exact (Function.update_of_ne hother _ _).trans hpending
  exact windowed_count_of_ne hkey (h key hbefore)

theorem Expires.expire (hsound : Sound s) (hid : s.pending id = some call) (h : Expires s) :
    Expires ((s.expire call).drop id) := by
  intro key hrest
  by_cases hkey : key = call.key
  · subst hkey
    intro counter hcounter
    obtain ⟨value, hvalue⟩ := hsound.fresh id call hid
    have hset := (ExpiringMap.alive_eq_some_iff.mp hcounter).1
    change keyExpire s.counters s.now call.key call.window call.key = some counter at hset
    rw [keyExpire_of_alive (alive_of_fresh hvalue), ExpiringMap.put_self] at hset
    cases hset
    exact ⟨⟨call, s.now⟩, List.mem_cons_self, rfl, rfl⟩
  · have hbefore : AtRest s key := by
      intro other pending hpending
      by_cases hother : other = id
      · rw [hother, hid] at hpending
        cases hpending
        exact Ne.symm hkey
      · exact hrest other pending ((Function.update_of_ne hother _ _).trans hpending)
    exact (h key hbefore).of_frame (keyExpire_of_ne hkey) (Int.le_refl _)
      fun _ => List.mem_cons_of_mem _

omit [DecidableEq κ] in
/-- A counter that no call is to give an expiry does not lapse. -/
theorem not_expires_of_fresh {value : Int} (hkey : s.counters key = some ⟨value, none⟩)
    (hrest : AtRest s key) : ¬Expires s := by
  intro h
  obtain ⟨event, -, -, hnone⟩ := h key hrest _ (alive_of_fresh hkey)
  cases hnone

omit [DecidableEq κ] in
theorem not_expires_drop (hsound : Sound s) (hid : s.pending id = some call) :
    ¬Expires (s.drop id) := by
  obtain ⟨value, hvalue⟩ := hsound.fresh id call hid
  refine not_expires_of_fresh (s := s.drop id) hvalue fun other pending hpending hkey => ?_
  obtain ⟨hother, hpending⟩ := drop_pending hpending
  exact hother (hsound.unique other id pending call hpending hid hkey)

/-- A step keeps the expiries exactly when no call ends in the middle by it. -/
theorem expires_step_iff {t : State κ} {action : Action κ} (hsound : Sound s) (h : Expires s)
    (hstep : step s action = some t) : Expires t ↔ completes s action = true := by
  cases effect_of_step hsound hstep with
  | uncounted id call => exact iff_of_true h rfl
  | counted id call outcome counter halive =>
    refine iff_of_true (h.count halive) ?_
    cases outcome with
    | answered => rfl
    | failed => rfl
    | lost =>
      show (s.counters.alive s.now call.key).isSome = true
      rw [halive]
      rfl
  | made id call hid hdead => exact iff_of_true (h.start hid) rfl
  | unanswered id call hdead =>
    -- the counter is made, and the caller that made it does not know
    refine iff_of_false ?_ ?_
    · refine not_expires_of_fresh (stringIncrement_self_of_dead hdead) ?_
      intro other pending hpending hkey
      obtain ⟨value, hvalue⟩ := hsound.fresh other pending hpending
      rw [hkey] at hvalue
      rw [alive_of_fresh hvalue] at hdead
      cases hdead
    · show ¬(s.counters.alive s.now call.key).isSome = true
      rw [hdead]
      exact Bool.false_ne_true
  | expiring id call outcome houtcome hid =>
    refine iff_of_true (h.expire hsound hid) ?_
    cases outcome with
    | answered => rfl
    | lost => rfl
    | failed => exact absurd rfl houtcome
  | refused id call hid => exact iff_of_false (not_expires_drop hsound hid) Bool.false_ne_true
  | cancelled id call hid => exact iff_of_false (not_expires_drop hsound hid) Bool.false_ne_true
  | elapsed elapsed =>
    refine iff_of_true (fun key hrest => ?_) rfl
    exact (h key hrest).of_frame rfl (by show s.now ≤ s.now + elapsed; omega) fun _ => id

end Expires

/-! ## Runs -/

/-- The pending calls are apart, and the counters at rest expire. -/
structure Consistent (s : State κ) : Prop where
  sound : Sound s
  expires : Expires s

omit [DecidableEq κ] in
theorem consistent_initial (now : Int) : Consistent (State.initial now : State κ) where
  sound := sound_initial now
  expires := fun _ _ _ halive => nomatch halive

theorem Consistent.step {s t : State κ} {action : Action κ} (h : Consistent s)
    (hcompletes : completes s action = true) (hstep : FixedWindow.step s action = some t) :
    Consistent t where
  sound := h.sound.step hstep
  expires := (expires_step_iff h.sound h.expires hstep).mpr hcompletes

/-- Along every run the counters on which no call is under way expire, and are over a limit for no
longer than a window after an event counted on them, exactly as long as no call ends between the
increment that made its counter and the expiry. -/
theorem counters_expire_iff_calls_complete (now : Int) :
    (∀ t : State κ,
      Reaches step (fun s action => completes s action = true) (State.initial now) t →
      ∀ key, AtRest t key → ∀ counter, t.counters.alive t.now key = some counter →
        counter.expiresAt ≠ none ∧ ∀ limit, limit < counter.value →
          ∃ event ∈ t.events, event.call.key = key ∧ t.now < event.time + event.call.window) ∧
    ∀ (actions : List (Action κ)) (t : State κ),
      follow step (State.initial now) actions = some t →
      (Throughout step Expires (State.initial now) actions ↔
        run step completes (State.initial now) actions = some t) := by
  constructor
  · intro t hreaches key hrest counter halive
    have hconsistent := hreaches.invariant Consistent (consistent_initial now)
      fun a l b hinv hcompletes hstep => hinv.step hcompletes hstep
    obtain ⟨event, hmem, hkey, hexpiry⟩ := hconsistent.expires key hrest counter halive
    refine ⟨by rw [hexpiry]; exact Option.some_ne_none _, fun limit _ => ?_⟩
    refine ⟨event, hmem, hkey, ?_⟩
    have hlater := (ExpiringMap.alive_eq_some_iff.mp halive).2
    unfold Expiring.isAlive at hlater
    rw [hexpiry] at hlater
    exact of_decide_eq_true hlater
  · intro actions t hrun
    have hinitial : Consistent (State.initial now : State κ) := consistent_initial now
    exact run_iff_throughout hinitial hinitial.expires
      (fun a l b hinv hcompletes hstep => hinv.step hcompletes hstep)
      (fun a l b hinv hstep => expires_step_iff hinv.sound hinv.expires hstep) hrun

/-- One failed command, and a counter over its limit of three that is there ten windows after the
last event. -/
theorem failed_expiry_leaves_counter :
    ∃ actions t, follow step (State.initial 0 : State String) actions = some t ∧
      (∀ id, t.pending id = none) ∧
      t.counters.alive t.now "pwdless:rate:ada@example.test" = some ⟨4, none⟩ ∧
      ∀ event ∈ t.events, event.time + 10 * event.call.window ≤ t.now := by
  let call : Call String := ⟨"pwdless:rate:ada@example.test", 900⟩
  refine ⟨[.increment 0 call .answered, .expire 0 .failed, .increment 1 call .answered,
    .increment 2 call .answered, .tick 60, .increment 3 call .answered, .tick 9000], _, rfl, ?_,
    by decide +kernel, by decide +kernel⟩
  intro id
  show Function.update (Function.update (fun _ => none) 0 (some call)) 0 none id = none
  by_cases hid : id = 0
  · rw [hid, Function.update_self]
  · rw [Function.update_of_ne hid, Function.update_of_ne hid]

/-! ## A counter without an expiry -/

/-- Counting on a counter without an expiry. -/
theorem increment_of_fresh {counters : ExpiringMap κ Int} {call : Call κ} {value : Int}
    (hkey : counters call.key = some ⟨value, none⟩) (hpos : 1 ≤ value) (now : Int)
    (expired : Outcome) : increment counters now call .answered expired =
      (some (value + 1), counters.put call.key (value + 1) none) := by
  unfold increment
  rw [stringIncrement_of_alive (alive_of_fresh hkey)]
  dsimp only
  rw [if_neg (by omega)]

/-- It stays, however long, and only grows. -/
theorem fresh_of_reachable {s t : State κ} {key : κ} {value : Int} (hsound : Sound s)
    (hkey : s.counters key = some ⟨value, none⟩) (hrest : AtRest s key)
    (h : Reachable step s t) :
    AtRest t key ∧ ∃ value', value ≤ value' ∧ t.counters key = some ⟨value', none⟩ := by
  have hinv := h.invariant (fun a => Sound a ∧ AtRest a key ∧
      ∃ value', value ≤ value' ∧ a.counters key = some ⟨value', none⟩)
    ⟨hsound, hrest, value, Int.le_refl _, hkey⟩ ?_
  · exact hinv.2
  rintro a l b ⟨ha, harest, old, hle, hold⟩ - hstep
  refine ⟨ha.step hstep, ?_⟩
  have hcount : ∀ call : Call κ,
      ∃ value', value ≤ value' ∧ (a.count call).counters key = some ⟨value', none⟩ := by
    intro call
    by_cases hsame : key = call.key
    · subst hsame
      exact ⟨old + 1, by omega, stringIncrement_self_of_alive (alive_of_fresh hold)⟩
    · exact ⟨old, hle, (stringIncrement_of_ne hsame).trans hold⟩
  have hdrop : ∀ id, AtRest (a.drop id) key := fun id other pending hpending =>
    harest other pending (drop_pending hpending).2
  cases effect_of_step ha hstep with
  | uncounted id call => exact ⟨harest, old, hle, hold⟩
  | counted id call outcome counter halive => exact ⟨harest, hcount call⟩
  | made id call hid hdead =>
    refine ⟨fun other pending hpending => ?_, hcount call⟩
    by_cases hother : other = id
    · -- the counter that is made is another one
      change Function.update a.pending id (some call) other = some pending at hpending
      rw [hother, Function.update_self] at hpending
      cases hpending
      rintro rfl
      rw [alive_of_fresh hold] at hdead
      cases hdead
    · exact harest other pending ((Function.update_of_ne hother _ _).symm.trans hpending)
  | unanswered id call hdead => exact ⟨harest, hcount call⟩
  | expiring id call outcome houtcome hid =>
    have hne : key ≠ call.key := (harest id call hid).symm
    exact ⟨hdrop id, old, hle, (keyExpire_of_ne hne).trans hold⟩
  | refused id call hid => exact ⟨hdrop id, old, hle, hold⟩
  | cancelled id call hid => exact ⟨hdrop id, old, hle, hold⟩
  | elapsed elapsed => exact ⟨harest, old, hle, hold⟩

end Wallow.Shared.FixedWindow
