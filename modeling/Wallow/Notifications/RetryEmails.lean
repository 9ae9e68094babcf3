import Wallow.Lib.Transition
import Wallow.Primitives
import Mathlib.Data.List.Nodup

/-!
# Retries of failed e-mails

`RetryFailedEmailsJob`: a run reads the failed messages, hands them to the mail service one by one
and records all outcomes with one save at its end.  Runs may overlap, be cancelled, and fail to
save.
-/

namespace Wallow.Notifications

open Transition

inductive EmailStatus
  | pending | sent | failed
  deriving DecidableEq

/-- What `SendAsync` is given. -/
structure EmailEnvelope where
  to_ : String
  from_ : Option String
  subject : String
  body : String
  deriving DecidableEq

structure EmailMessage where
  id : Guid
  envelope : EmailEnvelope
  status : EmailStatus
  sentAt : Option Instant
  failureReason : Option String
  retryCount : Nat
  updatedAt : Option Instant
  deriving DecidableEq

namespace EmailMessage

def markAsSent (m : EmailMessage) (now : Instant) : EmailMessage :=
  { m with status := .sent, sentAt := some now, updatedAt := some now }

def markAsFailed (m : EmailMessage) (reason : String) (now : Instant) : EmailMessage :=
  { m with
    status := .failed, failureReason := some reason, retryCount := m.retryCount + 1,
    updatedAt := some now }

def resetForRetry (m : EmailMessage) (now : Instant) : EmailMessage :=
  { m with status := .pending, failureReason := none, updatedAt := some now }

/-- The `UPDATE` of a tracked message: the columns that differ from what was read. -/
def saveColumns (original current row : EmailMessage) : EmailMessage where
  id := row.id
  envelope := row.envelope
  status := if current.status = original.status then row.status else current.status
  sentAt := if current.sentAt = original.sentAt then row.sentAt else current.sentAt
  failureReason :=
    if current.failureReason = original.failureReason then row.failureReason
    else current.failureReason
  retryCount :=
    if current.retryCount = original.retryCount then row.retryCount else current.retryCount
  updatedAt := if current.updatedAt = original.updatedAt then row.updatedAt else current.updatedAt

@[simp] theorem saveColumns_self (original row : EmailMessage) :
    saveColumns original original row = row := by
  simp [saveColumns]

/-- On the row as it was read, the save leaves the message as the run has it. -/
theorem saveColumns_original (original current : EmailMessage) (hid : current.id = original.id)
    (henvelope : current.envelope = original.envelope) :
    saveColumns original current original = current := by
  simp only [saveColumns]
  have hcolumn : ∀ {α : Type} [DecidableEq α] (a b : α), (if b = a then a else b) = b := by
    intro α _ a b
    split
    · rename_i h
      exact h.symm
    · rfl
  simp only [hcolumn, ← hid, ← henvelope]

end EmailMessage

def maxRetries : Nat := 3
def fetchLimit : Nat := 100

/-- A row, with what a reader wants to know of it: the retries counted when it came, the hand-overs
to the mail service since then in the order they began in, `none` for one under way, how many of
them the row records, and the run of the last one. -/
structure StoredEmail where
  message : EmailMessage
  initialRetries : Nat
  handOvers : List (Option Bool)
  recorded : Nat
  lastRun : Option Nat
  deriving DecidableEq

def StoredEmail.arrived (message : EmailMessage) : StoredEmail :=
  ⟨message, message.retryCount, [], 0, none⟩

/-- A message a run has read, with the number of hand-overs the row recorded then and the hand-over
of the run, if there was one. -/
structure TrackedEmail where
  original : EmailMessage
  current : EmailMessage
  recordedWhenRead : Nat
  handOver : Option Nat
  deriving DecidableEq

structure RetryRun where
  /-- The messages the loop is past. -/
  done : List TrackedEmail
  /-- The message that is with the mail service. -/
  sending : Option TrackedEmail
  todo : List TrackedEmail
  cancelled : Bool
  ended : Bool
  deriving DecidableEq

def RetryRun.tracked (r : RetryRun) : List TrackedEmail := r.done ++ r.sending.toList ++ r.todo

structure Emails where
  stored : List StoredEmail
  runs : List RetryRun
  deriving DecidableEq

inductive EmailsMove
  /-- Someone else's message comes in. -/
  | insert (message : EmailMessage)
  /-- A run begins, and `GetFailedRetryableAsync` returns the messages with these ids. -/
  | start (ids : List Guid)
  | cancel (i : Nat)
  /-- The next message of the `i`-th run goes to the mail service. -/
  | send (i : Nat) (now : Instant)
  /-- `SendAsync` returns or throws. -/
  | answer (i : Nat) (success : Bool) (reason : String) (now : Instant)
  /-- `SaveChangesAsync` after the loop. -/
  | save (i : Nat) (committed : Bool)
  | crash (i : Nat)
  deriving DecidableEq

/-- `Failed` and below the maximum. -/
def retryable (m : EmailMessage) : Bool :=
  m.status = .failed && m.retryCount < maxRetries

/-- An answer of `GetFailedRetryableAsync`: ordered by the retries, with no message left out unless
the limit is reached with messages that have no more retries. -/
def isFetch (stored : List StoredEmail) (fetched : List StoredEmail) : Bool :=
  (fetched.map (·.message.id)).Nodup && (fetched.all fun e => retryable e.message) &&
    fetched.length ≤ fetchLimit &&
    decide (fetched.Pairwise fun a b => a.message.retryCount ≤ b.message.retryCount) &&
    stored.all fun e => !retryable e.message || fetched.contains e ||
      (fetched.length = fetchLimit &&
        fetched.all fun f => f.message.retryCount ≤ e.message.retryCount)

def track (e : StoredEmail) : TrackedEmail := ⟨e.message, e.message, e.recorded, none⟩

namespace Emails

def start (messages : List EmailMessage) : Emails :=
  ⟨messages.map .arrived, []⟩

def find (s : Emails) (id : Guid) : Option StoredEmail :=
  s.stored.find? (·.message.id = id)

/-- A change of the row with this id, or of what is known of it. -/
def change (s : Emails) (id : Guid) (f : StoredEmail → StoredEmail) : Emails :=
  { s with stored := s.stored.map fun e => if e.message.id = id then f e else e }

def setRun (s : Emails) (i : Nat) (run : RetryRun) : Emails :=
  { s with runs := s.runs.set i run }

def beginHandOver (i : Nat) (e : StoredEmail) : StoredEmail :=
  { e with handOvers := e.handOvers ++ [none], lastRun := some i }

def send (s : Emails) (i : Nat) (now : Instant) (run : RetryRun) : Option Emails :=
  match run.ended || run.cancelled, run.sending, run.todo with
  | false, none, t :: rest =>
    let handOver := (s.find t.original.id).map (·.handOvers.length)
    some ((s.change t.original.id (beginHandOver i)).setRun i
      { run with
        sending := some { t with current := t.current.resetForRetry now, handOver := handOver }
        todo := rest })
  | _, _, _ => none

def endHandOver (handOver : Nat) (success : Bool) (e : StoredEmail) : StoredEmail :=
  { e with handOvers := e.handOvers.set handOver (some success) }

def answered (t : TrackedEmail) (success : Bool) (reason : String) (now : Instant) : TrackedEmail :=
  { t with
    current := if success then t.current.markAsSent now else t.current.markAsFailed reason now }

def answer (s : Emails) (i : Nat) (success : Bool) (reason : String) (now : Instant)
    (run : RetryRun) : Option Emails :=
  match run.ended, run.sending with
  | false, some t =>
    some ((s.change t.original.id (endHandOver (t.handOver.getD 0) success)).setRun i
      { run with done := run.done ++ [answered t success reason now], sending := none })
  | _, _ => none

/-- The `UPDATE` of one message. -/
def recordOne (t : TrackedEmail) (e : StoredEmail) : StoredEmail :=
  { e with
    message := EmailMessage.saveColumns t.original t.current e.message
    recorded := if t.handOver.isSome then e.recorded + 1 else e.recorded }

/-- The rows after a save that has committed. -/
def record (s : Emails) (done : List TrackedEmail) : Emails :=
  done.foldl (fun s t => s.change t.original.id (recordOne t)) s

/-- The save comes after the last message or after a cancellation, and a cancelled one does not
commit. -/
def save (s : Emails) (i : Nat) (committed : Bool) (run : RetryRun) : Option Emails :=
  if run.ended || run.sending.isSome || (!run.todo.isEmpty && !run.cancelled) ||
      (committed && run.cancelled) then none
  else some ((if committed then s.record run.done else s).setRun i { run with ended := true })

def step (s : Emails) : EmailsMove → Option Emails
  | .insert message =>
    if (s.find message.id).isSome then none
    else some { s with stored := s.stored ++ [.arrived message] }
  | .start ids =>
    let fetched := ids.filterMap s.find
    if fetched.map (·.message.id) = ids ∧ isFetch s.stored fetched then
      some { s with runs := s.runs ++ [⟨[], none, fetched.map track, false, false⟩] }
    else none
  | .cancel i => (s.runs[i]?).map fun run => s.setRun i { run with cancelled := true }
  | .send i now => (s.runs[i]?).bind (s.send i now)
  | .answer i success reason now => (s.runs[i]?).bind (s.answer i success reason now)
  | .save i committed => (s.runs[i]?).bind (s.save i committed)
  | .crash i => (s.runs[i]?).map fun run => s.setRun i { run with ended := true }

/-! ## The condition -/

/-- All hand-overs of the message so far had been recorded when this run read it. -/
def upToDate (s : Emails) (t : TrackedEmail) : Bool :=
  (s.find t.original.id).all fun e => e.handOvers.length = t.recordedWhenRead

def allowed (s : Emails) : EmailsMove → Bool
  | .send i _ => (s.runs[i]?).all fun run => run.todo.head?.all s.upToDate
  | _ => true

/-! ## Reading the state after a change -/

variable {s t : Emails}

theorem find_change (s : Emails) (x : Guid) (f : StoredEmail → StoredEmail)
    (hf : ∀ e, (f e).message.id = e.message.id) (id : Guid) :
    (s.change x f).find id = (s.find id).map fun e => if id = x then f e else e := by
  simp only [find, change]
  induction s.stored with
  | nil => rfl
  | cons e stored ih =>
    have hkeeps : (if e.message.id = x then f e else e).message.id = e.message.id := by
      split
      · exact hf e
      · rfl
    simp only [List.map_cons, List.find?_cons, hkeeps]
    by_cases hid : e.message.id = id
    · simp [hid]
    · simpa [hid] using ih

theorem find_change_of_ne (s : Emails) {x id : Guid} (f : StoredEmail → StoredEmail)
    (hf : ∀ e, (f e).message.id = e.message.id) (hne : id ≠ x) :
    (s.change x f).find id = s.find id := by
  rw [find_change s x f hf]
  simp [hne]

@[simp] theorem find_setRun (s : Emails) (i : Nat) (run : RetryRun) (id : Guid) :
    (s.setRun i run).find id = s.find id := rfl

@[simp] theorem change_runs (s : Emails) (x : Guid) (f : StoredEmail → StoredEmail) :
    (s.change x f).runs = s.runs := rfl

theorem message_id_of_find {id : Guid} {e : StoredEmail} (h : s.find id = some e) :
    e.message.id = id := by
  simpa using List.find?_some h

theorem beginHandOver_id (i : Nat) (e : StoredEmail) :
    (beginHandOver i e).message.id = e.message.id := rfl

theorem endHandOver_id (handOver : Nat) (success : Bool) (e : StoredEmail) :
    (endHandOver handOver success e).message.id = e.message.id := rfl

theorem recordOne_id (t : TrackedEmail) (e : StoredEmail) :
    (recordOne t e).message.id = e.message.id := rfl

/-- The save of a list of messages with different ids: each row takes the one with its id. -/
theorem find_record (done : List TrackedEmail) (hnodup : (done.map (·.original.id)).Nodup)
    (s : Emails) (id : Guid) :
    (s.record done).find id = (s.find id).map fun e =>
      ((done.find? (·.original.id = id)).map (recordOne · e)).getD e := by
  induction done generalizing s with
  | nil => simp [record]
  | cons t done ih =>
    rw [List.map_cons, List.nodup_cons] at hnodup
    rw [record, List.foldl_cons]
    rw [show List.foldl _ (s.change t.original.id (recordOne t)) done =
      (s.change t.original.id (recordOne t)).record done from rfl, ih hnodup.2,
      find_change s _ _ (recordOne_id t), Option.map_map]
    congr 1
    funext e
    by_cases hid : t.original.id = id
    · -- no later message has this id
      have hnone : done.find? (·.original.id = id) = none := by
        rw [List.find?_eq_none]
        intro t' ht' heq
        simp only [decide_eq_true_eq] at heq
        exact hnodup.1 (hid ▸ heq ▸ List.mem_map_of_mem ht')
      simp [hid, hnone]
    · simp [hid, Ne.symm hid]

@[simp] theorem record_runs (done : List TrackedEmail) (s : Emails) :
    (s.record done).runs = s.runs := by
  induction done generalizing s with
  | nil => rfl
  | cons t done ih => exact (ih (s.change t.original.id (recordOne t))).trans (change_runs s _ _)

/-! ## What holds of a row and of a message in a run -/

/-- A failed row counts each recorded hand-over, and none of them went well. -/
structure RowSound (e : StoredEmail) : Prop where
  recorded : e.recorded ≤ e.handOvers.length
  failed : e.message.status = .failed →
    e.message.retryCount = e.initialRetries + e.recorded ∧
      ∀ o ∈ e.handOvers.take e.recorded, o ≠ some true
  settled : ∀ o ∈ e.handOvers.dropLast, o ≠ some true
  bounded : e.initialRetries + e.handOvers.length ≤ max maxRetries e.initialRetries

/-- A message the loop has not come to. -/
structure Waiting (e : StoredEmail) (t : TrackedEmail) : Prop where
  handOver : t.handOver = none
  current : t.current = t.original
  read : t.recordedWhenRead ≤ e.recorded
  original : t.recordedWhenRead = e.recorded → t.original = e.message

/-- A message the run has handed over and not recorded: the row is as it was read, and no one else
has handed it over since. -/
structure Held (i : Nat) (e : StoredEmail) (t : TrackedEmail) : Prop where
  handOver : t.handOver = some e.recorded
  original : t.original = e.message
  length : e.handOvers.length = e.recorded + 1
  lastRun : e.lastRun = some i

/-- The outcome in the run's hands is the one of its hand-over. -/
def Agrees (e : StoredEmail) (t : TrackedEmail) : Prop :=
  ∃ success, e.handOvers[e.recorded]? = some (some success) ∧
    if success then t.current.status = .sent
    else t.current.status = .failed ∧ t.current.retryCount = t.original.retryCount + 1

/-- What is said of a message of the run, with the row of its id. -/
def OnRow (s : Emails) (P : StoredEmail → TrackedEmail → Prop) (t : TrackedEmail) : Prop :=
  ∃ e, s.find t.original.id = some e ∧ P e t

structure TrackedSound (t : TrackedEmail) : Prop where
  retryable : retryable t.original = true
  id : t.current.id = t.original.id
  envelope : t.current.envelope = t.original.envelope

structure RunSound (s : Emails) (i : Nat) (r : RetryRun) : Prop where
  nodup : (r.tracked.map (·.original.id)).Nodup
  tracked : ∀ t ∈ r.tracked, TrackedSound t
  todo : ∀ t ∈ r.todo, OnRow s Waiting t
  sending : ∀ t ∈ r.sending, OnRow s (Held i) t ∧ t.current.retryCount = t.original.retryCount
  done : ∀ t ∈ r.done, OnRow s (fun e t => Held i e t ∧ Agrees e t) t

structure Sound (s : Emails) : Prop where
  rows : ∀ id e, s.find id = some e → RowSound e
  runs : ∀ i r, s.runs[i]? = some r → r.ended = false → RunSound s i r

/-- A change of a row that the messages of run `i` do not notice. -/
structure Unnoticed (i : Nat) (e e' : StoredEmail) : Prop where
  waiting : ∀ t, Waiting e t → Waiting e' t
  held : ∀ t, Held i e t → Held i e' t
  agrees : ∀ t, Held i e t → Agrees e t → Agrees e' t

theorem Unnoticed.refl (i : Nat) (e : StoredEmail) : Unnoticed i e e :=
  ⟨fun _ h => h, fun _ h => h, fun _ _ h => h⟩

/-- A run stays sound when it notices no change of the rows of its messages. -/
theorem RunSound.mono {i : Nat} {r : RetryRun} (h : RunSound s i r)
    (hrows : ∀ t₀ ∈ r.tracked, ∀ e, s.find t₀.original.id = some e →
      ∃ e', t.find t₀.original.id = some e' ∧ Unnoticed i e e') : RunSound t i r where
  nodup := h.nodup
  tracked := h.tracked
  todo := by
    intro t₀ ht₀
    obtain ⟨e, hfind, hwaiting⟩ := h.todo t₀ ht₀
    obtain ⟨e', hfind', hsame⟩ := hrows t₀ (List.mem_append_right _ ht₀) e hfind
    exact ⟨e', hfind', hsame.waiting t₀ hwaiting⟩
  sending := by
    intro t₀ ht₀
    obtain ⟨⟨e, hfind, hheld⟩, hcount⟩ := h.sending t₀ ht₀
    have hmem : t₀ ∈ r.tracked :=
      List.mem_append_left _ (List.mem_append_right _ (Option.mem_toList.mpr ht₀))
    obtain ⟨e', hfind', hsame⟩ := hrows t₀ hmem e hfind
    exact ⟨⟨e', hfind', hsame.held t₀ hheld⟩, hcount⟩
  done := by
    intro t₀ ht₀
    obtain ⟨e, hfind, hheld, hagrees⟩ := h.done t₀ ht₀
    have hmem : t₀ ∈ r.tracked := List.mem_append_left _ (List.mem_append_left _ ht₀)
    obtain ⟨e', hfind', hsame⟩ := hrows t₀ hmem e hfind
    exact ⟨e', hfind', hsame.held t₀ hheld, hsame.agrees t₀ hheld hagrees⟩

/-! ### The three changes of a row -/

/-- A hand-over begins when all earlier ones are recorded, so no run holds the message. -/
theorem unnoticed_beginHandOver (i j : Nat) {e : StoredEmail}
    (hall : e.handOvers.length = e.recorded) : Unnoticed j e (beginHandOver i e) where
  waiting := fun _ h => ⟨h.handOver, h.current, h.read, h.original⟩
  held := by
    intro t h
    have hlength := h.length
    omega
  agrees := by
    intro t h
    have hlength := h.length
    omega

theorem rowSound_beginHandOver (i : Nat) {e : StoredEmail} (h : RowSound e)
    (hall : e.handOvers.length = e.recorded) (hretry : retryable e.message = true) :
    RowSound (beginHandOver i e) := by
  simp only [retryable, Bool.and_eq_true, decide_eq_true_eq] at hretry
  obtain ⟨hcount, hnone⟩ := h.failed hretry.1
  rw [← hall, List.take_length] at hnone
  refine ⟨?_, fun _ => ⟨hcount, ?_⟩, ?_, ?_⟩
  · simp only [beginHandOver, List.length_append, List.length_singleton]
    omega
  · intro o ho
    apply hnone
    simpa [beginHandOver, ← hall] using ho
  · intro o ho
    apply hnone
    simpa [beginHandOver] using ho
  · simp only [beginHandOver, List.length_append, List.length_singleton]
    omega

theorem unnoticed_endHandOver {i j : Nat} (hne : j ≠ i) {e : StoredEmail} {t : TrackedEmail}
    (hheld : Held i e t) (success : Bool) :
    Unnoticed j e (endHandOver (t.handOver.getD 0) success e) where
  waiting := fun _ h => ⟨h.handOver, h.current, h.read, h.original⟩
  held := by
    intro t' h
    have hlast := h.lastRun
    rw [hheld.lastRun, Option.some.injEq] at hlast
    exact absurd hlast.symm hne
  agrees := by
    intro t' h
    have hlast := h.lastRun
    rw [hheld.lastRun, Option.some.injEq] at hlast
    exact absurd hlast.symm hne

theorem held_endHandOver {i : Nat} {e : StoredEmail} {t : TrackedEmail} (hheld : Held i e t)
    (success : Bool) : Held i (endHandOver (t.handOver.getD 0) success e) t where
  handOver := hheld.handOver
  original := hheld.original
  length := by
    rw [endHandOver, List.length_set]
    exact hheld.length
  lastRun := hheld.lastRun

/-- The outcome is entered in the last place, after the recorded ones. -/
theorem rowSound_endHandOver {i : Nat} {e : StoredEmail} (h : RowSound e) {t : TrackedEmail}
    (hheld : Held i e t) (success : Bool) :
    RowSound (endHandOver (t.handOver.getD 0) success e) := by
  have hindex : t.handOver.getD 0 = e.recorded := by rw [hheld.handOver, Option.getD_some]
  have hlength := hheld.length
  refine ⟨?_, ?_, ?_, ?_⟩
  · simpa [endHandOver] using h.recorded
  · intro hfailed
    refine ⟨(h.failed hfailed).1, ?_⟩
    rw [endHandOver, hindex, List.take_set_of_le (Nat.le_refl e.recorded)]
    exact (h.failed hfailed).2
  · intro o ho
    apply h.settled o
    rw [endHandOver, hindex, List.dropLast_eq_take, List.length_set, hlength,
      Nat.add_sub_cancel, List.take_set_of_le (Nat.le_refl e.recorded)] at ho
    rwa [List.dropLast_eq_take, hlength, Nat.add_sub_cancel]
  · simpa [endHandOver] using h.bounded

/-- A run that holds a message is the only one to record it. -/
theorem unnoticed_recordOne {i j : Nat} (hne : j ≠ i) {e : StoredEmail} {t : TrackedEmail}
    (hheld : Held i e t) : Unnoticed j e (recordOne t e) where
  waiting := by
    intro t' h
    have hrecorded : (recordOne t e).recorded = e.recorded + 1 := by
      simp [recordOne, hheld.handOver]
    have hread := h.read
    refine ⟨h.handOver, h.current, by omega, fun heq => ?_⟩
    omega
  held := by
    intro t' h
    have hlast := h.lastRun
    rw [hheld.lastRun, Option.some.injEq] at hlast
    exact absurd hlast.symm hne
  agrees := by
    intro t' h
    have hlast := h.lastRun
    rw [hheld.lastRun, Option.some.injEq] at hlast
    exact absurd hlast.symm hne

theorem rowSound_recordOne {i : Nat} {e : StoredEmail} (h : RowSound e) {t : TrackedEmail}
    (hsound : TrackedSound t) (hheld : Held i e t) (hagrees : Agrees e t) :
    RowSound (recordOne t e) := by
  have hmessage : (recordOne t e).message = t.current := by
    rw [recordOne, ← hheld.original]
    exact EmailMessage.saveColumns_original _ _ hsound.id hsound.envelope
  have hrecorded : (recordOne t e).recorded = e.recorded + 1 := by
    simp [recordOne, hheld.handOver]
  have hretry := hsound.retryable
  simp only [retryable, hheld.original, Bool.and_eq_true, decide_eq_true_eq] at hretry
  obtain ⟨success, houtcome, hcurrent⟩ := hagrees
  refine ⟨?_, ?_, h.settled, h.bounded⟩
  · rw [hrecorded]
    exact Nat.le_of_eq hheld.length.symm
  · intro hfailed
    rw [hmessage] at hfailed ⊢
    cases success with
    | true =>
      rw [if_pos rfl, hfailed] at hcurrent
      cases hcurrent
    | false =>
      simp only [Bool.false_eq_true, if_false] at hcurrent
      obtain ⟨hcount, hnone⟩ := h.failed hretry.1
      refine ⟨?_, ?_⟩
      · rw [hcurrent.2, hheld.original, hcount, hrecorded]
        rfl
      · rw [hrecorded]
        intro o ho
        rw [show (recordOne t e).handOvers = e.handOvers from rfl, List.take_add_one, houtcome,
          List.mem_append] at ho
        cases ho with
        | inl hold => exact hnone o hold
        | inr hnew =>
          simp only [Option.toList_some, List.mem_singleton] at hnew
          rw [hnew]
          simp

/-! ### The steps -/

/-- A step that changes rows and one run. -/
theorem Sound.of_setRun (h : Sound s) {i : Nat} {r : RetryRun} (hruns : t.runs = s.runs.set i r)
    (hrows : ∀ id e, t.find id = some e → RowSound e)
    (hothers : ∀ j, j ≠ i → ∀ id e, s.find id = some e →
      ∃ e', t.find id = some e' ∧ Unnoticed j e e')
    (hrun : r.ended = false → RunSound t i r) : Sound t where
  rows := hrows
  runs := by
    intro j r' hr' hlive
    rw [hruns, List.getElem?_set] at hr'
    split at hr'
    · rename_i hij
      subst hij
      split at hr'
      · cases hr'
        exact hrun hlive
      · cases hr'
    · rename_i hij
      exact (h.runs j r' hr' hlive).mono fun t₀ _ e he => hothers j (Ne.symm hij) _ e he

/-- A step that changes one row and one run. -/
theorem Sound.of_change (h : Sound s) {i : Nat} {r : RetryRun} {x : Guid}
    {f : StoredEmail → StoredEmail} (hf : ∀ e, (f e).message.id = e.message.id)
    {e : StoredEmail} (he : s.find x = some e) (hrow : RowSound (f e))
    (hother : ∀ j, j ≠ i → Unnoticed j e (f e))
    (hrun : r.ended = false → RunSound (s.change x f) i r) :
    Sound ((s.change x f).setRun i r) := by
  have hfind : ∀ id e', s.find id = some e' →
      (s.change x f).find id = some (if id = x then f e' else e') := by
    intro id e' he'
    rw [find_change s x f hf, he', Option.map_some]
  refine h.of_setRun rfl ?_ ?_ fun hlive =>
    (hrun hlive).mono fun _ _ e he => ⟨e, he, Unnoticed.refl i e⟩
  · intro id e' he'
    rw [find_setRun, find_change s x f hf, Option.map_eq_some_iff] at he'
    obtain ⟨e₀, he₀, rfl⟩ := he'
    split
    · rename_i hid
      subst hid
      rw [he, Option.some.injEq] at he₀
      exact he₀ ▸ hrow
    · exact h.rows id e₀ he₀
  · intro j hj id e' he'
    refine ⟨_, hfind id e' he', ?_⟩
    split
    · rename_i hid
      subst hid
      rw [he, Option.some.injEq] at he'
      exact he' ▸ hother j hj
    · exact Unnoticed.refl j e'

theorem send_sound (h : Sound s) {i : Nat} {now : Instant} {r : RetryRun}
    (hr : s.runs[i]? = some r) (hallowed : r.todo.head?.all s.upToDate = true)
    (hsend : s.send i now r = some t) : Sound t := by
  unfold send at hsend
  split at hsend
  · rename_i t₀ rest hlive hsending htodo
    rw [Bool.or_eq_false_iff] at hlive
    rw [Option.some.injEq] at hsend
    subst hsend
    have hrun := h.runs i r hr hlive.1
    obtain ⟨e, he, hwaiting⟩ := hrun.todo t₀ (by rw [htodo]; exact List.mem_cons_self)
    have hsound := h.rows _ e he
    -- all earlier hand-overs are recorded, and the run has read the row since
    have hread : e.handOvers.length = t₀.recordedWhenRead := by
      simpa [htodo, upToDate, he] using hallowed
    have hle := hsound.recorded
    have hle' := hwaiting.read
    have hall : e.handOvers.length = e.recorded := by omega
    have horiginal : t₀.original = e.message := hwaiting.original (by omega)
    have htracked : t₀ ∈ r.tracked := by simp [RetryRun.tracked, htodo]
    have hretry : retryable e.message = true := horiginal ▸ (hrun.tracked t₀ htracked).retryable
    refine h.of_change (beginHandOver_id i) he (rowSound_beginHandOver i hsound hall hretry)
      (fun j _ => unnoticed_beginHandOver i j hall) fun _ => ?_
    have hfind : (s.change t₀.original.id (beginHandOver i)).find t₀.original.id =
        some (beginHandOver i e) := by
      rw [find_change s _ _ (beginHandOver_id i), he, Option.map_some, if_pos rfl]
    have hrun' : RunSound (s.change t₀.original.id (beginHandOver i)) i r := by
      refine hrun.mono fun t₁ _ e₁ he₁ => ?_
      rw [find_change s _ _ (beginHandOver_id i), he₁, Option.map_some]
      refine ⟨_, rfl, ?_⟩
      split
      · rename_i hid
        rw [hid, he, Option.some.injEq] at he₁
        exact he₁ ▸ unnoticed_beginHandOver i i hall
      · exact Unnoticed.refl i e₁
    refine ⟨?_, ?_, ?_, ?_, hrun'.done⟩
    · have hnodup := hrun.nodup
      simpa [RetryRun.tracked, hsending, htodo] using hnodup
    · intro t₁ ht₁
      simp only [RetryRun.tracked, Option.toList_some, List.mem_append, List.mem_singleton] at ht₁
      obtain (hdone | rfl) | hrest := ht₁
      · exact hrun.tracked t₁ (by simp [RetryRun.tracked, hdone])
      · have h₀ := hrun.tracked t₀ htracked
        exact ⟨h₀.retryable, h₀.id, h₀.envelope⟩
      · exact hrun.tracked t₁ (by simp [RetryRun.tracked, htodo, hrest])
    · exact fun t₁ ht₁ => hrun'.todo t₁ (by rw [htodo]; exact List.mem_cons_of_mem _ ht₁)
    · intro t₁ ht₁
      cases ht₁
      refine ⟨⟨_, hfind, ?_, horiginal, ?_, rfl⟩, ?_⟩
      · rw [he, Option.map_some, hall]
        rfl
      · rw [beginHandOver, List.length_append, List.length_singleton, hall]
      · show t₀.current.retryCount = t₀.original.retryCount
        rw [hwaiting.current]
  · cases hsend

/-- Without the message in its hands a run is sound still. -/
theorem RunSound.setDown {i : Nat} {r : RetryRun} (h : RunSound s i r) :
    RunSound s i { r with sending := none } where
  nodup := by
    refine h.nodup.sublist (List.Sublist.map _ ?_)
    simp only [RetryRun.tracked, Option.toList_none, List.append_nil]
    exact (List.sublist_append_left _ _).append (List.Sublist.refl _)
  tracked := by
    intro t₁ ht₁
    apply h.tracked t₁
    simp only [RetryRun.tracked, Option.toList_none, List.append_nil, List.mem_append] at ht₁ ⊢
    tauto
  todo := h.todo
  sending := by
    intro t₁ ht₁
    cases ht₁
  done := h.done

theorem answer_sound (h : Sound s) {i : Nat} {success : Bool} {reason : String} {now : Instant}
    {r : RetryRun} (hr : s.runs[i]? = some r) (hanswer : s.answer i success reason now r = some t) :
    Sound t := by
  unfold answer at hanswer
  split at hanswer
  · rename_i t₀ hlive hsending
    rw [Option.some.injEq] at hanswer
    subst hanswer
    have hrun := h.runs i r hr hlive
    obtain ⟨⟨e, he, hheld⟩, hcount⟩ := hrun.sending t₀ hsending
    refine h.of_change (endHandOver_id _ _) he (rowSound_endHandOver (h.rows _ e he) hheld success)
      (fun j hj => unnoticed_endHandOver hj hheld success) fun _ => ?_
    have hfind : (s.change t₀.original.id (endHandOver (t₀.handOver.getD 0) success)).find
        t₀.original.id = some (endHandOver (t₀.handOver.getD 0) success e) := by
      rw [find_change s _ _ (endHandOver_id _ _), he, Option.map_some, if_pos rfl]
    -- the other messages of the run are other rows
    have hne : ∀ t₁ ∈ r.done ++ r.todo, t₁.original.id ≠ t₀.original.id := by
      have hnodup := hrun.nodup
      simp only [RetryRun.tracked, hsending, Option.toList_some, List.append_assoc,
        List.singleton_append, List.map_append, List.map_cons] at hnodup
      rw [List.perm_middle.nodup_iff, List.nodup_cons, ← List.map_append] at hnodup
      intro t₁ ht₁ heq
      exact hnodup.1 (heq ▸ List.mem_map_of_mem ht₁)
    have hrun' : RunSound (s.change t₀.original.id (endHandOver (t₀.handOver.getD 0) success)) i
        { r with sending := none } := by
      refine hrun.setDown.mono fun t₁ ht₁ e₁ he₁ => ⟨e₁, ?_, Unnoticed.refl i e₁⟩
      simp only [RetryRun.tracked, Option.toList_none, List.append_nil] at ht₁
      rw [find_change_of_ne s _ (endHandOver_id _ _) (hne t₁ ht₁), he₁]
    refine ⟨?_, ?_, hrun'.todo, ?_, ?_⟩
    · have hnodup := hrun.nodup
      simpa [RetryRun.tracked, hsending, answered] using hnodup
    · intro t₁ ht₁
      simp only [RetryRun.tracked, Option.toList_none, List.append_nil, List.mem_append,
        List.mem_singleton] at ht₁
      obtain (hdone | rfl) | htodo := ht₁
      · exact hrun.tracked t₁ (by simp [RetryRun.tracked, hdone])
      · have h₀ := hrun.tracked t₀ (by simp [RetryRun.tracked, hsending])
        refine ⟨h₀.retryable, ?_, ?_⟩
        · cases success <;> exact h₀.id
        · cases success <;> exact h₀.envelope
      · exact hrun.tracked t₁ (by simp [RetryRun.tracked, htodo])
    · intro t₁ ht₁
      cases ht₁
    · intro t₁ ht₁
      rw [List.mem_append, List.mem_singleton] at ht₁
      obtain hdone | rfl := ht₁
      · exact hrun'.done t₁ hdone
      · have hheld' := held_endHandOver hheld success
        refine ⟨_, hfind, ⟨hheld'.handOver, hheld'.original, hheld'.length, hheld'.lastRun⟩,
          success, ?_, ?_⟩
        · have hlength := hheld.length
          rw [endHandOver, hheld.handOver, Option.getD_some, List.getElem?_set_self (by omega)]
        · cases success with
          | true => exact if_pos rfl ▸ rfl
          | false => exact ⟨rfl, congrArg (· + 1) hcount⟩
  · cases hanswer

theorem save_sound (h : Sound s) {i : Nat} {committed : Bool} {r : RetryRun}
    (hr : s.runs[i]? = some r) (hsave : s.save i committed r = some t) : Sound t := by
  unfold save at hsave
  split at hsave
  · cases hsave
  · rename_i hcond
    simp only [Bool.or_eq_true, not_or, Bool.not_eq_true] at hcond
    rw [Option.some.injEq] at hsave
    subst hsave
    have hrun := h.runs i r hr hcond.1.1.1
    have hdead : ∀ u : Emails, ({ r with ended := true } : RetryRun).ended = false →
        RunSound u i { r with ended := true } := fun _ hlive => by cases hlive
    cases committed with
    | false =>
      exact h.of_setRun rfl h.rows (fun j _ id e he => ⟨e, he, Unnoticed.refl j e⟩) (hdead _)
    | true =>
      have hnodup : (r.done.map (·.original.id)).Nodup := by
        refine hrun.nodup.sublist (List.Sublist.map _ ?_)
        rw [RetryRun.tracked, List.append_assoc]
        exact List.sublist_append_left _ _
      -- a row of a message the run is past, or one the save leaves alone
      have hrow : ∀ id e, s.find id = some e →
          (s.record r.done).find id = some e ∨ ∃ t₀ ∈ r.done, Held i e t₀ ∧ Agrees e t₀ ∧
            (s.record r.done).find id = some (recordOne t₀ e) := by
        intro id e he
        rw [find_record _ hnodup, he, Option.map_some]
        cases hfound : r.done.find? (·.original.id = id) with
        | none => exact .inl rfl
        | some t₀ =>
          have hmem := List.mem_of_find?_eq_some hfound
          have hid : t₀.original.id = id := by simpa using List.find?_some hfound
          obtain ⟨e', he', hheld, hagrees⟩ := hrun.done t₀ hmem
          rw [hid, he, Option.some.injEq] at he'
          subst he'
          exact .inr ⟨t₀, hmem, hheld, hagrees, rfl⟩
      refine h.of_setRun (by rw [if_pos rfl, setRun, record_runs]) ?_ ?_ (hdead _)
      · intro id e he
        rw [if_pos rfl, find_setRun] at he
        cases hold : s.find id with
        | none =>
          rw [find_record _ hnodup, hold] at he
          cases he
        | some e₀ =>
          obtain hsame | ⟨t₀, hmem, hheld, hagrees, hrecorded⟩ := hrow id e₀ hold
          · rw [hsame, Option.some.injEq] at he
            exact he ▸ h.rows id e₀ hold
          · rw [hrecorded, Option.some.injEq] at he
            have htracked : t₀ ∈ r.tracked :=
              List.mem_append_left _ (List.mem_append_left _ hmem)
            exact he ▸ rowSound_recordOne (h.rows id e₀ hold) (hrun.tracked t₀ htracked) hheld
              hagrees
      · intro j hj id e he
        rw [if_pos rfl, find_setRun]
        obtain hsame | ⟨t₀, -, hheld, -, hrecorded⟩ := hrow id e he
        · exact ⟨e, hsame, Unnoticed.refl j e⟩
        · exact ⟨_, hrecorded, unnoticed_recordOne hj hheld⟩

theorem rowSound_arrived (message : EmailMessage) : RowSound (.arrived message) where
  recorded := Nat.le_refl 0
  failed := fun _ => ⟨rfl, by simp [StoredEmail.arrived]⟩
  settled := by simp [StoredEmail.arrived]
  bounded := Nat.le_max_right _ _

theorem insert_sound (h : Sound s) {message : EmailMessage} :
    Sound { s with stored := s.stored ++ [.arrived message] } := by
  have hfind : ∀ id, ({ s with stored := s.stored ++ [.arrived message] } : Emails).find id =
      (s.find id).or (if message.id = id then some (.arrived message) else none) := by
    intro id
    simp only [find, List.find?_append, List.find?_singleton, StoredEmail.arrived,
      decide_eq_true_eq]
  refine ⟨?_, ?_⟩
  · intro id e he
    rw [hfind] at he
    cases hold : s.find id with
    | some e₀ =>
      rw [hold, Option.some_or, Option.some.injEq] at he
      exact he ▸ h.rows id e₀ hold
    | none =>
      rw [hold, Option.none_or, Option.ite_none_right_eq_some, Option.some.injEq] at he
      exact he.2 ▸ rowSound_arrived message
  · intro i r hr hlive
    refine (h.runs i r hr hlive).mono fun t₀ _ e he => ⟨e, ?_, Unnoticed.refl i e⟩
    rw [hfind, he, Option.some_or]

theorem start_sound (h : Sound s) {ids : List Guid}
    (hfetch : isFetch s.stored (ids.filterMap s.find) = true) :
    Sound { s with
      runs := s.runs ++ [⟨[], none, (ids.filterMap s.find).map track, false, false⟩] } := by
  simp only [isFetch, Bool.and_eq_true, decide_eq_true_eq, List.all_eq_true] at hfetch
  obtain ⟨⟨⟨⟨hnodup, hretry⟩, -⟩, -⟩, -⟩ := hfetch
  refine ⟨h.rows, ?_⟩
  intro i r hr hlive
  rw [List.getElem?_append] at hr
  split at hr
  · exact (h.runs i r hr hlive).mono fun _ _ e he => ⟨e, he, Unnoticed.refl i e⟩
  · -- the run that has just read its messages
    have hmem := List.mem_of_getElem? hr
    rw [List.mem_singleton] at hmem
    subst hmem
    refine ⟨?_, ?_, ?_, ?_, ?_⟩
    · simpa [RetryRun.tracked, track, Function.comp_def] using hnodup
    · intro t₀ ht₀
      simp only [RetryRun.tracked, Option.toList_none, List.append_nil, List.nil_append,
        List.mem_map] at ht₀
      obtain ⟨e, he, rfl⟩ := ht₀
      exact ⟨hretry e he, rfl, rfl⟩
    · intro t₀ ht₀
      rw [List.mem_map] at ht₀
      obtain ⟨e, he, rfl⟩ := ht₀
      obtain ⟨id, -, hfind⟩ := List.mem_filterMap.mp he
      have hid : id = (track e).original.id := (message_id_of_find hfind).symm
      exact ⟨e, hid ▸ hfind, rfl, rfl, Nat.le_refl _, fun _ => rfl⟩
    · intro t₀ ht₀
      cases ht₀
    · intro t₀ ht₀
      cases ht₀

/-- A run whose messages are left as they are. -/
theorem flag_sound (h : Sound s) {i : Nat} {r : RetryRun} (hr : s.runs[i]? = some r)
    (cancelled : Bool) : Sound (s.setRun i { r with cancelled := cancelled }) := by
  refine h.of_setRun rfl h.rows (fun j _ id e he => ⟨e, he, Unnoticed.refl j e⟩) fun hlive => ?_
  have hrun := h.runs i r hr hlive
  exact ⟨hrun.nodup, hrun.tracked, hrun.todo, hrun.sending, hrun.done⟩

theorem step_sound (h : Sound s) {move : EmailsMove} (hallowed : s.allowed move = true)
    (hstep : step s move = some t) : Sound t := by
  cases move with
  | insert message =>
    simp only [step, Option.ite_none_left_eq_some, Option.some.injEq, Bool.not_eq_true] at hstep
    rw [← hstep.2]
    exact insert_sound h
  | start ids =>
    simp only [step, Option.ite_none_right_eq_some, Option.some.injEq] at hstep
    obtain ⟨⟨-, hfetch⟩, rfl⟩ := hstep
    exact start_sound h hfetch
  | cancel i =>
    obtain ⟨r, hr, rfl⟩ := Option.map_eq_some_iff.mp hstep
    exact flag_sound h hr true
  | send i now =>
    obtain ⟨r, hr, hsend⟩ := Option.bind_eq_some_iff.mp hstep
    rw [allowed, hr, Option.all_some] at hallowed
    exact send_sound h hr hallowed hsend
  | answer i success reason now =>
    obtain ⟨r, hr, hanswer⟩ := Option.bind_eq_some_iff.mp hstep
    exact answer_sound h hr hanswer
  | save i committed =>
    obtain ⟨r, hr, hsave⟩ := Option.bind_eq_some_iff.mp hstep
    exact save_sound h hr hsave
  | crash i =>
    obtain ⟨r, hr, rfl⟩ := Option.map_eq_some_iff.mp hstep
    exact h.of_setRun rfl h.rows (fun j _ id e he => ⟨e, he, Unnoticed.refl j e⟩)
      fun hlive => by cases hlive

theorem sound_start (messages : List EmailMessage) : Sound (start messages) where
  rows := by
    intro id e he
    have hmem := List.mem_of_find?_eq_some he
    simp only [start, List.mem_map] at hmem
    obtain ⟨message, -, rfl⟩ := hmem
    exact rowSound_arrived message
  runs := by
    intro i r hr
    simp [start] at hr

/-- When each hand-over begins after all earlier ones of its message were recorded and read, none
follows one that went well, and no message has more than three attempts in all. -/
theorem retries_bounded {messages : List EmailMessage}
    (h : Reaches step (fun s move => s.allowed move = true) (start messages) s) :
    ∀ id e, s.find id = some e → (∀ o ∈ e.handOvers.dropLast, o ≠ some true) ∧
      e.initialRetries + e.handOvers.length ≤ max maxRetries e.initialRetries := by
  have hsound : Sound s := h.invariant Sound (sound_start messages)
    fun _ _ _ ha hallowed hstep => step_sound ha hallowed hstep
  intro id e he
  exact ⟨(hsound.rows id e he).settled, (hsound.rows id e he).bounded⟩

/-- A message that has failed once. -/
def failedOnce : EmailMessage :=
  ⟨1, ⟨"to@example.com", none, "Hello", "Body"⟩, .failed, none, some "refused", 1, none⟩

/-- One retry goes well and is recorded. -/
def retriedOnce : Emails :=
  ⟨[⟨failedOnce.resetForRetry 5 |>.markAsSent 6, 1, [some true], 1, some 0⟩],
    [⟨[⟨failedOnce, failedOnce.resetForRetry 5 |>.markAsSent 6, 0, some 0⟩], none, [], false,
      true⟩]⟩

theorem retries_bounded_recorded :
    ∃ e, retriedOnce.find 1 = some e ∧ (∀ o ∈ e.handOvers.dropLast, o ≠ some true) ∧
      e.initialRetries + e.handOvers.length ≤ max maxRetries e.initialRetries := by
  have hrun : run step allowed (start [failedOnce])
      [.start [1], .send 0 5, .answer 0 true "" 6, .save 0 true] = some retriedOnce := by decide
  have hsome : (retriedOnce.find 1).isSome = true := by decide
  obtain ⟨e, he⟩ := Option.isSome_iff_exists.mp hsome
  exact ⟨e, he, retries_bounded (reaches_of_run (fun _ _ hallowed => hallowed) hrun) 1 e he⟩

/-- When the save after a good hand-over fails, the next run hands the message over again. -/
theorem sent_again_after_failed_save :
    ¬ ∀ (messages : List EmailMessage) (s : Emails), Reachable step (start messages) s →
      ∀ id e, s.find id = some e → (∀ o ∈ e.handOvers.dropLast, o ≠ some true) ∧
        e.initialRetries + e.handOvers.length ≤ max maxRetries e.initialRetries := by
  intro h
  have hrun : ((follow step (start [failedOnce])
      [.start [1], .send 0 5, .answer 0 true "" 6, .save 0 false, .start [1], .send 1 7]).any
        fun s => (s.find 1).any fun e => e.handOvers = [some true, none]) = true := by decide
  obtain ⟨s, hreach, hs⟩ := exists_reaches_of_run (fun _ _ _ => trivial) hrun
  obtain ⟨e, he, hovers⟩ := (Option.any_eq_true _ _).mp hs
  rw [decide_eq_true_eq] at hovers
  exact (h [failedOnce] s hreach 1 e he).1 (some true) (by rw [hovers]; decide) rfl

end Emails

end Wallow.Notifications
