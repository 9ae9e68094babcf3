import Wallow.Lib.Transition
import Wallow.Notifications.Devices
import Wallow.Notifications.WebPushKeys

/-!
# Push messages and their deliveries

`SendPushHandler.cs` saves a message and publishes a command for each device, and
`DeliverPushHandler.cs` runs the commands, each of which reads the message, asks the provider and
saves the message with what came of it.
-/

namespace Wallow.Notifications

open Transition

inductive PushStatus
  | pending | accepted | failed
  deriving DecidableEq

structure PushMessage where
  id : Guid
  tenantId : Guid
  recipientId : UserId
  title : String
  body : String
  clickPath : Option String
  status : PushStatus
  failureReason : Option String
  retryCount : Nat
  createdAt : Instant
  updatedAt : Option Instant
  deriving DecidableEq

namespace PushMessage

/-- `Create`, or `none` where it throws. -/
def create (id tenantId : Guid) (recipientId : UserId) (title body : String) (now : Instant) :
    Option PushMessage :=
  if isNullOrWhiteSpace title || isNullOrWhiteSpace body then none
  else some ⟨id, tenantId, recipientId, title, body, none, .pending, none, 0, now, none⟩

def setClickPath (message : PushMessage) (clickPath : Option String) : PushMessage :=
  { message with clickPath := clickPath }

def markAccepted (message : PushMessage) (now : Instant) : PushMessage :=
  { message with status := .accepted, updatedAt := some now }

def markFailed (message : PushMessage) (reason : String) (now : Instant) : PushMessage :=
  { message with
    status := .failed
    failureReason := some reason
    retryCount := message.retryCount + 1
    updatedAt := some now }

end PushMessage

structure DeliverPushCommand where
  pushMessageId : Guid
  deviceRegistrationId : Guid
  tenantId : Guid
  attempt : Nat
  deriving DecidableEq

/-! ## Sending -/

structure SendPushCommand where
  recipientId : UserId
  tenantId : Guid
  title : String
  body : String
  notificationType : String
  clickPath : Option String
  deriving DecidableEq

inductive SendPushResult
  /-- The recipient wants none of it. -/
  | disabled
  | webPushUnavailable
  /-- `PushMessage.Create` throws. -/
  | invalid
  | sent (message : PushMessage) (commands : List DeliverPushCommand)
  deriving DecidableEq

def getActiveByUser (userId : UserId) (rows : List DeviceRegistration) : List DeviceRegistration :=
  rows.filter fun d => d.userId = userId && d.isActive

/-- `SendPushHandler.Handle`: `isEnabled` is the preference, and `isAvailable` says which signing
keys can be used. -/
def SendPushHandler.handle (isEnabled : String → Bool) (isAvailable : Option String → Bool)
    (rows : List DeviceRegistration) (command : SendPushCommand) (id : Guid) (now : Instant) :
    SendPushResult :=
  if isEnabled command.notificationType then
    let devices := getActiveByUser command.recipientId rows
    let eligibleDevices := devices.filter fun device =>
      device.platform ≠ .webPush || isAvailable device.signingKeyId
    if devices ≠ [] ∧ eligibleDevices = [] then .webPushUnavailable
    else
      match PushMessage.create id command.tenantId command.recipientId command.title command.body
        now with
      | none => .invalid
      | some message =>
        .sent (message.setClickPath command.clickPath) (eligibleDevices.map fun device =>
          ⟨message.id, device.id, command.tenantId, 0⟩)
  else .disabled

/-! ## Delivering -/

structure PushDeliveryResult where
  success : Bool
  errorMessage : Option String
  subscriptionExpired : Bool
  retryable : Bool
  retryAfter : Option Int
  deriving DecidableEq

/-- The exceptions that the error policies tell apart. -/
inductive ExceptionKind
  | timeout | invalidOperation | other
  deriving DecidableEq

/-- What asking the provider comes to. -/
inductive Sent
  | answered (result : PushDeliveryResult)
  | threw (kind : ExceptionKind) (message : String)
  | cancelled
  deriving DecidableEq

/-- What a run is left with before it saves. -/
structure Settled where
  message : PushMessage
  deactivates : Bool
  retryDelay : Option Int
  exception : Option ExceptionKind
  deriving DecidableEq

def MAX_ATTEMPT : Nat := 2
def RETRY_SECONDS : Nat := 30

/-- The device a run delivers to, unless there is nothing for it to do. -/
def DeliverPushHandler.deviceOf (message : PushMessage) (rows : List DeviceRegistration)
    (command : DeliverPushCommand) : Option DeviceRegistration :=
  (rows.find? fun d => d.id = command.deviceRegistrationId).filter fun device =>
    device.isActive && device.userId = message.recipientId

/-- The `try` of `DeliverPushHandler.Handle` and what it catches. -/
def DeliverPushHandler.settle (command : DeliverPushCommand) (message : PushMessage)
    (now : Instant) : Sent → Settled
  | .answered result =>
    if result.success then ⟨message.markAccepted now, false, none, none⟩
    else
      { message := message.markFailed (result.errorMessage.getD "Unknown error") now
        deactivates := result.subscriptionExpired
        retryDelay :=
          if result.retryable ∧ command.attempt < MAX_ATTEMPT then
            some (result.retryAfter.getD (RETRY_SECONDS * (command.attempt + 1) * TICKS_PER_SECOND))
          else none
        exception := none }
  | .threw kind reason => ⟨message.markFailed reason now, false, none, some kind⟩
  | .cancelled => ⟨message, false, none, some .other⟩

/-! ## Runs -/

/-- A command on its way, with how often it has failed by an exception. -/
structure Envelope where
  command : DeliverPushCommand
  failures : Nat
  deriving DecidableEq

/-- `ConfigureStandardErrorHandling`: how often a command is tried again. -/
def ExceptionKind.retries : ExceptionKind → Nat
  | .timeout => 3
  | .invalidOperation => 2
  | .other => 1

/-- A run that has read its message and its device. -/
structure Delivery where
  envelope : Envelope
  message : PushMessage
  device : DeviceRegistration
  deriving DecidableEq

/-- What a provider, or the attempt to reach it, made of a delivery, and whether it was saved. -/
structure Report where
  messageId : Guid
  deviceId : Guid
  accepted : Bool
  saved : Bool
  deriving DecidableEq

structure Pushes where
  messages : Guid → Option PushMessage
  devices : List DeviceRegistration
  outstanding : List Envelope
  running : List Delivery
  /-- The latest report first. -/
  reports : List Report

inductive PushesMove
  | send (isEnabled : String → Bool) (isAvailable : Option String → Bool)
      (command : SendPushCommand) (id : Guid) (now : Instant)
  /-- A run begins: the `i`-th command is taken. -/
  | read (i : Nat)
  /-- The `i`-th run ends; its save may fail. -/
  | finish (i : Nat) (sent : Sent) (now : Instant) (saveError : Option ExceptionKind)
  /-- Devices are registered, deactivated and removed. -/
  | change (devices : List DeviceRegistration)

namespace Pushes

def start : Pushes := ⟨fun _ => none, [], [], [], []⟩

def send (s : Pushes) (id : Guid) : SendPushResult → Pushes
  | .sent message commands =>
    { s with
      messages := Function.update s.messages id (some message)
      outstanding := s.outstanding ++ commands.map fun command => ⟨command, 0⟩ }
  | _ => s

def read (s : Pushes) (i : Nat) (envelope : Envelope) : Pushes :=
  let rest := s.outstanding.eraseIdx i
  match s.messages envelope.command.pushMessageId with
  | none => { s with outstanding := rest }
  | some message =>
    match DeliverPushHandler.deviceOf message s.devices envelope.command with
    | none => { s with outstanding := rest }
    | some device =>
      { s with outstanding := rest, running := s.running ++ [⟨envelope, message, device⟩] }

/-- The command is tried again, or goes to the error queue. -/
def redeliver (envelope : Envelope) (kind : ExceptionKind) : List Envelope :=
  if envelope.failures < kind.retries then [{ envelope with failures := envelope.failures + 1 }]
  else []

/-- What a run sends on. -/
def republish (envelope : Envelope) (settled : Settled) : List Envelope :=
  match settled.exception with
  | some kind => redeliver envelope kind
  | none =>
    match settled.retryDelay with
    | some _ => [⟨{ envelope.command with attempt := envelope.command.attempt + 1 }, 0⟩]
    | none => []

/-- What there is to report of a delivery. -/
def reportOf (delivery : Delivery) (saved : Bool) : Sent → List Report
  | .answered result =>
    [⟨delivery.message.id, delivery.device.id, result.success, saved⟩]
  | .threw _ _ => [⟨delivery.message.id, delivery.device.id, false, saved⟩]
  | .cancelled => []

/-- A cancelled run cannot save, as its token is the one the save is given. -/
def saveErrorOf (sent : Sent) (saveError : Option ExceptionKind) : Option ExceptionKind :=
  match sent with
  | .cancelled => some .other
  | _ => saveError

def finish (s : Pushes) (i : Nat) (delivery : Delivery) (sent : Sent) (now : Instant)
    (saveError : Option ExceptionKind) : Pushes :=
  let settled :=
    DeliverPushHandler.settle delivery.envelope.command delivery.message now sent
  let devices :=
    if settled.deactivates then (saveDeactivationAsync delivery.device s.devices).1 else s.devices
  match saveErrorOf sent saveError with
  | some kind =>
    { s with
      devices
      outstanding := s.outstanding ++ redeliver delivery.envelope kind
      running := s.running.eraseIdx i
      reports := reportOf delivery false sent ++ s.reports }
  | none =>
    { s with
      messages := Function.update s.messages delivery.message.id (some settled.message)
      devices
      outstanding := s.outstanding ++ republish delivery.envelope settled
      running := s.running.eraseIdx i
      reports := reportOf delivery true sent ++ s.reports }

def step (s : Pushes) : PushesMove → Option Pushes
  | .send isEnabled isAvailable command id now =>
    -- a `Guid` is drawn once
    if (s.messages id).isSome then none
    else some (s.send id (SendPushHandler.handle isEnabled isAvailable s.devices command id now))
  | .read i => (s.outstanding[i]?).map (s.read i)
  | .finish i sent now saveError =>
    (s.running[i]?).map fun delivery => s.finish i delivery sent now saveError
  | .change devices => some { s with devices }

end Pushes

/-! ## The status and what was saved last -/

/-- A saved report of the message. -/
def Report.isOf (id : Guid) (r : Report) : Bool := r.messageId = id && r.saved

/-- The status that the latest saved report leaves. -/
def statusOf (id : Guid) (reports : List Report) : PushStatus :=
  match reports.find? (Report.isOf id) with
  | none => .pending
  | some r => if r.accepted then .accepted else .failed

theorem statusOf_append_of_ne {id : Guid} {reports : List Report} {new : List Report}
    (h : ∀ r ∈ new, r.isOf id = false) : statusOf id (new ++ reports) = statusOf id reports := by
  have hnone : new.find? (Report.isOf id) = none := by
    rw [List.find?_eq_none]
    intro r hr
    rw [h r hr]
    exact Bool.false_ne_true
  unfold statusOf
  rw [List.find?_append, hnone, Option.none_or]

/-- The message was accepted, and what was saved of it after the last time is not a failure. -/
def KeepsAcceptance (id : Guid) (reports : List Report) : Prop :=
  ∃ later r earlier, reports = later ++ r :: earlier ∧ r.messageId = id ∧ r.accepted = true ∧
    r.saved = true ∧ ∀ other ∈ later, other.messageId = id → other.saved = true →
      other.accepted = true

/-- Some device's provider accepted the message. -/
def Accepted (id : Guid) (reports : List Report) : Prop :=
  ∃ r ∈ reports, r.messageId = id ∧ r.accepted = true

theorem isOf_eq_true {id : Guid} {r : Report} :
    r.isOf id = true ↔ r.messageId = id ∧ r.saved = true := by
  unfold Report.isOf
  rw [Bool.and_eq_true, decide_eq_true_eq]

theorem statusOf_eq_accepted_iff {id : Guid} {reports : List Report} :
    statusOf id reports = .accepted ↔ KeepsAcceptance id reports := by
  have hlast : statusOf id reports = .accepted ↔
      ∃ r, reports.find? (Report.isOf id) = some r ∧ r.accepted = true := by
    unfold statusOf
    cases reports.find? (Report.isOf id) with
    | none => simp
    | some r => cases hr : r.accepted <;> simp [hr]
  rw [hlast]
  constructor
  · intro ⟨r, hfind, haccepted⟩
    have ⟨hr, later, earlier, hreports, hlater⟩ := List.find?_eq_some_iff_append.mp hfind
    have ⟨hid, hsaved⟩ := isOf_eq_true.mp hr
    refine ⟨later, r, earlier, hreports, hid, haccepted, hsaved, fun other hmem hother hkept => ?_⟩
    have hnone := hlater other hmem
    rw [isOf_eq_true.mpr ⟨hother, hkept⟩] at hnone
    cases hnone
  · intro ⟨later, r, earlier, hreports, hid, haccepted, hsaved, hlater⟩
    rw [hreports, List.find?_append]
    cases hfind : later.find? (Report.isOf id) with
    | some other =>
      -- what was saved later is an acceptance too
      have ⟨hother, hkept⟩ := isOf_eq_true.mp (List.find?_some hfind)
      exact ⟨other, rfl, hlater other (List.mem_of_find?_eq_some hfind) hother hkept⟩
    | none =>
      refine ⟨r, ?_, haccepted⟩
      rw [Option.none_or, List.find?_cons_of_pos (isOf_eq_true.mpr ⟨hid, hsaved⟩)]

theorem KeepsAcceptance.accepted {id : Guid} {reports : List Report}
    (h : KeepsAcceptance id reports) : Accepted id reports := by
  have ⟨later, r, earlier, hreports, hid, haccepted, _⟩ := h
  refine ⟨r, ?_, hid, haccepted⟩
  rw [hreports]
  exact List.mem_append_right later List.mem_cons_self

/-! ## What a run keeps -/

namespace Pushes

/-- The rows are those of their ids, each with the status of what was saved last. -/
structure Recorded (s : Pushes) : Prop where
  ids : ∀ id message, s.messages id = some message → message.id = id
  running : ∀ delivery ∈ s.running, (s.messages delivery.message.id).isSome = true
  reports : ∀ r ∈ s.reports, (s.messages r.messageId).isSome = true
  status : ∀ id message, s.messages id = some message → message.status = statusOf id s.reports

theorem recorded_start : Recorded start where
  ids _ _ h := by cases h
  running _ h := absurd h List.not_mem_nil
  reports _ h := absurd h List.not_mem_nil
  status _ _ h := by cases h

theorem handle_sent {isEnabled : String → Bool} {isAvailable : Option String → Bool}
    {rows : List DeviceRegistration} {command : SendPushCommand} {id : Guid} {now : Instant}
    {message : PushMessage} {commands : List DeliverPushCommand}
    (h : SendPushHandler.handle isEnabled isAvailable rows command id now =
      .sent message commands) : message.id = id ∧ message.status = .pending := by
  unfold SendPushHandler.handle at h
  split at h
  · dsimp only at h
    split at h
    · cases h
    · split at h
      · cases h
      · rename_i created hcreated
        cases h
        unfold PushMessage.create at hcreated
        rw [Option.ite_none_left_eq_some, Option.some.injEq] at hcreated
        rw [← hcreated.2]
        exact ⟨rfl, rfl⟩
  · cases h

variable {s : Pushes}

theorem isSome_update (messages : Guid → Option PushMessage) (id : Guid) (message : PushMessage)
    {other : Guid} (h : (messages other).isSome = true) :
    (Function.update messages id (some message) other).isSome = true := by
  by_cases heq : other = id
  · rw [heq, Function.update_self]
    rfl
  · rw [Function.update_of_ne heq]
    exact h

theorem some_of_update {messages : Guid → Option PushMessage} {id other : Guid}
    {message found : PushMessage}
    (h : Function.update messages id (some message) other = some found) :
    (other = id ∧ found = message) ∨ (other ≠ id ∧ messages other = some found) := by
  by_cases heq : other = id
  · rw [heq, Function.update_self, Option.some.injEq] at h
    exact .inl ⟨heq, h.symm⟩
  · rw [Function.update_of_ne heq] at h
    exact .inr ⟨heq, h⟩

theorem Recorded.send (h : Recorded s) {id : Guid} {message : PushMessage}
    {commands : List DeliverPushCommand} (hfresh : s.messages id = none)
    (hid : message.id = id) (hstatus : message.status = .pending) :
    Recorded (s.send id (.sent message commands)) := by
  -- nothing was reported of a message that is not there
  have hnone : statusOf id s.reports = .pending := by
    unfold statusOf
    have hfind : s.reports.find? (Report.isOf id) = none := by
      rw [List.find?_eq_none]
      intro r hr hof
      have hsome := h.reports r hr
      rw [(isOf_eq_true.mp hof).1, hfresh] at hsome
      cases hsome
    rw [hfind]
  constructor
  · intro other found hfound
    cases some_of_update hfound with
    | inl hnew => rw [hnew.1, hnew.2, hid]
    | inr hold => exact h.ids other found hold.2
  · exact fun d hd => isSome_update _ _ _ (h.running d hd)
  · exact fun r hr => isSome_update _ _ _ (h.reports r hr)
  · intro other found hfound
    show found.status = statusOf other s.reports
    cases some_of_update hfound with
    | inl hnew => rw [hnew.1, hnew.2, hstatus, hnone]
    | inr hold => exact h.status other found hold.2

theorem Recorded.read (h : Recorded s) (i : Nat) (envelope : Envelope) :
    Recorded (s.read i envelope) := by
  unfold Pushes.read
  split
  · exact ⟨h.ids, h.running, h.reports, h.status⟩
  · rename_i message hmessage
    split
    · exact ⟨h.ids, h.running, h.reports, h.status⟩
    · refine ⟨h.ids, fun delivery hdelivery => ?_, h.reports, h.status⟩
      cases List.mem_append.mp hdelivery with
      | inl hold => exact h.running delivery hold
      | inr hnew =>
        rw [List.mem_singleton.mp hnew]
        show (s.messages message.id).isSome = true
        rw [h.ids _ message hmessage, hmessage]
        rfl

theorem mem_reportOf {delivery : Delivery} {saved : Bool} {sent : Sent} {r : Report}
    (h : r ∈ reportOf delivery saved sent) :
    r.messageId = delivery.message.id ∧ r.saved = saved := by
  cases sent with
  | answered result =>
    rw [List.mem_singleton.mp h]
    exact ⟨rfl, rfl⟩
  | threw kind reason =>
    rw [List.mem_singleton.mp h]
    exact ⟨rfl, rfl⟩
  | cancelled => cases h

/-- What a run that saves makes of its message is what it reports. -/
theorem settle_saved {delivery : Delivery} {sent : Sent} {now : Instant}
    {saveError : Option ExceptionKind} (h : saveErrorOf sent saveError = none)
    (reports : List Report) :
    let settled := DeliverPushHandler.settle delivery.envelope.command delivery.message now sent
    settled.message.id = delivery.message.id ∧
      settled.message.status =
        statusOf delivery.message.id (reportOf delivery true sent ++ reports) := by
  have hfind : ∀ accepted, statusOf delivery.message.id
      (⟨delivery.message.id, delivery.device.id, accepted, true⟩ :: reports) =
        if accepted then .accepted else .failed := by
    intro accepted
    have hof : Report.isOf delivery.message.id
        ⟨delivery.message.id, delivery.device.id, accepted, true⟩ = true :=
      isOf_eq_true.mpr ⟨rfl, rfl⟩
    unfold statusOf
    rw [List.find?_cons_of_pos hof]
  cases sent with
  | cancelled => cases h
  | threw kind reason => exact ⟨rfl, (hfind false).symm⟩
  | answered result =>
    intro settled
    have hreport : reportOf delivery true (.answered result) ++ reports =
        ⟨delivery.message.id, delivery.device.id, result.success, true⟩ :: reports := rfl
    rw [hreport, hfind]
    unfold settled DeliverPushHandler.settle
    cases hsuccess : result.success with
    | true =>
      dsimp only
      rw [hsuccess, if_pos rfl, if_pos rfl]
      exact ⟨rfl, rfl⟩
    | false =>
      dsimp only
      rw [hsuccess, if_neg Bool.false_ne_true, if_neg Bool.false_ne_true]
      exact ⟨rfl, rfl⟩

theorem Recorded.finish (h : Recorded s) {i : Nat} {delivery : Delivery}
    (hdelivery : s.running[i]? = some delivery) (sent : Sent) (now : Instant)
    (saveError : Option ExceptionKind) : Recorded (s.finish i delivery sent now saveError) := by
  have hrow : (s.messages delivery.message.id).isSome = true :=
    h.running delivery (List.mem_of_getElem? hdelivery)
  have hreports : ∀ saved, ∀ r ∈ reportOf delivery saved sent ++ s.reports,
      (s.messages r.messageId).isSome = true := by
    intro saved r hr
    cases List.mem_append.mp hr with
    | inl hnew =>
      rw [(mem_reportOf hnew).1]
      exact hrow
    | inr hold => exact h.reports r hold
  unfold Pushes.finish
  dsimp only
  cases herror : saveErrorOf sent saveError with
  | some kind =>
    refine ⟨h.ids, fun d hd => h.running d (List.mem_of_mem_eraseIdx hd), hreports false,
      fun id message hmessage => ?_⟩
    -- the row is as it was, and a report that was not saved does not count
    rw [statusOf_append_of_ne]
    · exact h.status id message hmessage
    · intro r hr
      unfold Report.isOf
      rw [(mem_reportOf hr).2, Bool.and_false]
  | none =>
    have ⟨hid, hstatus⟩ := @settle_saved delivery sent now saveError herror s.reports
    constructor
    · intro id message hmessage
      cases some_of_update hmessage with
      | inl hnew => rw [hnew.1, hnew.2, hid]
      | inr hold => exact h.ids id message hold.2
    · exact fun d hd => isSome_update _ _ _ (h.running d (List.mem_of_mem_eraseIdx hd))
    · exact fun r hr => isSome_update _ _ _ (hreports true r hr)
    · intro id message hmessage
      cases some_of_update hmessage with
      | inl hnew => rw [hnew.1, hnew.2, hstatus]
      | inr hold =>
        rw [statusOf_append_of_ne]
        · exact h.status id message hold.2
        · -- the report is of the other message
          intro r hr
          unfold Report.isOf
          rw [(mem_reportOf hr).1, decide_eq_false (Ne.symm hold.1), Bool.false_and]

theorem Recorded.step {move : PushesMove} {t : Pushes} (h : Recorded s)
    (hs : s.step move = some t) : Recorded t := by
  cases move with
  | send isEnabled isAvailable command id now =>
    rw [Pushes.step, Option.ite_none_left_eq_some, Option.some.injEq] at hs
    have ⟨hfresh, hafter⟩ := hs
    rw [Bool.not_eq_true, Option.isSome_eq_false_iff, Option.isNone_iff_eq_none] at hfresh
    rw [← hafter]
    cases hresult : SendPushHandler.handle isEnabled isAvailable s.devices command id now with
    | sent message commands =>
      have ⟨hid, hstatus⟩ := handle_sent hresult
      exact h.send hfresh hid hstatus
    | disabled => exact h
    | webPushUnavailable => exact h
    | invalid => exact h
  | read i =>
    have ⟨envelope, _, hafter⟩ := Option.map_eq_some_iff.mp hs
    exact hafter ▸ h.read i envelope
  | finish i sent now saveError =>
    have ⟨delivery, hdelivery, hafter⟩ := Option.map_eq_some_iff.mp hs
    exact hafter ▸ h.finish hdelivery sent now saveError
  | change devices =>
    cases hs
    exact ⟨h.ids, h.running, h.reports, h.status⟩

end Pushes

/-- In every state a run reaches, a message is `Accepted` exactly if some provider accepted it, if
and only if, once one has, an acceptance was saved with no failure of the message saved after it. -/
theorem status_tells_acceptance_iff {s : Pushes} (h : Reachable Pushes.step .start s) {id : Guid}
    {message : PushMessage} (hmessage : s.messages id = some message) :
    (message.status = .accepted ↔ Accepted id s.reports) ↔
      (Accepted id s.reports → KeepsAcceptance id s.reports) := by
  have hrecorded : s.Recorded :=
    h.invariant Pushes.Recorded Pushes.recorded_start fun _ _ _ hinv _ hs => hinv.step hs
  rw [hrecorded.status id message hmessage, statusOf_eq_accepted_iff]
  constructor
  · exact fun hiff => hiff.mpr
  · exact fun hkeeps => ⟨KeepsAcceptance.accepted, hkeeps⟩

/-! ## Two devices -/

def phone : DeviceRegistration := .register 1 7 .fcm "phone" 0
def tablet : DeviceRegistration := .register 2 7 .apns "tablet" 0

def succeeds : PushDeliveryResult := ⟨true, none, false, false, none⟩
def fails : PushDeliveryResult := ⟨false, some "invalid token", false, false, none⟩

/-- The moves of a message to both devices: the phone accepts it, and then the tablet ends so. -/
def acceptedThen (sent : Sent) : List PushesMove :=
  [.change [phone, tablet],
    .send (fun _ => true) (fun _ => true) ⟨7, 3, "Title", "Body", "news", none⟩ 10 0,
    .read 0, .finish 0 (.answered succeeds) 1 none,
    .read 0, .finish 0 sent 2 none]

theorem status_tells_acceptance_of_both :
    ∃ s, follow Pushes.step .start (acceptedThen (.answered succeeds)) = some s ∧
      ∃ message, s.messages 10 = some message ∧
        ((message.status = .accepted ↔ Accepted 10 s.reports) ↔
          (Accepted 10 s.reports → KeepsAcceptance 10 s.reports)) :=
  ⟨_, rfl, _, rfl, status_tells_acceptance_iff
    (@reaches_of_run _ _ Pushes.step (fun _ _ => True) .start _ (fun _ _ => true)
      (acceptedThen (.answered succeeds)) (fun _ _ _ => trivial) rfl) rfl⟩

/-- A failure of one device hides that the other one accepted the message. -/
theorem failure_hides_acceptance :
    ¬∀ s, Reachable Pushes.step .start s → s.outstanding = [] → s.running = [] →
      ∀ id message, s.messages id = some message →
        (message.status = .accepted ↔ Accepted id s.reports) := by
  intro h
  have hrun : ∃ s, follow Pushes.step .start (acceptedThen (.answered fails)) = some s ∧
      s.outstanding = [] ∧ s.running = [] ∧
      s.reports = [⟨10, 2, false, true⟩, ⟨10, 1, true, true⟩] ∧
      (s.messages 10).map PushMessage.status = some .failed :=
    ⟨_, rfl, rfl, rfl, rfl, rfl⟩
  have ⟨s, hfollow, hdone, hidle, hreports, hstatus⟩ := hrun
  have hreached : Reachable Pushes.step .start s :=
    reaches_of_run (fun _ _ _ => trivial) hfollow
  have ⟨message, hmessage, hfailed⟩ := Option.map_eq_some_iff.mp hstatus
  have haccepted : Accepted 10 s.reports := by
    rw [hreports]
    exact ⟨⟨10, 1, true, true⟩, by decide, rfl, rfl⟩
  have hright := (h s hreached hdone hidle 10 message hmessage).mpr haccepted
  rw [hfailed] at hright
  cases hright

end Wallow.Notifications
