import Wallow.Lib.Transition
import Wallow.Primitives
import Mathlib.Data.List.Nodup

/-!
# Device registrations

The table `device_registrations` of one tenant under `RegisterAsync`, one upsert statement, and
`SaveDeactivationAsync`, one update of the row with an id that was read earlier.
-/

namespace Wallow.Notifications

open Transition

abbrev UserId := Guid

inductive PushPlatform
  | fcm | apns | webPush
  deriving DecidableEq

structure WebPushSubscriptionKeys where
  p256dh : String
  auth : String
  deriving DecidableEq

structure WebPushSubscription where
  endpoint : String
  keys : WebPushSubscriptionKeys
  expirationTime : Option Int
  deriving DecidableEq

structure DeviceRegistration where
  id : Guid
  userId : UserId
  platform : PushPlatform
  token : String
  subscription : Option WebPushSubscription
  signingKeyId : Option String
  isActive : Bool
  registeredAt : Instant
  deriving DecidableEq

namespace DeviceRegistration

def register (id : Guid) (userId : UserId) (platform : PushPlatform) (token : String)
    (registeredAt : Instant) : DeviceRegistration :=
  ⟨id, userId, platform, token, none, none, true, registeredAt⟩

def registerWebPush (id : Guid) (userId : UserId) (subscription : WebPushSubscription)
    (signingKeyId : String) (registeredAt : Instant) : DeviceRegistration :=
  ⟨id, userId, .webPush, subscription.endpoint, some subscription, some signingKeyId, true,
    registeredAt⟩

def deactivate (r : DeviceRegistration) : DeviceRegistration := { r with isActive := false }

/-- What a web push id stands for. -/
def denotes (r : DeviceRegistration) : UserId × Option WebPushSubscription × Option String :=
  (r.userId, r.subscription, r.signingKeyId)

end DeviceRegistration

structure RegisterDeviceCommand where
  userId : UserId
  platform : PushPlatform
  token : String
  subscription : Option WebPushSubscription
  signingKeyId : Option String
  deriving DecidableEq

/-- The registration `RegisterDeviceHandler` hands to the repository, if any.  `canRegister` is the
answer of `CanRegisterAsync`, which reads the devices and the keys in earlier statements. -/
def RegisterDeviceHandler.registration (command : RegisterDeviceCommand) (canRegister : Bool)
    (id : Guid) (now : Instant) : Option DeviceRegistration :=
  if command.platform = .webPush then
    match command.subscription, command.signingKeyId with
    | some subscription, some signingKeyId =>
      if canRegister then
        some (.registerWebPush id command.userId subscription signingKeyId now)
      else none
    | _, _ => none
  else some (.register id command.userId command.platform command.token now)

/-- What the handler makes is active and has a subscription exactly for web push. -/
theorem registration_shape {command : RegisterDeviceCommand} {canRegister : Bool} {id : Guid}
    {now : Instant} {r : DeviceRegistration}
    (h : RegisterDeviceHandler.registration command canRegister id now = some r) :
    r.id = id ∧ r.isActive = true ∧ (r.platform = .webPush ↔ r.subscription.isSome = true) := by
  unfold RegisterDeviceHandler.registration at h
  split at h
  · rename_i hplatform
    cases hsub : command.subscription with
    | none =>
      rw [hsub] at h
      cases h
    | some subscription =>
      cases hkey : command.signingKeyId with
      | none =>
        rw [hsub, hkey] at h
        cases h
      | some signingKeyId =>
        rw [hsub, hkey] at h
        simp only [Option.ite_none_right_eq_some, Option.some.injEq] at h
        rw [← h.2]
        exact ⟨rfl, rfl, iff_of_true rfl rfl⟩
  · rename_i hplatform
    cases h
    exact ⟨rfl, rfl, iff_of_false hplatform (by simp [DeviceRegistration.register])⟩

/-! ## The statements -/

/-- The `WHERE` of the upsert: an active row gives way to its own user and platform only. -/
def givesWay (device excluded : DeviceRegistration) : Bool :=
  !device.isActive || (device.userId = excluded.userId && device.platform = excluded.platform)

/-- The `CASE` of the upsert. -/
def keepsId (device excluded : DeviceRegistration) : Bool :=
  device.denotes = excluded.denotes && (device.platform ≠ .webPush || device.isActive)

/-- The `DO UPDATE SET` of the upsert. -/
def overwrite (device excluded : DeviceRegistration) : DeviceRegistration where
  id := if keepsId device excluded then device.id else excluded.id
  userId := excluded.userId
  platform := excluded.platform
  token := device.token
  subscription := excluded.subscription
  signingKeyId := excluded.signingKeyId
  isActive := excluded.isActive
  registeredAt := if device.isActive then device.registeredAt else excluded.registeredAt

/-- `RegisterAsync`: the rows after the statement, and whether a row was affected. -/
def registerAsync (excluded : DeviceRegistration) :
    List DeviceRegistration → List DeviceRegistration × Bool
  | [] => ([excluded], true)
  | device :: rows =>
    if device.token = excluded.token then
      if givesWay device excluded then (overwrite device excluded :: rows, true)
      else (device :: rows, false)
    else
      let (rows', affected) := registerAsync excluded rows
      (device :: rows', affected)

/-- `SaveDeactivationAsync`, with the registration as it was read. -/
def saveDeactivationAsync (registration : DeviceRegistration) (rows : List DeviceRegistration) :
    List DeviceRegistration × Bool :=
  let isIt := fun d : DeviceRegistration => d.id = registration.id ∧ d.userId = registration.userId
  (rows.map fun d => if isIt d then { d with isActive := registration.deactivate.isActive } else d,
    rows.countP (fun d => isIt d) = 1)

/-! ## Histories -/

structure Devices where
  rows : List DeviceRegistration
  /-- The ids that have been drawn. -/
  drawn : List Guid
  /-- What deregistrations and deliveries have read, each kept for as long as it may be used. -/
  copies : List DeviceRegistration
  deriving DecidableEq

inductive DevicesMove
  | register (command : RegisterDeviceCommand) (canRegister : Bool) (id : Guid) (now : Instant)
  /-- `GetByIdAsync`, of a deregistration or of a delivery. -/
  | read (id : Guid)
  /-- The deactivation of the `i`-th registration read. -/
  | saveDeactivation (i : Nat)
  deriving DecidableEq

namespace Devices

def start : Devices := ⟨[], [], []⟩

def register (s : Devices) (registration : DeviceRegistration) : Devices :=
  { s with
    rows := (registerAsync registration s.rows).1
    drawn := registration.id :: s.drawn }

def saveDeactivation (s : Devices) (registration : DeviceRegistration) : Devices :=
  { s with rows := (saveDeactivationAsync registration s.rows).1 }

def step (s : Devices) : DevicesMove → Option Devices
  | .register command canRegister id now =>
    -- a `Guid` is drawn once
    if id ∈ s.drawn then none
    else (RegisterDeviceHandler.registration command canRegister id now).map s.register
  | .read id => (s.rows.find? (·.id = id)).map fun r => { s with copies := s.copies ++ [r] }
  | .saveDeactivation i => (s.copies[i]?).map s.saveDeactivation

/-! ## What one statement does -/

/-- The upsert inserts, overwrites the row with the token, or leaves the table alone. -/
theorem registerAsync_cases (excluded : DeviceRegistration) (rows : List DeviceRegistration) :
    ((∀ d ∈ rows, d.token ≠ excluded.token) ∧
      (registerAsync excluded rows).1 = rows ++ [excluded]) ∨
    ∃ before device after, rows = before ++ device :: after ∧ device.token = excluded.token ∧
      (givesWay device excluded = true ∧
          (registerAsync excluded rows).1 = before ++ overwrite device excluded :: after ∨
        givesWay device excluded = false ∧ (registerAsync excluded rows).1 = rows) := by
  induction rows with
  | nil => exact .inl ⟨by simp, rfl⟩
  | cons device rows ih =>
    rw [registerAsync]
    by_cases htoken : device.token = excluded.token
    · rw [if_pos htoken]
      refine .inr ⟨[], device, rows, rfl, htoken, ?_⟩
      cases hway : givesWay device excluded with
      | true => exact .inl ⟨rfl, rfl⟩
      | false => exact .inr ⟨rfl, rfl⟩
    · rw [if_neg htoken]
      obtain ⟨hnone, hrows⟩ | ⟨before, d, after, hsplit, hd, hcase⟩ := ih
      · refine .inl ⟨?_, congrArg (device :: ·) hrows⟩
        rintro d (_ | ⟨_, hmem⟩)
        · exact htoken
        · exact hnone d hmem
      · refine .inr ⟨device :: before, d, after, congrArg (device :: ·) hsplit, hd, ?_⟩
        obtain ⟨hway, hrows⟩ | ⟨hway, hrows⟩ := hcase
        · exact .inl ⟨hway, congrArg (device :: ·) hrows⟩
        · exact .inr ⟨hway, congrArg (device :: ·) hrows⟩

/-- `b` is what has become of `a` under its id: for web push the same meaning, and no way back from
being inactive. -/
def Follows (a b : DeviceRegistration) : Prop :=
  a.platform = .webPush ∨ b.platform = .webPush →
    b.platform = a.platform ∧ b.denotes = a.denotes ∧ (a.isActive = false → b.isActive = false)

theorem Follows.refl (a : DeviceRegistration) : Follows a a :=
  fun _ => ⟨rfl, rfl, fun h => h⟩

theorem Follows.trans {a b c : DeviceRegistration} (hab : Follows a b) (hbc : Follows b c) :
    Follows a c := by
  intro hweb
  have hb : b.platform = .webPush := by
    cases hweb with
    | inl ha => exact (hab (.inl ha)).1.trans ha
    | inr hc => exact (hbc (.inr hc)).1.symm.trans hc
  obtain ⟨hplatform, hdenotes, hactive⟩ := hab (.inr hb)
  obtain ⟨hplatform', hdenotes', hactive'⟩ := hbc (.inl hb)
  exact ⟨hplatform'.trans hplatform, hdenotes'.trans hdenotes, fun h => hactive' (hactive h)⟩

/-- A row that keeps its id under the upsert follows what it was. -/
theorem follows_overwrite {device excluded : DeviceRegistration}
    (hway : givesWay device excluded = true) (hkeeps : keepsId device excluded = true)
    (hdevice : device.platform = .webPush ↔ device.subscription.isSome = true)
    (hexcluded : excluded.platform = .webPush ↔ excluded.subscription.isSome = true) :
    Follows device (overwrite device excluded) := by
  simp only [givesWay, keepsId, Bool.and_eq_true, Bool.or_eq_true, Bool.not_eq_true',
    decide_eq_true_eq] at hway hkeeps
  obtain ⟨hdenotes, hactive⟩ := hkeeps
  have hsub : device.subscription = excluded.subscription := congrArg (·.2.1) hdenotes
  intro hweb
  -- the two have the same subscription, so both are web push
  have hdeviceWeb : device.platform = .webPush := by
    cases hweb with
    | inl h => exact h
    | inr h =>
      rw [hdevice, hsub]
      exact hexcluded.mp h
  have hon : device.isActive = true := by
    cases hactive with
    | inl h => exact absurd hdeviceWeb h
    | inr h => exact h
  have hsame : device.userId = excluded.userId ∧ device.platform = excluded.platform := by
    cases hway with
    | inl h =>
      rw [hon] at h
      cases h
    | inr h => exact h
  refine ⟨hsame.2.symm, hdenotes.symm, fun hoff => ?_⟩
  rw [hon] at hoff
  cases hoff

theorem follows_deactivated (d : DeviceRegistration) : Follows d { d with isActive := false } :=
  fun _ => ⟨rfl, rfl, fun _ => rfl⟩

/-- The user of an active row stays when it gives way. -/
theorem userId_of_givesWay {device excluded : DeviceRegistration}
    (hway : givesWay device excluded = true) (hactive : device.isActive = true) :
    (overwrite device excluded).userId = device.userId := by
  simp only [givesWay, hactive, Bool.not_true, Bool.false_or, Bool.and_eq_true,
    decide_eq_true_eq] at hway
  exact hway.1.symm

/-! ## The table -/

structure Sound (s : Devices) : Prop where
  tokens : (s.rows.map (·.token)).Nodup
  ids : (s.rows.map (·.id)).Nodup
  drawn : ∀ r ∈ s.rows, r.id ∈ s.drawn
  shape : ∀ r ∈ s.rows, r.platform = .webPush ↔ r.subscription.isSome = true
  copies : ∀ c ∈ s.copies, c.id ∈ s.drawn ∧ ∀ r ∈ s.rows, r.id = c.id → Follows c r

theorem sound_start : Sound start where
  tokens := List.nodup_nil
  ids := List.nodup_nil
  drawn := by simp [start]
  shape := by simp [start]
  copies := by simp [start]

/-- What `t` holds under the ids drawn in `s` comes from the rows of `s`. -/
structure Continues (s t : Devices) : Prop where
  drawn : s.drawn ⊆ t.drawn
  rows : ∀ b ∈ t.rows, b.id ∈ s.drawn → ∃ a ∈ s.rows, a.id = b.id ∧ Follows a b

theorem Continues.refl (s : Devices) : Continues s s :=
  ⟨List.Subset.refl _, fun b hb _ => ⟨b, hb, rfl, Follows.refl b⟩⟩

theorem Continues.trans {s t u : Devices} (hst : Continues s t) (htu : Continues t u) :
    Continues s u where
  drawn := fun _ h => htu.drawn (hst.drawn h)
  rows := by
    intro c hc hdrawn
    obtain ⟨b, hb, hbc, hfollows⟩ := htu.rows c hc (hst.drawn hdrawn)
    obtain ⟨a, ha, hab, hfollows'⟩ := hst.rows b hb (hbc ▸ hdrawn)
    exact ⟨a, ha, hab.trans hbc, hfollows'.trans hfollows⟩

variable {s t : Devices}

/-- The copies keep their sense when the table goes on. -/
theorem Sound.copies_of_continues (h : Sound s) (hst : Continues s t)
    (hcopies : t.copies = s.copies) :
    ∀ c ∈ t.copies, c.id ∈ t.drawn ∧ ∀ r ∈ t.rows, r.id = c.id → Follows c r := by
  intro c hc
  obtain ⟨hdrawn, hrows⟩ := h.copies c (hcopies ▸ hc)
  refine ⟨hst.drawn hdrawn, fun r hr hid => ?_⟩
  obtain ⟨a, ha, haid, hfollows⟩ := hst.rows r hr (hid ▸ hdrawn)
  exact (hrows a ha (haid.trans hid)).trans hfollows

section Register

variable {excluded : DeviceRegistration}

theorem register_continues (h : Sound s) (hfresh : excluded.id ∉ s.drawn)
    (hshape : excluded.platform = .webPush ↔ excluded.subscription.isSome = true) :
    Continues s (s.register excluded) := by
  refine ⟨fun _ => List.mem_cons_of_mem _, fun b hb hdrawn => ?_⟩
  have hself : ∀ r ∈ s.rows, r = b → ∃ a ∈ s.rows, a.id = b.id ∧ Follows a b := by
    rintro r hr rfl
    exact ⟨r, hr, rfl, Follows.refl r⟩
  obtain ⟨-, hrows⟩ | ⟨before, device, after, hsplit, -, ⟨hway, hrows⟩ | ⟨-, hrows⟩⟩ :=
    registerAsync_cases excluded s.rows
  · rw [register, hrows, List.mem_append, List.mem_singleton] at hb
    cases hb with
    | inl hold => exact hself b hold rfl
    | inr hnew => exact absurd (hnew ▸ hdrawn) hfresh
  · have hdevice : device ∈ s.rows := by simp [hsplit]
    rw [register, hrows, List.mem_append, List.mem_cons] at hb
    obtain hbefore | hover | hafter := hb
    · exact hself b (by simp [hsplit, hbefore]) rfl
    · -- the overwritten row has its own id still, or a fresh one
      rw [hover] at hdrawn ⊢
      cases hkeeps : keepsId device excluded with
      | true =>
        refine ⟨device, hdevice, by simp [overwrite, hkeeps], ?_⟩
        exact follows_overwrite hway hkeeps (h.shape device hdevice) hshape
      | false =>
        rw [overwrite, hkeeps] at hdrawn
        exact absurd hdrawn hfresh
    · exact hself b (by simp [hsplit, hafter]) rfl
  · rw [register, hrows] at hb
    exact hself b hb rfl

theorem register_sound (h : Sound s) (hfresh : excluded.id ∉ s.drawn)
    (hshape : excluded.platform = .webPush ↔ excluded.subscription.isSome = true) :
    Sound (s.register excluded) := by
  have hcopies := h.copies_of_continues (register_continues h hfresh hshape) rfl
  have hnew : ∀ r ∈ s.rows, excluded.id ≠ r.id := fun r hr heq => hfresh (heq ▸ h.drawn r hr)
  obtain ⟨htoken, hrows⟩ | ⟨before, device, after, hsplit, htoken, ⟨hway, hrows⟩ | ⟨-, hrows⟩⟩ :=
    registerAsync_cases excluded s.rows
  · refine ⟨?_, ?_, ?_, ?_, hcopies⟩
    · rw [register, hrows, List.map_append, List.nodup_append]
      exact ⟨h.tokens, by simp, by simpa using htoken⟩
    · rw [register, hrows, List.map_append, List.nodup_append]
      exact ⟨h.ids, by simp, by simpa using fun r hr => (hnew r hr).symm⟩
    · rw [register, hrows]
      simp only [List.mem_append, List.mem_singleton]
      rintro r (hr | rfl)
      · exact List.mem_cons_of_mem _ (h.drawn r hr)
      · exact List.mem_cons_self
    · rw [register, hrows]
      simp only [List.mem_append, List.mem_singleton]
      rintro r (hr | rfl)
      · exact h.shape r hr
      · exact hshape
  · have htokens := h.tokens
    have hids := h.ids
    have hdrawn := h.drawn
    have hshapes := h.shape
    rw [hsplit] at htokens hids hdrawn hshapes hnew
    refine ⟨?_, ?_, ?_, ?_, hcopies⟩
    · rw [register, hrows]
      simpa [overwrite] using htokens
    · rw [register, hrows]
      cases hkeeps : keepsId device excluded with
      | true => simpa [overwrite, hkeeps] using hids
      | false =>
        simp only [List.map_append, List.map_cons, overwrite, hkeeps, Bool.false_eq_true,
          if_false] at hids ⊢
        rw [List.perm_middle.nodup_iff, List.nodup_cons] at hids ⊢
        refine ⟨?_, hids.2⟩
        rw [← List.map_append, List.mem_map]
        rintro ⟨r, hr, heq⟩
        exact hnew r (by simp only [List.mem_append, List.mem_cons] at hr ⊢; tauto) heq.symm
    · rw [register, hrows]
      simp only [List.mem_append, List.mem_cons] at hdrawn ⊢
      rintro r (hr | rfl | hr)
      · exact .inr (hdrawn r (.inl hr))
      · cases hkeeps : keepsId device excluded with
        | true =>
          rw [overwrite, hkeeps]
          exact .inr (hdrawn device (.inr (.inl rfl)))
        | false =>
          rw [overwrite, hkeeps]
          exact .inl rfl
      · exact .inr (hdrawn r (.inr (.inr hr)))
    · rw [register, hrows]
      simp only [List.mem_append, List.mem_cons] at hshapes ⊢
      rintro r (hr | rfl | hr)
      · exact hshapes r (.inl hr)
      · exact hshape
      · exact hshapes r (.inr (.inr hr))
  · refine ⟨?_, ?_, ?_, ?_, hcopies⟩
    · rw [register, hrows]
      exact h.tokens
    · rw [register, hrows]
      exact h.ids
    · rw [register, hrows]
      exact fun r hr => List.mem_cons_of_mem _ (h.drawn r hr)
    · rw [register, hrows]
      exact h.shape

/-- An active row is still there, with its user. -/
theorem register_keeps_user {r : DeviceRegistration} (hr : r ∈ s.rows)
    (hactive : r.isActive = true) :
    ∃ r' ∈ (s.register excluded).rows, r'.token = r.token ∧ r'.userId = r.userId := by
  obtain ⟨-, hrows⟩ | ⟨before, device, after, hsplit, -, ⟨hway, hrows⟩ | ⟨-, hrows⟩⟩ :=
    registerAsync_cases excluded s.rows
  · exact ⟨r, by rw [register, hrows]; exact List.mem_append_left _ hr, rfl, rfl⟩
  · rw [hsplit, List.mem_append, List.mem_cons] at hr
    obtain hbefore | rfl | hafter := hr
    · exact ⟨r, by simp [register, hrows, hbefore], rfl, rfl⟩
    · exact ⟨overwrite r excluded, by simp [register, hrows], rfl, userId_of_givesWay hway hactive⟩
    · exact ⟨r, by simp [register, hrows, hafter], rfl, rfl⟩
  · exact ⟨r, by rw [register, hrows]; exact hr, rfl, rfl⟩

end Register

section Deactivate

variable {registration : DeviceRegistration}

/-- A deactivated row, or one the statement does not touch. -/
theorem mem_saveDeactivation {b : DeviceRegistration}
    (h : b ∈ (s.saveDeactivation registration).rows) :
    ∃ a ∈ s.rows, b = a ∨ b = { a with isActive := false } := by
  simp only [saveDeactivation, saveDeactivationAsync, List.mem_map] at h
  obtain ⟨a, ha, rfl⟩ := h
  refine ⟨a, ha, ?_⟩
  split
  · exact .inr rfl
  · exact .inl rfl

/-- The columns the statement does not set. -/
theorem map_saveDeactivation {β : Type} (registration : DeviceRegistration)
    (f : DeviceRegistration → β)
    (hf : ∀ d : DeviceRegistration, f { d with isActive := false } = f d) :
    (s.saveDeactivation registration).rows.map f = s.rows.map f := by
  simp only [saveDeactivation, saveDeactivationAsync, List.map_map]
  apply List.map_congr_left
  intro d _
  simp only [Function.comp_apply]
  split
  · exact hf d
  · rfl

theorem saveDeactivation_continues : Continues s (s.saveDeactivation registration) := by
  refine ⟨List.Subset.refl _, fun b hb _ => ?_⟩
  obtain ⟨a, ha, rfl | rfl⟩ := mem_saveDeactivation hb
  · exact ⟨b, ha, rfl, Follows.refl b⟩
  · exact ⟨a, ha, rfl, follows_deactivated a⟩

theorem saveDeactivation_sound (h : Sound s) : Sound (s.saveDeactivation registration) := by
  refine ⟨?_, ?_, ?_, ?_, h.copies_of_continues saveDeactivation_continues rfl⟩
  · rw [map_saveDeactivation registration (·.token) fun _ => rfl]
    exact h.tokens
  · rw [map_saveDeactivation registration (·.id) fun _ => rfl]
    exact h.ids
  · intro b hb
    obtain ⟨a, ha, rfl | rfl⟩ := mem_saveDeactivation hb
    · exact h.drawn b ha
    · exact h.drawn a ha
  · intro b hb
    obtain ⟨a, ha, rfl | rfl⟩ := mem_saveDeactivation hb
    · exact h.shape b ha
    · exact h.shape a ha

theorem saveDeactivation_keeps_user {r : DeviceRegistration} (hr : r ∈ s.rows) :
    ∃ r' ∈ (s.saveDeactivation registration).rows,
      r'.token = r.token ∧ r'.userId = r.userId := by
  have hmem : (r.token, r.userId) ∈ s.rows.map fun d => (d.token, d.userId) :=
    List.mem_map_of_mem hr
  rw [← map_saveDeactivation registration (fun d => (d.token, d.userId)) fun _ => rfl,
    List.mem_map] at hmem
  obtain ⟨r', hr', heq⟩ := hmem
  simp only [Prod.mk.injEq] at heq
  exact ⟨r', hr', heq.1, heq.2⟩

/-- Where the id is inactive or gone, the statement changes nothing. -/
theorem saveDeactivation_eq (h : ∀ r ∈ s.rows, r.id = registration.id → r.isActive = false) :
    s.saveDeactivation registration = s := by
  have hrows : (saveDeactivationAsync registration s.rows).1 = s.rows := by
    simp only [saveDeactivationAsync]
    conv_rhs => rw [← List.map_id s.rows]
    apply List.map_congr_left
    intro d hd
    split
    · rename_i hid
      have hoff : registration.deactivate.isActive = d.isActive := (h d hd hid.1).symm
      rw [hoff]
      rfl
    · rfl
  rw [saveDeactivation, hrows]

end Deactivate

/-! ## Histories of the table -/

theorem step_sound_continues (h : Sound s) {move : DevicesMove} (hstep : step s move = some t) :
    Sound t ∧ Continues s t := by
  cases move with
  | register command canRegister id now =>
    simp only [step, Option.ite_none_left_eq_some, Option.map_eq_some_iff] at hstep
    obtain ⟨hfresh, registration, hregistration, rfl⟩ := hstep
    obtain ⟨rfl, -, hshape⟩ := registration_shape hregistration
    exact ⟨register_sound h hfresh hshape, register_continues h hfresh hshape⟩
  | read id =>
    simp only [step, Option.map_eq_some_iff] at hstep
    obtain ⟨r, hr, rfl⟩ := hstep
    have hmem : r ∈ s.rows := List.mem_of_find?_eq_some hr
    refine ⟨⟨h.tokens, h.ids, h.drawn, h.shape, ?_⟩,
      ⟨List.Subset.refl _, fun b hb _ => ⟨b, hb, rfl, Follows.refl b⟩⟩⟩
    intro c hc
    rw [List.mem_append, List.mem_singleton] at hc
    cases hc with
    | inl hold => exact h.copies c hold
    | inr hnew =>
      subst hnew
      refine ⟨h.drawn c hmem, fun r' hr' hid => ?_⟩
      rw [List.inj_on_of_nodup_map h.ids hr' hmem hid]
      exact Follows.refl c
  | saveDeactivation i =>
    simp only [step, Option.map_eq_some_iff] at hstep
    obtain ⟨registration, -, rfl⟩ := hstep
    exact ⟨saveDeactivation_sound h, saveDeactivation_continues⟩

theorem sound_of_reachable (h : Reachable step start s) : Sound s :=
  h.invariant Sound sound_start fun _ _ _ ha _ hstep => (step_sound_continues ha hstep).1

theorem continues_of_reachable (h : Sound s) (hst : Reachable step s t) :
    Sound t ∧ Continues s t :=
  hst.invariant (fun t => Sound t ∧ Continues s t) ⟨h, Continues.refl s⟩
    fun _ _ _ ha _ hstep =>
      have hnext := step_sound_continues ha.1 hstep
      ⟨hnext.1, ha.2.trans hnext.2⟩

theorem step_keeps_user {move : DevicesMove} (hstep : step s move = some t)
    {r : DeviceRegistration} (hr : r ∈ s.rows) (hactive : r.isActive = true) :
    ∃ r' ∈ t.rows, r'.token = r.token ∧ r'.userId = r.userId := by
  cases move with
  | register command canRegister id now =>
    simp only [step, Option.ite_none_left_eq_some, Option.map_eq_some_iff] at hstep
    obtain ⟨-, registration, -, rfl⟩ := hstep
    exact register_keeps_user hr hactive
  | read id =>
    simp only [step, Option.map_eq_some_iff] at hstep
    obtain ⟨-, -, rfl⟩ := hstep
    exact ⟨r, hr, rfl, rfl⟩
  | saveDeactivation i =>
    simp only [step, Option.map_eq_some_iff] at hstep
    obtain ⟨registration, -, rfl⟩ := hstep
    exact saveDeactivation_keeps_user hr

/-- A web push id keeps its meaning from any state to any later one, also where it was gone in
between. -/
theorem follows_of_reachable (hs : Sound s) (hst : Reachable step s t) {a b : DeviceRegistration}
    (ha : a ∈ s.rows) (hb : b ∈ t.rows) (hid : b.id = a.id) : Follows a b := by
  obtain ⟨a', ha', hid', hfollows⟩ :=
    (continues_of_reachable hs hst).2.rows b hb (hid ▸ hs.drawn a ha)
  rwa [List.inj_on_of_nodup_map hs.ids ha' ha (hid'.trans hid)] at hfollows

/-- When the id of a web push copy is inactive or replaced, its deactivation is void from then
on. -/
theorem void_deactivation (hs : Sound s) (hst : Reachable step s t) {c : DeviceRegistration}
    (hc : c ∈ s.copies) (hweb : c.platform = .webPush)
    (hgone : ∀ r ∈ s.rows, r.id = c.id → r.isActive = false) : t.saveDeactivation c = t := by
  obtain ⟨hdrawn, hrows⟩ := hs.copies c hc
  apply saveDeactivation_eq
  intro r hr hid
  obtain ⟨a, ha, hid', hfollows⟩ :=
    (continues_of_reachable hs hst).2.rows r hr (hid ▸ hdrawn)
  have haid : a.id = c.id := hid'.trans hid
  have haweb : a.platform = .webPush := (hrows a ha haid (.inl hweb)).1.trans hweb
  exact (hfollows (.inl haweb)).2.2 (hgone a ha haid)

/-- In every history: one row for each token; no one else's active row is taken over; a web push id
has one meaning and is not active again once it was deactivated; and a deactivation with a web push
id that has been deactivated or replaced changes nothing. -/
theorem registrations_hold (hs : Reachable step start s) (hst : Reachable step s t) :
    (s.rows.map (·.token)).Nodup ∧
    (∀ move u, step s move = some u → ∀ r ∈ s.rows, r.isActive = true →
      ∃ r' ∈ u.rows, r'.token = r.token ∧ r'.userId = r.userId) ∧
    (∀ a ∈ s.rows, ∀ b ∈ t.rows, a.platform = .webPush ∨ b.platform = .webPush → b.id = a.id →
      b.platform = a.platform ∧ b.userId = a.userId ∧ b.subscription = a.subscription ∧
        b.signingKeyId = a.signingKeyId ∧ (a.isActive = false → b.isActive = false)) ∧
    ∀ c ∈ s.copies, c.platform = .webPush → (∀ r ∈ s.rows, r.id = c.id → r.isActive = false) →
      ∀ i u, t.copies[i]? = some c → step t (.saveDeactivation i) = some u → u = t := by
  have hsound : Sound s := sound_of_reachable hs
  refine ⟨hsound.tokens, fun move u hstep r hr hactive => step_keeps_user hstep hr hactive, ?_, ?_⟩
  · intro a ha b hb hweb hid
    obtain ⟨hplatform, hdenotes, hactive⟩ := follows_of_reachable hsound hst ha hb hid hweb
    simp only [DeviceRegistration.denotes, Prod.mk.injEq] at hdenotes
    exact ⟨hplatform, hdenotes.1, hdenotes.2.1, hdenotes.2.2, hactive⟩
  · intro c hc hweb hgone i u hcopy hstep
    rw [step, hcopy, Option.map_some, Option.some.injEq] at hstep
    rw [← hstep, void_deactivation hsound hst hc hweb hgone]

/-- The web push registration of user 1. -/
def browser (id : Guid) (registeredAt : Instant) : DeviceRegistration :=
  .registerWebPush id 1 ⟨"https://push.example/1", ⟨"key", "auth"⟩, none⟩ "k" registeredAt

def registerBrowser (id : Guid) (now : Instant) : DevicesMove :=
  .register ⟨1, .webPush, "", (browser id now).subscription, some "k"⟩ true id now

/-- Two deliveries have read a registration, and the first one has deactivated it. -/
def expired : Devices := ⟨[(browser 10 0).deactivate], [10], [browser 10 0, browser 10 0]⟩

/-- The user has registered the same subscription again. -/
def registeredAgain : Devices := ⟨[browser 11 5], [11, 10], [browser 10 0, browser 10 0]⟩

/-- The second delivery comes late and leaves the new registration active. -/
theorem registrations_hold_late_delivery :
    ∃ u, step registeredAgain (.saveDeactivation 1) = some u ∧ u = registeredAgain := by
  have hrun : follow step start
      [registerBrowser 10 0, .read 10, .read 10, .saveDeactivation 0] = some expired := by decide
  have hrun' : follow step expired [registerBrowser 11 5] = some registeredAgain := by decide
  have hsome : (step registeredAgain (.saveDeactivation 1)).isSome = true := by decide
  obtain ⟨u, hstep⟩ := Option.isSome_iff_exists.mp hsome
  exact ⟨u, hstep, (registrations_hold (reaches_of_run (fun _ _ _ => trivial) hrun)
    (reaches_of_run (fun _ _ _ => trivial) hrun')).2.2.2 (browser 10 0) (by decide) rfl (by decide)
    1 u rfl hstep⟩

end Devices

end Wallow.Notifications
