import Wallow.Notifications.WebPushKeys
import Wallow.Lib.Transition
import Wallow.Primitives

/-!
# Changes of a tenant's web push configuration

`RotateAsync`, `RetireAsync` and the handlers of the configuration endpoints, each a read, a query
whether the row exists and a save.  The save of a row that exists compares the ciphertext with the
one that was read.
-/

namespace Wallow.Notifications

open Transition WebPushCredentials

/-- `TenantPushConfiguration`, of the platform `WebPush`. -/
structure ConfigurationRow where
  id : Guid
  encryptedCredentials : String
  isEnabled : Bool
  deriving DecidableEq

inductive ConfigurationRequest
  | rotate (subject : String)
  | retire (keyId : String)
  | upsert (rawCredentials : String)
  | setEnabled (isEnabled : Bool)
  | remove
  deriving DecidableEq

/-- What a call draws: the id of a new row, the generated key, and the ciphertext. -/
structure ConfigurationDraw where
  rowId : Guid
  key : WebPushSigningKey
  encrypted : String
  deriving DecidableEq

/-- A tracked entity before its save: the ciphertext it was read with, `none` for a new one. -/
structure TrackedRow where
  original : Option String
  row : ConfigurationRow
  deriving DecidableEq

inductive ConfigurationStage
  | reading
  /-- Before the `AnyAsync` of `UpsertAsync`. -/
  | checking (tracked : TrackedRow)
  | saving (tracked : TrackedRow) (exists_ : Bool)
  | finished (success : Bool)
  deriving DecidableEq

structure ConfigurationCall where
  request : ConfigurationRequest
  stage : ConfigurationStage
  deriving DecidableEq

section Source

variable (host : PushPlatformHost)

/-- `WebPushCredentials.Parse(encryptor.Decrypt(..))`. -/
def readBack (encrypted : String) : Option WebPushCredentials :=
  (host.decrypt encrypted).bind host.parse

/-- `UpdateCredentials` on the row that was read, or a new row. -/
def withCredentials (existing : Option ConfigurationRow) (draw : ConfigurationDraw) : TrackedRow :=
  match existing with
  | some row =>
    ⟨some row.encryptedCredentials, { row with encryptedCredentials := draw.encrypted }⟩
  | none => ⟨none, ⟨draw.rowId, draw.encrypted, true⟩⟩

/-- The call saves `next`, which the drawn ciphertext must hold. -/
def saveCredentials (existing : Option ConfigurationRow) (draw : ConfigurationDraw)
    (next : WebPushCredentials) : Option ConfigurationStage :=
  if readBack host draw.encrypted = some next then
    some (.checking (withCredentials existing draw))
  else none

/-- The list `RotateAsync` saves: the generated key after the others, as the current one. -/
def rotated (previous : Option WebPushCredentials) (subject : String) (key : WebPushSigningKey) :
    WebPushCredentials where
  subject := subject
  currentKeyId := some key.id
  keys := (previous.map (·.keys)).getD [] ++ [{ key with retired := false }]

/-- `RotateAsync` after its read.  `previous` is what the row was parsed to. -/
def rotateAsync (existing : Option ConfigurationRow) (previous : Option WebPushCredentials)
    (draw : ConfigurationDraw) (subject : String) : Option ConfigurationStage :=
  if previous.any fun p => !p.isValidReplacementFor host none then some (.finished false)
  else if (rotated previous subject draw.key).isValidReplacementFor host previous then
    saveCredentials host existing draw (rotated previous subject draw.key)
  else some (.finished false)

/-- `RetireAsync` after its read. -/
def retireAsync (existing : Option ConfigurationRow) (previous : Option WebPushCredentials)
    (draw : ConfigurationDraw) (keyId : String) : Option ConfigurationStage :=
  match existing, previous with
  | some row, some p =>
    if p.isValidReplacementFor host none && p.keys.any (·.id = keyId) then
      saveCredentials host (some row) draw (p.retire keyId)
    else some (.finished false)
  | _, _ => some (.finished false)

/-- `UpsertTenantPushConfigHandler` after its read, with the check of the replacement. -/
def upsertTenantPushConfig (existing : Option ConfigurationRow)
    (previous : Option WebPushCredentials) (draw : ConfigurationDraw) (rawCredentials : String) :
    Option ConfigurationStage :=
  match host.parse rawCredentials with
  | none => some (.finished false)
  | some next =>
    if next.isValidReplacementFor host previous then
      if host.decrypt draw.encrypted = some rawCredentials then
        some (.checking (withCredentials existing draw))
      else none
    else some (.finished false)

/-- `SetTenantPushEnabledHandler` after its read. -/
def setTenantPushEnabled (existing : Option ConfigurationRow) (isEnabled : Bool) :
    ConfigurationStage :=
  match existing with
  | some row => .checking ⟨some row.encryptedCredentials, { row with isEnabled := isEnabled }⟩
  | none => .finished false

/-- The credentials of the row that was read go to `rest`, unless `Decrypt` throws. -/
def withPrevious (existing : Option ConfigurationRow)
    (rest : Option WebPushCredentials → Option ConfigurationStage) : Option ConfigurationStage :=
  match existing with
  | none => rest none
  | some row =>
    match host.decrypt row.encryptedCredentials with
    | none => some (.finished false)
    | some credentials => rest (host.parse credentials)

/-- What a call does with the row it has read, up to its `UpsertAsync`. -/
def prepare (existing : Option ConfigurationRow) (draw : ConfigurationDraw) :
    ConfigurationRequest → Option ConfigurationStage
  | .rotate subject =>
    withPrevious host existing fun previous => rotateAsync host existing previous draw subject
  | .retire keyId =>
    withPrevious host existing fun previous => retireAsync host existing previous draw keyId
  | .upsert rawCredentials =>
    withPrevious host existing fun previous =>
      upsertTenantPushConfig host existing previous draw rawCredentials
  | .setEnabled isEnabled => some (setTenantPushEnabled existing isEnabled)
  -- `RemoveTenantPushConfigHandler` refuses the platform
  | .remove => some (.finished false)

/-- `SaveChangesAsync` of `UpsertAsync`: an update under the concurrency token, or an insert under
the unique index; `none` for the exception. -/
def saveChanges (row : Option ConfigurationRow) (tracked : TrackedRow) (exists_ : Bool) :
    Option ConfigurationRow :=
  match row with
  | some current =>
    let token := tracked.original.getD tracked.row.encryptedCredentials
    if exists_ && current.id = tracked.row.id && current.encryptedCredentials = token then
      some tracked.row
    else none
  | none => if exists_ then none else some tracked.row

end Source

/-! ## Interleavings -/

structure PushConfiguration where
  row : Option ConfigurationRow
  calls : List ConfigurationCall
  /-- The keys for which `RetireAsync` has returned true. -/
  retired : List String
  deriving DecidableEq

inductive ConfigurationMove
  | submit (request : ConfigurationRequest)
  | read (i : Nat) (draw : ConfigurationDraw)
  | check (i : Nat)
  /-- The save of the `i`-th call; the call may not learn that it went through. -/
  | save (i : Nat) (answered : Bool)
  | fail (i : Nat)
  deriving DecidableEq

namespace PushConfiguration

def start : PushConfiguration := ⟨none, [], []⟩

def enter (s : PushConfiguration) (i : Nat) (call : ConfigurationCall)
    (stage : ConfigurationStage) : PushConfiguration :=
  { s with calls := s.calls.set i { call with stage := stage } }

variable (host : PushPlatformHost)

def read (s : PushConfiguration) (i : Nat) (draw : ConfigurationDraw) (call : ConfigurationCall) :
    Option PushConfiguration :=
  match call.stage with
  | .reading => (prepare host s.row draw call.request).map (s.enter i call)
  | _ => none

def check (s : PushConfiguration) (i : Nat) (call : ConfigurationCall) :
    Option PushConfiguration :=
  match call.stage with
  | .checking tracked =>
    some (s.enter i call (.saving tracked (s.row.any fun row => row.id = tracked.row.id)))
  | _ => none

/-- What the call's answer tells: the key its caller now takes for retired. -/
def answeredKeys : ConfigurationRequest → List String
  | .retire keyId => [keyId]
  | _ => []

def save (s : PushConfiguration) (i : Nat) (answered : Bool) (call : ConfigurationCall) :
    Option PushConfiguration :=
  match call.stage with
  | .saving tracked exists_ =>
    match saveChanges s.row tracked exists_ with
    | none => some (s.enter i call (.finished false))
    | some row =>
      some { s.enter i call (.finished answered) with
        row := some row
        retired := if answered then answeredKeys call.request ++ s.retired else s.retired }
  | _ => none

def fail (s : PushConfiguration) (i : Nat) (call : ConfigurationCall) : Option PushConfiguration :=
  match call.stage with
  | .finished _ => none
  | _ => some (s.enter i call (.finished false))

def step (s : PushConfiguration) : ConfigurationMove → Option PushConfiguration
  | .submit request => some { s with calls := s.calls ++ [⟨request, .reading⟩] }
  | .read i draw => s.calls[i]?.bind (s.read host i draw)
  | .check i => s.calls[i]?.bind (s.check i)
  | .save i answered => s.calls[i]?.bind (s.save i answered)
  | .fail i => s.calls[i]?.bind (s.fail i)

/-- The credentials the row holds. -/
def credentials (s : PushConfiguration) : Option WebPushCredentials :=
  s.row.bind fun row => readBack host row.encryptedCredentials

/-- `IsAvailableAsync`. -/
def isAvailable (s : PushConfiguration) (keyId : String) : Bool :=
  s.row.any fun row =>
    row.isEnabled &&
      (readBack host row.encryptedCredentials).any fun c =>
        c.isValidReplacementFor host none && c.keys.any fun key => key.id = keyId && !key.retired

/-! ## What a save writes -/

variable {host} {s t : PushConfiguration}

/-- The ciphertext holds a valid list. -/
def HoldsValid (host : PushPlatformHost) (encrypted : String) : Prop :=
  ∃ c, readBack host encrypted = some c ∧ c.isValid host = true

/-- What a tracked entity holds is valid, has retired what its call retires, and keeps the keys of
the row it was read from. -/
structure Justified (host : PushPlatformHost) (request : ConfigurationRequest)
    (tracked : TrackedRow) (next : WebPushCredentials) : Prop where
  holds : readBack host tracked.row.encryptedCredentials = some next
  valid : next.isValid host = true
  retires : ∀ keyId ∈ answeredKeys request, ∃ key ∈ next.keys, key.id = keyId ∧ key.retired = true
  advances : ∀ encrypted p, tracked.original = some encrypted → readBack host encrypted = some p →
    Advances p next

theorem withCredentials_encrypted (existing : Option ConfigurationRow) (draw : ConfigurationDraw) :
    (withCredentials existing draw).row.encryptedCredentials = draw.encrypted := by
  cases existing <;> rfl

theorem withCredentials_original (existing : Option ConfigurationRow) (draw : ConfigurationDraw) :
    (withCredentials existing draw).original = existing.map (·.encryptedCredentials) := by
  cases existing <;> rfl

/-- The row that was read holds `previous`, if there was one. -/
def Reads (host : PushPlatformHost) (existing : Option ConfigurationRow)
    (previous : Option WebPushCredentials) : Prop :=
  match existing with
  | none => previous = none
  | some row => readBack host row.encryptedCredentials = previous

section Prepare

variable {existing : Option ConfigurationRow} {previous : Option WebPushCredentials}
  {draw : ConfigurationDraw} {request : ConfigurationRequest} {stage : ConfigurationStage}

/-- A stage after the read: nothing to save, or something justified. -/
def Prepared (host : PushPlatformHost) (request : ConfigurationRequest)
    (stage : ConfigurationStage) : Prop :=
  stage = .finished false ∨ ∃ tracked next, stage = .checking tracked ∧
    Justified host request tracked next

theorem justified_withCredentials {next : WebPushCredentials}
    (hreads : Reads host existing previous)
    (hholds : readBack host draw.encrypted = some next) (hvalid : next.isValid host = true)
    (hretires : ∀ keyId ∈ answeredKeys request,
      ∃ key ∈ next.keys, key.id = keyId ∧ key.retired = true)
    (hadvances : ∀ p, previous = some p → Advances p next) :
    Justified host request (withCredentials existing draw) next where
  holds := by rw [withCredentials_encrypted, hholds]
  valid := hvalid
  retires := hretires
  advances := by
    intro encrypted p horiginal hp
    rw [withCredentials_original] at horiginal
    cases existing with
    | none => cases horiginal
    | some row =>
      simp only [Option.map_some, Option.some.injEq] at horiginal
      subst horiginal
      exact hadvances p (hreads.symm.trans hp)

theorem isValidReplacementFor_iff {next : WebPushCredentials} :
    next.isValidReplacementFor host previous = true ↔
      next.isValid host = true ∧ ∀ p, previous = some p → Advances p next := by
  rw [isValidReplacementFor, Bool.and_eq_true]
  cases previous with
  | none => simp
  | some p => simp [keepsKeys_iff]

theorem rotateAsync_prepared {subject : String} (hreads : Reads host existing previous)
    (h : rotateAsync host existing previous draw subject = some stage) :
    Prepared host (.rotate subject) stage := by
  unfold rotateAsync at h
  split at h
  · exact .inl (Option.some.inj h).symm
  · split at h
    · rename_i hvalid
      rw [isValidReplacementFor_iff] at hvalid
      simp only [saveCredentials, Option.ite_none_right_eq_some, Option.some.injEq] at h
      obtain ⟨hholds, rfl⟩ := h
      exact .inr ⟨_, _, rfl, justified_withCredentials hreads hholds hvalid.1
        (by simp [answeredKeys]) hvalid.2⟩
    · exact .inl (Option.some.inj h).symm

theorem retireAsync_prepared {keyId : String} (hreads : Reads host existing previous)
    (h : retireAsync host existing previous draw keyId = some stage) :
    Prepared host (.retire keyId) stage := by
  cases existing with
  | none => exact .inl (Option.some.inj h).symm
  | some row =>
    cases previous with
    | none => exact .inl (Option.some.inj h).symm
    | some p =>
      rw [retireAsync] at h
      split at h
      · rename_i hcond
        rw [Bool.and_eq_true, isValidReplacementFor_iff] at hcond
        simp only [saveCredentials, Option.ite_none_right_eq_some, Option.some.injEq] at h
        obtain ⟨hholds, rfl⟩ := h
        refine .inr ⟨_, _, rfl, justified_withCredentials hreads hholds
          (retire_isValid keyId hcond.1.1) ?_ ?_⟩
        · intro keyId' hmem
          rw [answeredKeys, List.mem_singleton] at hmem
          rw [hmem]
          exact retire_retires hcond.2
        · intro p' hp'
          cases hp'
          exact retire_advances p keyId
      · exact .inl (Option.some.inj h).symm

theorem upsert_prepared {rawCredentials : String} (hreads : Reads host existing previous)
    (h : upsertTenantPushConfig host existing previous draw rawCredentials = some stage) :
    Prepared host (.upsert rawCredentials) stage := by
  unfold upsertTenantPushConfig at h
  cases hparse : host.parse rawCredentials with
  | none =>
    rw [hparse] at h
    exact .inl (Option.some.inj h).symm
  | some next =>
    simp only [hparse] at h
    split at h
    · rename_i hvalid
      rw [isValidReplacementFor_iff] at hvalid
      simp only [Option.ite_none_right_eq_some, Option.some.injEq] at h
      obtain ⟨hdecrypt, rfl⟩ := h
      have hholds : readBack host draw.encrypted = some next := by
        rw [readBack, hdecrypt, Option.bind_some, hparse]
      exact .inr ⟨_, _, rfl, justified_withCredentials hreads hholds hvalid.1
        (by simp [answeredKeys]) hvalid.2⟩
    · exact .inl (Option.some.inj h).symm

theorem withPrevious_cases {rest : Option WebPushCredentials → Option ConfigurationStage}
    (h : withPrevious host existing rest = some stage) :
    stage = .finished false ∨ ∃ previous, Reads host existing previous ∧
      rest previous = some stage := by
  cases existing with
  | none => exact .inr ⟨none, rfl, h⟩
  | some row =>
    rw [withPrevious] at h
    cases hdecrypt : host.decrypt row.encryptedCredentials with
    | none =>
      rw [hdecrypt] at h
      exact .inl (Option.some.inj h).symm
    | some credentials =>
      rw [hdecrypt] at h
      refine .inr ⟨host.parse credentials, ?_, h⟩
      rw [Reads, readBack, hdecrypt, Option.bind_some]

/-- Whatever a call wants to save is justified by what it has read. -/
theorem prepare_prepared
    (hrow : ∀ row, existing = some row → HoldsValid host row.encryptedCredentials)
    (h : prepare host existing draw request = some stage) : Prepared host request stage := by
  cases request with
  | rotate subject =>
    rw [prepare] at h
    obtain hfail | ⟨previous, hreads, hrest⟩ := withPrevious_cases h
    · exact .inl hfail
    · exact rotateAsync_prepared hreads hrest
  | retire keyId =>
    rw [prepare] at h
    obtain hfail | ⟨previous, hreads, hrest⟩ := withPrevious_cases h
    · exact .inl hfail
    · exact retireAsync_prepared hreads hrest
  | upsert rawCredentials =>
    rw [prepare] at h
    obtain hfail | ⟨previous, hreads, hrest⟩ := withPrevious_cases h
    · exact .inl hfail
    · exact upsert_prepared hreads hrest
  | setEnabled isEnabled =>
    rw [prepare, Option.some.injEq] at h
    subst h
    cases existing with
    | none => exact .inl rfl
    | some row =>
      -- the ciphertext goes back as it was read
      obtain ⟨c, hc, hvalid⟩ := hrow row rfl
      refine .inr ⟨_, c, rfl, ⟨hc, hvalid, by simp [answeredKeys], ?_⟩⟩
      intro encrypted p horiginal hp
      cases horiginal
      rw [hc, Option.some.injEq] at hp
      exact hp ▸ Advances.refl c
  | remove => exact .inl (Option.some.inj h).symm

end Prepare

/-! ## The configuration in every interleaving -/

/-- The entity a stage has in its hands. -/
def heldRow : ConfigurationStage → Option TrackedRow
  | .checking tracked => some tracked
  | .saving tracked _ => some tracked
  | _ => none

def CallSound (host : PushPlatformHost) (call : ConfigurationCall) : Prop :=
  ∀ tracked, heldRow call.stage = some tracked → ∃ next, Justified host call.request tracked next

structure Sound (host : PushPlatformHost) (s : PushConfiguration) : Prop where
  row : ∀ row, s.row = some row → HoldsValid host row.encryptedCredentials
  calls : ∀ call ∈ s.calls, CallSound host call
  retired : ∀ keyId ∈ s.retired, ∃ c, s.credentials host = some c ∧
    ∃ key ∈ c.keys, key.id = keyId ∧ key.retired = true

theorem sound_start : Sound host start where
  row := by simp [start]
  calls := by simp [start]
  retired := by simp [start]

/-- The list of `t` goes on from that of `s`. -/
def Continues (host : PushPlatformHost) (s t : PushConfiguration) : Prop :=
  ∀ c, s.credentials host = some c → ∃ c', t.credentials host = some c' ∧ Advances c c'

theorem Continues.refl (s : PushConfiguration) : Continues host s s :=
  fun c hc => ⟨c, hc, Advances.refl c⟩

theorem Continues.trans {u : PushConfiguration} (h : Continues host s t)
    (h' : Continues host t u) : Continues host s u := by
  intro c hc
  obtain ⟨c', hc', hadv⟩ := h c hc
  obtain ⟨c'', hc'', hadv'⟩ := h' c' hc'
  exact ⟨c'', hc'', hadv.trans hadv'⟩

theorem continues_of_row_eq (h : t.row = s.row) : Continues host s t := by
  intro c hc
  exact ⟨c, by rw [credentials, h]; exact hc, Advances.refl c⟩

/-- The keys that were retired stay so when the list goes on. -/
theorem Sound.retired_of_continues (h : Sound host s) (hst : Continues host s t) :
    ∀ keyId ∈ s.retired, ∃ c, t.credentials host = some c ∧
      ∃ key ∈ c.keys, key.id = keyId ∧ key.retired = true := by
  intro keyId hmem
  obtain ⟨c, hc, key, hkey, hid, hretired⟩ := h.retired keyId hmem
  obtain ⟨c', hc', hadv⟩ := hst c hc
  obtain ⟨key', hkey', hid', -, hretired'⟩ := hadv key hkey
  exact ⟨c', hc', key', hkey', hid'.trans hid, hretired' hretired⟩

/-- A stage that a call enters without a save keeps everything. -/
theorem enter_sound (h : Sound host s) {i : Nat} {call : ConfigurationCall}
    {stage : ConfigurationStage} (hstage : CallSound host { call with stage := stage }) :
    Sound host (s.enter i call stage) where
  row := h.row
  calls := by
    intro call' hmem
    obtain hold | rfl := List.mem_or_eq_of_mem_set hmem
    · exact h.calls call' hold
    · exact hstage
  retired := h.retired

theorem callSound_finished (request : ConfigurationRequest) (success : Bool) :
    CallSound host ⟨request, .finished success⟩ := by
  intro tracked h
  cases h

/-- The save goes through only on a row that holds what the entity was read with. -/
theorem saveChanges_spec {tracked : TrackedRow} {exists_ : Bool} {row : ConfigurationRow}
    {request : ConfigurationRequest} {next : WebPushCredentials}
    (hjustified : Justified host request tracked next)
    (h : saveChanges s.row tracked exists_ = some row) :
    row = tracked.row ∧ ∀ c, s.credentials host = some c → Advances c next := by
  cases hrow : s.row with
  | none =>
    simp only [hrow, saveChanges, Option.ite_none_left_eq_some, Option.some.injEq] at h
    refine ⟨h.2.symm, fun c hc => ?_⟩
    rw [credentials, hrow] at hc
    cases hc
  | some current =>
    simp only [hrow, saveChanges, Option.ite_none_right_eq_some, Bool.and_eq_true,
      decide_eq_true_eq, Option.some.injEq] at h
    obtain ⟨⟨-, htoken⟩, hsaved⟩ := h
    refine ⟨hsaved.symm, fun c hc => ?_⟩
    rw [credentials, hrow, Option.bind_some, htoken] at hc
    cases horiginal : tracked.original with
    | some encrypted =>
      rw [horiginal, Option.getD_some] at hc
      exact hjustified.advances encrypted c horiginal hc
    | none =>
      -- the row would hold the ciphertext that is to be saved
      rw [horiginal, Option.getD_none, hjustified.holds, Option.some.injEq] at hc
      exact hc ▸ Advances.refl next

theorem save_sound (h : Sound host s) {i : Nat} {answered : Bool} {call : ConfigurationCall}
    (hcall : CallSound host call) (hsave : s.save i answered call = some t) :
    Sound host t ∧ Continues host s t := by
  cases hstage : call.stage with
  | reading => simp [save, hstage] at hsave
  | checking tracked => simp [save, hstage] at hsave
  | finished success => simp [save, hstage] at hsave
  | saving tracked exists_ =>
    obtain ⟨next, hjustified⟩ := hcall tracked (by rw [hstage]; rfl)
    simp only [save, hstage] at hsave
    cases hchanges : saveChanges s.row tracked exists_ with
    | none =>
      rw [hchanges, Option.some.injEq] at hsave
      subst hsave
      exact ⟨enter_sound h (callSound_finished _ _), continues_of_row_eq rfl⟩
    | some row =>
      rw [hchanges, Option.some.injEq] at hsave
      obtain ⟨rfl, hadvances⟩ := saveChanges_spec hjustified hchanges
      subst hsave
      have hcontinues : Continues host s
          { s.enter i call (.finished answered) with
            row := some tracked.row
            retired := if answered then answeredKeys call.request ++ s.retired else s.retired } :=
        fun c hc => ⟨next, hjustified.holds, hadvances c hc⟩
      refine ⟨⟨?_, (enter_sound h (callSound_finished _ _)).calls, ?_⟩, hcontinues⟩
      · intro row hrow
        cases hrow
        exact ⟨next, hjustified.holds, hjustified.valid⟩
      · intro keyId hmem
        cases answered with
        | false => exact h.retired_of_continues hcontinues keyId hmem
        | true =>
          simp only [if_true, List.mem_append] at hmem
          cases hmem with
          | inl hnew => exact ⟨next, hjustified.holds, hjustified.retires keyId hnew⟩
          | inr hold => exact h.retired_of_continues hcontinues keyId hold

theorem step_sound (h : Sound host s) {move : ConfigurationMove}
    (hstep : step host s move = some t) : Sound host t ∧ Continues host s t := by
  cases move with
  | submit request =>
    cases hstep
    refine ⟨⟨h.row, ?_, h.retired⟩, continues_of_row_eq rfl⟩
    intro call hmem
    rw [List.mem_append, List.mem_singleton] at hmem
    obtain hold | rfl := hmem
    · exact h.calls call hold
    · intro tracked hheld
      cases hheld
  | read i draw =>
    obtain ⟨call, hcall, hread⟩ := Option.bind_eq_some_iff.mp hstep
    cases hstage : call.stage with
    | reading =>
      simp only [read, hstage, Option.map_eq_some_iff] at hread
      obtain ⟨stage, hprepare, rfl⟩ := hread
      refine ⟨enter_sound h ?_, continues_of_row_eq rfl⟩
      intro tracked hheld
      obtain rfl | ⟨tracked', next, rfl, hjustified⟩ := prepare_prepared h.row hprepare
      · cases hheld
      · cases hheld
        exact ⟨next, hjustified⟩
    | checking tracked => simp [read, hstage] at hread
    | saving tracked exists_ => simp [read, hstage] at hread
    | finished success => simp [read, hstage] at hread
  | check i =>
    obtain ⟨call, hcall, hcheck⟩ := Option.bind_eq_some_iff.mp hstep
    cases hstage : call.stage with
    | checking tracked =>
      simp only [check, hstage, Option.some.injEq] at hcheck
      subst hcheck
      refine ⟨enter_sound h ?_, continues_of_row_eq rfl⟩
      intro tracked' hheld
      cases hheld
      exact h.calls call (List.mem_of_getElem? hcall) tracked (by rw [hstage]; rfl)
    | reading => simp [check, hstage] at hcheck
    | saving tracked exists_ => simp [check, hstage] at hcheck
    | finished success => simp [check, hstage] at hcheck
  | save i answered =>
    obtain ⟨call, hcall, hsave⟩ := Option.bind_eq_some_iff.mp hstep
    exact save_sound h (h.calls call (List.mem_of_getElem? hcall)) hsave
  | fail i =>
    obtain ⟨call, hcall, hfail⟩ := Option.bind_eq_some_iff.mp hstep
    have hentered : t = s.enter i call (.finished false) := by
      unfold fail at hfail
      split at hfail
      · cases hfail
      · exact (Option.some.inj hfail).symm
    subst hentered
    exact ⟨enter_sound h (callSound_finished _ _), continues_of_row_eq rfl⟩

theorem sound_of_reachable (h : Reachable (step host) start s) : Sound host s :=
  h.invariant (Sound host) sound_start fun _ _ _ ha _ hstep => (step_sound ha hstep).1

theorem continues_of_reachable (h : Sound host s) (hst : Reachable (step host) s t) :
    Sound host t ∧ Continues host s t :=
  hst.invariant (fun t => Sound host t ∧ Continues host s t) ⟨h, Continues.refl s⟩
    fun _ _ _ ha _ hstep =>
      have hnext := step_sound ha.1 hstep
      ⟨hnext.1, ha.2.trans hnext.2⟩

theorem Sound.valid (h : Sound host s) {c : WebPushCredentials} (hc : s.credentials host = some c) :
    c.isValid host = true := by
  obtain ⟨row, hrow, hread⟩ := Option.bind_eq_some_iff.mp hc
  obtain ⟨c', hc', hvalid⟩ := h.row row hrow
  rw [hread, Option.some.injEq] at hc'
  exact hc' ▸ hvalid

/-- In every interleaving: a key whose retirement was confirmed is not available and its private
key is not kept; no key id is lost or changes its public key; and the current key, if any, is one
that is not retired. -/
theorem webPush_keys_kept (hs : Reachable (step host) start s)
    (hst : Reachable (step host) s t) :
    (∀ keyId ∈ s.retired, t.isAvailable host keyId = false ∧
      ∃ c, t.credentials host = some c ∧
        ∀ key ∈ c.keys, key.id = keyId → key.retired = true ∧ key.privateKey = none) ∧
    (∀ c, s.credentials host = some c → ∃ c', t.credentials host = some c' ∧
      ∀ old ∈ c.keys, (∃ key ∈ c'.keys, key.id = old.id) ∧
        ∀ key ∈ c'.keys, key.id = old.id → key.publicKey = old.publicKey) ∧
    ∀ c, t.credentials host = some c → ∀ current, c.currentKeyId = some current →
      ∃ key ∈ c.keys, key.id = current ∧ key.retired = false := by
  have hsound := sound_of_reachable hs
  obtain ⟨hsound', hcontinues⟩ := continues_of_reachable hsound hst
  refine ⟨?_, ?_, ?_⟩
  · intro keyId hmem
    obtain ⟨c, hc, key, hkey, rfl, hretired⟩ := hsound.retired_of_continues hcontinues keyId hmem
    have hall : ∀ key' ∈ c.keys, key'.id = key.id → key'.retired = true ∧ key'.privateKey = none :=
      fun key' hkey' hid => retired_of_id (hsound'.valid hc) hkey hretired hkey' hid
    refine ⟨?_, c, hc, hall⟩
    obtain ⟨row, hrow, hread⟩ := Option.bind_eq_some_iff.mp hc
    rw [isAvailable, hrow, Option.any_some, hread, Option.any_some]
    have hnone : (c.keys.any fun key' => decide (key'.id = key.id) && !key'.retired) = false := by
      rw [List.any_eq_false]
      intro key' hkey' hcond
      simp only [Bool.and_eq_true, decide_eq_true_eq, Bool.not_eq_true'] at hcond
      rw [(hall key' hkey' hcond.1).1] at hcond
      cases hcond.2
    rw [hnone, Bool.and_false, Bool.and_false]
  · intro c hc
    obtain ⟨c', hc', hadv⟩ := hcontinues c hc
    refine ⟨c', hc', fun old hold => ?_⟩
    obtain ⟨key, hkey, hid, hpublic, -⟩ := hadv old hold
    refine ⟨⟨key, hkey, hid⟩, fun key' hkey' hid' => ?_⟩
    have hnodup := (isValid_iff.mp (hsound'.valid hc')).2.2.2.1
    rw [List.inj_on_of_nodup_map hnodup hkey' hkey (hid'.trans hid.symm), hpublic]
  · intro c hc
    exact currentValid_iff.mp (isValid_iff.mp (hsound'.valid hc)).2.2.2.2.2.1

/-! ### A confirmed retirement -/

/-- The base point of the curve, as a public key. -/
def basePoint : List UInt8 :=
  [4, 107, 23, 209, 242, 225, 44, 66, 71, 248, 188, 230, 229, 99, 164, 64, 242, 119, 3, 125, 129,
    45, 235, 51, 160, 244, 161, 57, 69, 216, 152, 194, 150, 79, 227, 66, 226, 254, 26, 127, 155,
    142, 231, 235, 74, 124, 15, 158, 22, 43, 206, 51, 87, 107, 49, 94, 206, 203, 182, 64, 104, 55,
    191, 81, 245]

def basePointText : String :=
  "BGsX0fLhLEJH-Lzm5WOkQPJ3A32BLeszoPShOUXYmMKWT-NC4v4af5uO5-tKfA-eFivOM1drMV7Oy7ZAaDe_UfU"

/-- The private key one. -/
def oneText : String := "AAAAAAAAAAAAAAAAAAAAAAAAAAAAAAAAAAAAAAAAAAE"

def oneKey : WebPushCredentials :=
  ⟨"mailto:ops@example.com", some "k", [⟨"k", basePointText, some oneText, false⟩]⟩

def oneKeyJson : String :=
  "\x7b\"subject\":\"mailto:ops@example.com\",\"currentKeyId\":\"k\",\"keys\":[\x7b\"id\":\"k\"," ++
    "\"publicKey\":\"" ++ basePointText ++ "\",\"privateKey\":\"" ++ oneText ++
    "\",\"retired\":false\x7d]\x7d"

def retiredJson : String :=
  "\x7b\"subject\":\"mailto:ops@example.com\",\"currentKeyId\":null,\"keys\":[\x7b\"id\":\"k\"," ++
    "\"publicKey\":\"" ++ basePointText ++ "\",\"privateKey\":null,\"retired\":true\x7d]\x7d"

/-- The framework on these texts. -/
def oneKeyHost : PushPlatformHost where
  tryCreateUri := fun text =>
    if text = "mailto:ops@example.com" then some ⟨"mailto", "ops", "example.com"⟩ else none
  decodeFromChars := fun text => if text = basePointText then some basePoint else none
  encodeToString := fun bytes => if bytes = basePoint then basePointText else ""
  imports := fun bytes => bytes = basePoint
  signs := fun bytes privateKey => bytes = basePoint && privateKey = some oneText
  parse := fun text =>
    if text = oneKeyJson then some oneKey
    else if text = retiredJson then some (oneKey.retire "k")
    else none
  decrypt := fun encrypted =>
    if encrypted = "first" then some oneKeyJson
    else if encrypted = "second" then some retiredJson
    else none

def keyRetired : PushConfiguration where
  row := some ⟨1, "second", true⟩
  calls := [⟨.upsert oneKeyJson, .finished true⟩, ⟨.retire "k", .finished true⟩]
  retired := ["k"]

/-- The key of a confirmed retirement is not available. -/
theorem webPush_keys_kept_retired : keyRetired.isAvailable oneKeyHost "k" = false := by
  have hrun : follow (step oneKeyHost) start
      [.submit (.upsert oneKeyJson), .read 0 ⟨1, ⟨"k", basePointText, none, false⟩, "first"⟩,
        .check 0, .save 0 true, .submit (.retire "k"),
        .read 1 ⟨2, ⟨"k", basePointText, none, false⟩, "second"⟩, .check 1, .save 1 true] =
      some keyRetired := by decide +kernel
  exact ((webPush_keys_kept (reaches_of_run (fun _ _ _ => trivial) hrun) .refl).1 "k"
    (by decide +kernel)).1

end PushConfiguration

end Wallow.Notifications
