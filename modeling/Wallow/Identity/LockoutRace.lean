import Wallow.Identity.Mfa
import Wallow.Lib.RowStore
import Wallow.Lib.Transition
import Mathlib.Data.List.Count

/-!
# Wrong codes recorded at the same time

`MfaLockoutService.RecordFailureAsync`, cut at its Redis and database calls.  The increment is made
on the copy the call read, and the save asks for that copy's concurrency stamp; but a save made
through the context renews no stamp, so of two calls that read one counter both save its
successor.
-/

namespace Wallow.Identity

open Transition RowStore

/-- Where a call stands.  `tracked` is the copy the request's context holds already, if the
endpoint has loaded the user. -/
inductive FailureStage
  | start (tracked : Option (Row WallowUser))
  /-- Redis names no lockout; the user is read next. -/
  | checked (tracked : Option (Row WallowUser))
  /-- There is no such user: a placeholder is inserted. -/
  | creating
  | saving (copy : Row WallowUser)
  /-- Saved and locked out: the lockout is written to Redis. -/
  | caching (user : WallowUser)
  | finished
  deriving DecidableEq

/-- The call has been answered without the database, has saved, or has thrown. -/
def FailureStage.ended : FailureStage → Bool
  | .caching _ | .finished => true
  | _ => false

/-- The copy of the user a call works on. -/
def FailureStage.copy : FailureStage → Option (Row WallowUser)
  | .start tracked | .checked tracked => tracked
  | .saving copy => some copy
  | _ => none

/-- The user's row with its concurrency stamp, the `mfa:lockout:` key in unix seconds, and the
calls made so far. -/
structure FailureDb where
  user : Option (Row WallowUser)
  lockout : Option Nat
  now : Instant
  nextStamp : Nat
  calls : List FailureStage

inductive FailureMove
  | recordFailure
  /-- The endpoint of a call loads the user. -/
  | track (i : Nat)
  /-- The next call of Redis or of the database; a failing Redis is passed over. -/
  | act (i : Nat) (redisFails : Bool)
  /-- Another service saves the user, under a new stamp, and leaves the counter and the lockout as
  they are. -/
  | touch (user : WallowUser)
  | tick (ticks : Nat)

namespace FailureDb

/-- No call has been made. -/
def initial (user : Option (Row WallowUser)) (lockout : Option Nat) (now : Instant)
    (nextStamp : Nat) : FailureDb :=
  ⟨user, lockout, now, nextStamp, []⟩

def attempts (s : FailureDb) : Nat :=
  (s.user.map (·.value.mfaFailedAttempts)).getD 0

def ended (s : FailureDb) : Nat :=
  s.calls.countP (·.ended)

/-- Redis names a lockout that has not passed. -/
def cachedLockout (s : FailureDb) : Bool :=
  s.lockout.any (s.now < · * TICKS_PER_SECOND)

def lockedOut (s : FailureDb) : Bool :=
  (s.user.any (·.value.isMfaLockedOut s.now)) || s.cachedLockout

def enter (s : FailureDb) (i : Nat) (stage : FailureStage) : FailureDb :=
  { s with calls := s.calls.set i stage }

/-- `WallowUser.Create("MFA", "User", …)` under the id asked for. -/
def placeholder (userId : Guid) (idText : String) : WallowUser where
  id := userId
  email := some (idText ++ "@mfa.internal")
  normalizedEmail := none
  emailConfirmed := false
  passwordHash := none
  hasPassword := true
  isActive := true
  lockoutEnabled := false
  lockoutEnd := none
  accessFailedCount := 0
  mfaEnabled := false
  mfaMethod := none
  totpSecretEncrypted := none
  backupCodesHash := none
  mfaGraceDeadline := none
  mfaFailedAttempts := 0
  mfaLockoutEnd := none
  mfaLockoutCount := 0

/-- The `UPDATE` sets the counter, and the lockout where the copy's was changed. -/
def writeFailure (row copy recorded : WallowUser) : WallowUser :=
  { row with
    mfaFailedAttempts := recorded.mfaFailedAttempts
    mfaLockoutEnd :=
      if recorded.mfaLockoutEnd = copy.mfaLockoutEnd then row.mfaLockoutEnd
      else recorded.mfaLockoutEnd
    mfaLockoutCount :=
      if recorded.mfaLockoutCount = copy.mfaLockoutCount then row.mfaLockoutCount
      else recorded.mfaLockoutCount }

variable (maxAttempts : Nat) (userId : Guid) (idText : String)

def act (s : FailureDb) (i : Nat) (redisFails : Bool) : FailureStage → Option FailureDb
  | .start tracked =>
    -- a lockout in Redis is the answer: nothing is counted
    if !redisFails && s.cachedLockout then some (s.enter i .finished)
    else some (s.enter i (.checked tracked))
  | .checked tracked =>
    match s.user with
    -- a tracking query answers with the copy the context holds
    | some row => some (s.enter i (.saving (tracked.getD row)))
    | none => some (s.enter i .creating)
  | .creating =>
    match s.user with
    -- another call has inserted the placeholder: the key is taken and the call throws
    | some _ => some (s.enter i .finished)
    | none =>
      let row : Row WallowUser := ⟨placeholder userId idText, s.nextStamp⟩
      some ({ s with user := some row, nextStamp := s.nextStamp + 1 }.enter i (.saving row))
  | .saving copy =>
    match copy.value.recordMfaFailure maxAttempts s.now, s.user with
    -- the backoff overflows: the call throws before it saves
    | none, _ | _, none => some (s.enter i .finished)
    | some recorded, some row =>
      -- `WHERE concurrency_stamp = …`; the stamp written is the one there was
      if row.version = copy.version then
        let saved : Row WallowUser := ⟨writeFailure row.value copy.value recorded, row.version⟩
        some ({ s with user := some saved }.enter i
          -- the answer is the copy's, whatever the row held besides
          (if recorded.isMfaLockedOut s.now then .caching recorded else .finished))
      else some (s.enter i .finished)
  | .caching user =>
    if redisFails || !user.isMfaLockedOut s.now then some (s.enter i .finished)
    else some ({ s with lockout := user.mfaLockoutEnd.map (· / TICKS_PER_SECOND) }.enter i
      .finished)
  | .finished => none

def step (s : FailureDb) : FailureMove → Option FailureDb
  | .recordFailure => some { s with calls := s.calls ++ [.start none] }
  | .track i =>
    match s.calls[i]?, s.user with
    | some (.start none), some row => some (s.enter i (.start (some row)))
    | _, _ => none
  | .act i redisFails => s.calls[i]?.bind (s.act maxAttempts userId idText i redisFails)
  | .touch user =>
    match s.user with
    | none => none
    | some row =>
      let saved : WallowUser := { user with
        mfaFailedAttempts := row.value.mfaFailedAttempts
        mfaLockoutEnd := row.value.mfaLockoutEnd
        mfaLockoutCount := row.value.mfaLockoutCount }
      some { s with user := some ⟨saved, s.nextStamp⟩, nextStamp := s.nextStamp + 1 }
  | .tick ticks => some { s with now := s.now + ticks }

/-- The call is not refused by a lockout in Redis, its placeholder meets no other one, its backoff
does not overflow, and its save finds the stamp and the counter it read. -/
def inOrder (s : FailureDb) : FailureMove → Bool
  | .act i redisFails =>
    match s.calls[i]? with
    | some (.start _) => redisFails || !s.cachedLockout
    | some .creating => s.user.isNone
    | some (.saving copy) =>
      (copy.value.recordMfaFailure maxAttempts s.now).isSome &&
        s.user.any fun row => row.version = copy.version &&
          row.value.mfaFailedAttempts = copy.value.mfaFailedAttempts
    | _ => true
  | _ => true

/-! ## The counter -/

/-- The counter is at most what the ended calls account for, and a copy that is at that bound is
the counter as it stands. -/
structure Bounded (start : Nat) (s : FailureDb) : Prop where
  attempts_le : s.attempts ≤ start + s.ended
  copies : ∀ stage ∈ s.calls, ∀ copy ∈ stage.copy,
    copy.value.mfaFailedAttempts ≤ start + s.ended ∧
      (copy.value.mfaFailedAttempts = start + s.ended → s.attempts = start + s.ended)

/-- Every ended call is in the counter. -/
def AllCounted (start : Nat) (s : FailureDb) : Prop :=
  s.attempts = start + s.ended

variable {maxAttempts userId idText} {start i : Nat} {s s' : FailureDb}
  {stage old : FailureStage} {row copy : Row WallowUser}

theorem attempts_recordMfaFailure {user recorded : WallowUser} {maxAttempts now : Nat}
    (h : user.recordMfaFailure maxAttempts now = some recorded) :
    recorded.mfaFailedAttempts = user.mfaFailedAttempts + 1 := by
  obtain ⟨lockoutEnd, count, rfl⟩ := WallowUser.recordMfaFailure_eq_some h
  rfl

theorem attempts_some (h : s.user = some row) : s.attempts = row.value.mfaFailedAttempts := by
  rw [attempts, h]
  rfl

theorem ended_enter (hi : s.calls[i]? = some old) (hold : old.ended = false) :
    (s.enter i stage).ended = s.ended + (if stage.ended then 1 else 0) := by
  obtain ⟨hlt, hget⟩ := List.getElem?_eq_some_iff.mp hi
  show (s.calls.set i stage).countP (·.ended) = _
  rw [List.countP_set hlt, hget, hold, ended]
  simp

theorem initial_bounded (user : Option (Row WallowUser)) (lockout : Option Nat) (now : Instant)
    (nextStamp : Nat) :
    Bounded (initial user lockout now nextStamp).attempts (initial user lockout now nextStamp) where
  attempts_le := Nat.le_refl _
  copies stage h := by cases h

/-- A call goes on without the counter: the copy it takes up is one it had, or the row. -/
theorem Bounded.enter (h : Bounded start s) (stage : FailureStage)
    (hi : s.calls[i]? = some old) (hended : stage.ended = old.ended)
    (hcopy : ∀ copy ∈ stage.copy, copy ∈ old.copy ∨ s.attempts = copy.value.mfaFailedAttempts) :
    Bounded start (s.enter i stage) ∧ (s.enter i stage).ended = s.ended := by
  have hsame : (s.enter i stage).ended = s.ended := by
    obtain ⟨hlt, hget⟩ := List.getElem?_eq_some_iff.mp hi
    show (s.calls.set i stage).countP (·.ended) = _
    rw [List.countP_set hlt, hget, hended, ended]
    by_cases ho : old.ended
    · have hpos : 0 < s.calls.countP (·.ended) :=
        List.countP_pos_iff.mpr ⟨old, List.mem_of_getElem? hi, ho⟩
      rw [if_pos ho]
      omega
    · rw [if_neg ho]
      omega
  refine ⟨⟨hsame ▸ h.attempts_le, fun c hc copy hmem => ?_⟩, hsame⟩
  rw [hsame]
  cases List.mem_or_eq_of_mem_set hc with
  | inl hold => exact h.copies c hold copy hmem
  | inr heq =>
    -- the copy is an old one, or the row as it stands
    cases hcopy copy (heq ▸ hmem) with
    | inl hold => exact h.copies old (List.mem_of_getElem? hi) copy hold
    | inr hrow =>
      rw [← hrow]
      exact ⟨h.attempts_le, fun heq => heq⟩

/-- A call ends and leaves the row alone: it has not been counted. -/
theorem Bounded.end_uncounted (h : Bounded start s) (stage : FailureStage)
    (hi : s.calls[i]? = some old) (hold : old.ended = false) (hnew : stage.ended = true)
    (hcopy : stage.copy = none) :
    Bounded start (s.enter i stage) ∧ ¬ AllCounted start (s.enter i stage) := by
  have hone : (s.enter i stage).ended = s.ended + 1 := by
    rw [ended_enter hi hold, hnew]
    rfl
  have hattempts : (s.enter i stage).attempts = s.attempts := rfl
  have hle : s.attempts ≤ start + s.ended := h.attempts_le
  refine ⟨⟨by omega, fun c hc copy hmem => ?_⟩, ?_⟩
  · cases List.mem_or_eq_of_mem_set hc with
    | inl hin =>
      have hcopy' := (h.copies c hin copy hmem).1
      exact ⟨by omega, fun heq => absurd heq (by omega)⟩
    | inr heq =>
      rw [heq, hcopy] at hmem
      cases hmem
  · unfold AllCounted
    omega

/-- A call ends with its save: it writes the successor of its copy. -/
theorem Bounded.end_saved (h : Bounded start s) (user : Row WallowUser)
    (hi : s.calls[i]? = some (.saving copy)) (hnew : stage.ended = true)
    (hcopy : stage.copy = none)
    (huser : user.value.mfaFailedAttempts = copy.value.mfaFailedAttempts + 1) :
    Bounded start ({ s with user := some user }.enter i stage) ∧
      (AllCounted start ({ s with user := some user }.enter i stage) ↔
        AllCounted start s ∧ s.attempts = copy.value.mfaFailedAttempts) := by
  have hone : ({ s with user := some user }.enter i stage).ended = s.ended + 1 := by
    rw [ended_enter (s := { s with user := some user }) hi rfl, hnew]
    rfl
  have hattempts : ({ s with user := some user }.enter i stage).attempts =
      copy.value.mfaFailedAttempts + 1 := by
    rw [← huser]
    rfl
  -- the others' copies fall below the bound, since the bound grows by this call
  have hmine := h.copies _ (List.mem_of_getElem? hi) copy rfl
  refine ⟨⟨by omega, fun c hc copy' hmem => ?_⟩, ?_⟩
  · cases List.mem_or_eq_of_mem_set hc with
    | inl hin =>
      have hother := (h.copies c hin copy' hmem).1
      exact ⟨by omega, fun heq => absurd heq (by omega)⟩
    | inr heq =>
      rw [heq, hcopy] at hmem
      cases hmem
  · unfold AllCounted
    rw [hone, hattempts]
    constructor
    · intro hall
      -- an exact counter comes from a copy at the bound, and such a copy is the counter
      have hbound : copy.value.mfaFailedAttempts = start + s.ended := by omega
      have hcounter := hmine.2 hbound
      exact ⟨hcounter, by omega⟩
    · intro hall
      omega

/-- Neither the counter nor the calls change. -/
theorem Bounded.same (h : Bounded start s) (s' : FailureDb) (hcalls : s'.calls = s.calls)
    (hattempts : s'.attempts = s.attempts) :
    Bounded start s' ∧ (AllCounted start s' ↔ AllCounted start s) := by
  have hended : s'.ended = s.ended := by rw [ended, hcalls, ended]
  refine ⟨⟨by rw [hattempts, hended]; exact h.attempts_le, fun c hc copy hmem => ?_⟩, ?_⟩
  · rw [hcalls] at hc
    rw [hattempts, hended]
    exact h.copies c hc copy hmem
  · rw [AllCounted, AllCounted, hattempts, hended]

/-! ## One step -/

/-- A step keeps the bound, and the counter stays exact when the step is in order. -/
def Counts (maxAttempts start : Nat) (s : FailureDb) (m : FailureMove) (s' : FailureDb) : Prop :=
  Bounded start s' ∧ (AllCounted start s' ↔ AllCounted start s ∧ s.inOrder maxAttempts m = true)

theorem Bounded.counts_going (h : Bounded start s) (stage : FailureStage)
    (hi : s.calls[i]? = some old) {redisFails : Bool} (hended : stage.ended = old.ended)
    (hcopy : ∀ copy ∈ stage.copy, copy ∈ old.copy ∨ s.attempts = copy.value.mfaFailedAttempts)
    (horder : s.inOrder maxAttempts (.act i redisFails) = true) :
    Counts maxAttempts start s (.act i redisFails) (s.enter i stage) := by
  obtain ⟨hbounded, hsame⟩ := h.enter stage hi hended hcopy
  refine ⟨hbounded, ?_⟩
  have hattempts : (s.enter i stage).attempts = s.attempts := rfl
  rw [AllCounted, AllCounted, hsame, hattempts]
  exact (and_iff_left horder).symm

theorem Bounded.counts_uncounted (h : Bounded start s) (hi : s.calls[i]? = some old)
    {redisFails : Bool} (hold : old.ended = false)
    (horder : s.inOrder maxAttempts (.act i redisFails) = false) :
    Counts maxAttempts start s (.act i redisFails) (s.enter i .finished) := by
  obtain ⟨hbounded, hnot⟩ := h.end_uncounted .finished hi hold rfl rfl
  exact ⟨hbounded, iff_of_false hnot fun hand => by rw [horder] at hand; cases hand.2⟩

theorem Bounded.act_start (h : Bounded start s) {tracked : Option (Row WallowUser)}
    {redisFails : Bool} (hi : s.calls[i]? = some (.start tracked))
    (hs : s.act maxAttempts userId idText i redisFails (.start tracked) = some s') :
    Counts maxAttempts start s (.act i redisFails) s' := by
  rw [act] at hs
  by_cases hrefused : (!redisFails && s.cachedLockout) = true
  · rw [if_pos hrefused, Option.some.injEq] at hs
    subst hs
    apply h.counts_uncounted hi rfl
    simp only [inOrder, hi]
    cases redisFails with
    | true => cases hrefused
    | false =>
      rw [Bool.not_false, Bool.true_and] at hrefused
      rw [hrefused]
      rfl
  · rw [if_neg hrefused, Option.some.injEq] at hs
    subst hs
    apply h.counts_going (.checked tracked) hi rfl
    · intro copy hmem
      exact Or.inl hmem
    · simp only [inOrder, hi]
      cases redisFails with
      | true => rfl
      | false =>
        rw [Bool.not_false, Bool.true_and, Bool.not_eq_true] at hrefused
        rw [hrefused]
        rfl

theorem Bounded.act_checked (h : Bounded start s) {tracked : Option (Row WallowUser)}
    {redisFails : Bool} (hi : s.calls[i]? = some (.checked tracked))
    (hs : s.act maxAttempts userId idText i redisFails (.checked tracked) = some s') :
    Counts maxAttempts start s (.act i redisFails) s' := by
  have horder : s.inOrder maxAttempts (.act i redisFails) = true := by
    simp only [inOrder, hi]
  rw [act] at hs
  cases huser : s.user with
  | none =>
    rw [huser, Option.some.injEq] at hs
    subst hs
    exact h.counts_going .creating hi rfl (fun copy hmem => by cases hmem) horder
  | some row =>
    rw [huser, Option.some.injEq] at hs
    subst hs
    apply h.counts_going (.saving (tracked.getD row)) hi rfl _ horder
    intro copy hmem
    cases tracked with
    | some kept => exact Or.inl hmem
    | none =>
      cases hmem
      exact Or.inr (attempts_some huser)

theorem Bounded.act_creating (h : Bounded start s) {redisFails : Bool}
    (hi : s.calls[i]? = some .creating)
    (hs : s.act maxAttempts userId idText i redisFails .creating = some s') :
    Counts maxAttempts start s (.act i redisFails) s' := by
  rw [act] at hs
  cases huser : s.user with
  | some row =>
    rw [huser, Option.some.injEq] at hs
    subst hs
    apply h.counts_uncounted hi rfl
    simp only [inOrder, hi, huser, Option.isNone_some]
  | none =>
    rw [huser] at hs
    simp only [Option.some.injEq] at hs
    subst hs
    have horder : s.inOrder maxAttempts (.act i redisFails) = true := by
      simp only [inOrder, hi, huser, Option.isNone_none]
    have hnone : s.attempts = 0 := by
      rw [attempts, huser]
      rfl
    -- the placeholder's counter is the one a missing user has
    have hinsert := h.same
      { s with
        user := some ⟨placeholder userId idText, s.nextStamp⟩, nextStamp := s.nextStamp + 1 }
      rfl hnone.symm
    obtain ⟨hbounded, hsame⟩ := hinsert.1.enter
      (.saving ⟨placeholder userId idText, s.nextStamp⟩) hi rfl
      (fun copy hmem => by cases hmem; exact Or.inr rfl)
    refine ⟨hbounded, ?_⟩
    rw [and_iff_left horder, ← hinsert.2, AllCounted, hsame]
    rfl

theorem Bounded.act_saving (h : Bounded start s) {redisFails : Bool}
    (hi : s.calls[i]? = some (.saving copy))
    (hs : s.act maxAttempts userId idText i redisFails (.saving copy) = some s') :
    Counts maxAttempts start s (.act i redisFails) s' := by
  simp only [act] at hs
  cases hrecord : copy.value.recordMfaFailure maxAttempts s.now with
  | none =>
    rw [hrecord, Option.some.injEq] at hs
    subst hs
    apply h.counts_uncounted hi rfl
    simp only [inOrder, hi, hrecord, Option.isSome_none, Bool.false_and]
  | some recorded =>
    cases huser : s.user with
    | none =>
      rw [hrecord, huser, Option.some.injEq] at hs
      subst hs
      apply h.counts_uncounted hi rfl
      simp only [inOrder, hi, huser, Option.any_none, Bool.and_false]
    | some row =>
      simp only [hrecord, huser] at hs
      by_cases hstamp : row.version = copy.version
      · rw [if_pos hstamp, Option.some.injEq] at hs
        have hstage : ∀ b : Bool, ∀ user,
            (if b then FailureStage.caching user else .finished).ended = true ∧
              (if b then FailureStage.caching user else .finished).copy = none := by
          intro b user
          cases b with
          | true => exact ⟨rfl, rfl⟩
          | false => exact ⟨rfl, rfl⟩
        obtain ⟨hended, hcopy⟩ := hstage (recorded.isMfaLockedOut s.now) recorded
        have hattempts := attempts_recordMfaFailure hrecord
        obtain ⟨hbounded, hiff⟩ := h.end_saved
          ⟨writeFailure row.value copy.value recorded, row.version⟩ hi hended hcopy hattempts
        rw [← hs]
        refine ⟨hbounded, ?_⟩
        rw [hiff, attempts_some huser]
        simp only [inOrder, hi, huser, hrecord, Option.isSome_some, Option.any_some, hstamp,
          decide_true, Bool.true_and, decide_eq_true_eq]
      · rw [if_neg hstamp, Option.some.injEq] at hs
        subst hs
        apply h.counts_uncounted hi rfl
        simp only [inOrder, hi, huser, Option.any_some, hstamp, decide_false, Bool.false_and,
          Bool.and_false]

theorem Bounded.act_caching (h : Bounded start s) {user : WallowUser} {redisFails : Bool}
    (hi : s.calls[i]? = some (.caching user))
    (hs : s.act maxAttempts userId idText i redisFails (.caching user) = some s') :
    Counts maxAttempts start s (.act i redisFails) s' := by
  have horder : s.inOrder maxAttempts (.act i redisFails) = true := by
    simp only [inOrder, hi]
  have hgoing := h.counts_going .finished hi rfl (fun copy hmem => by cases hmem) horder
  rw [act] at hs
  by_cases hskip : (redisFails || !user.isMfaLockedOut s.now) = true
  · rw [if_pos hskip, Option.some.injEq] at hs
    exact hs ▸ hgoing
  · rw [if_neg hskip, Option.some.injEq] at hs
    have hsame := hgoing.1.same s' (by rw [← hs]; rfl) (by rw [← hs]; rfl)
    exact ⟨hsame.1, hsame.2.trans hgoing.2⟩

theorem Bounded.step (h : Bounded start s) {m : FailureMove}
    (hs : step maxAttempts userId idText s m = some s') : Counts maxAttempts start s m s' := by
  cases m with
  | recordFailure =>
    cases hs
    have hended : ({ s with calls := s.calls ++ [.start none] } : FailureDb).ended = s.ended := by
      show (s.calls ++ [FailureStage.start none]).countP (·.ended) = s.calls.countP (·.ended)
      rw [List.countP_append]
      rfl
    refine ⟨⟨hended ▸ h.attempts_le, fun c hc copy hmem => ?_⟩, ?_⟩
    · rw [hended]
      cases List.mem_append.mp hc with
      | inl hold => exact h.copies c hold copy hmem
      | inr hnew =>
        rw [List.mem_singleton.mp hnew] at hmem
        cases hmem
    · rw [AllCounted, hended]
      exact (and_iff_left rfl).symm
  | track i =>
    simp only [FailureDb.step] at hs
    split at hs
    · rename_i row hcall huser
      cases hs
      obtain ⟨hbounded, hsame⟩ := h.enter (.start (some row)) hcall rfl
        (fun copy hmem => by cases hmem; exact Or.inr (attempts_some huser))
      refine ⟨hbounded, ?_⟩
      rw [AllCounted, hsame]
      exact (and_iff_left rfl).symm
    · cases hs
  | act i redisFails =>
    obtain ⟨stage, hi, hact⟩ := Option.bind_eq_some_iff.mp hs
    cases stage with
    | start tracked => exact h.act_start hi hact
    | checked tracked => exact h.act_checked hi hact
    | creating => exact h.act_creating hi hact
    | saving copy => exact h.act_saving hi hact
    | caching user => exact h.act_caching hi hact
    | finished => cases hact
  | touch user =>
    simp only [FailureDb.step] at hs
    cases huser : s.user with
    | none =>
      rw [huser] at hs
      cases hs
    | some row =>
      rw [huser, Option.some.injEq] at hs
      have hsame := h.same s' (by rw [← hs]) (by rw [← hs, attempts_some huser]; rfl)
      exact ⟨hsame.1, hsame.2.trans (and_iff_left rfl).symm⟩
  | tick ticks =>
    cases hs
    have hsame := h.same { s with now := s.now + ticks } rfl rfl
    exact ⟨hsame.1, hsame.2.trans (and_iff_left rfl).symm⟩

/-! ## Runs -/

/-- Of `k` calls that have all ended, the user is locked out or the counter has grown by `k`:
exactly when the user is locked out, or no call was refused, no backoff overflowed and every save
found what its call had read. -/
theorem failures_counted_iff (maxAttempts : Nat) (userId : Guid) (idText : String)
    (user : Option (Row WallowUser)) (lockout : Option Nat) (now : Instant) (nextStamp : Nat)
    (ls : List FailureMove) (s : FailureDb)
    (h : follow (step maxAttempts userId idText) (initial user lockout now nextStamp) ls = some s)
    (hall : ∀ stage ∈ s.calls, stage.ended = true) :
    (s.lockedOut = true ∨
        s.attempts = (initial user lockout now nextStamp).attempts + s.calls.length) ↔
      (s.lockedOut = true ∨
        run (step maxAttempts userId idText) (inOrder maxAttempts)
            (initial user lockout now nextStamp) ls =
          some s) := by
  have hlength : s.ended = s.calls.length := List.countP_eq_length.mpr hall
  have hrun := run_of_follow (P := AllCounted (initial user lockout now nextStamp).attempts)
    (initial_bounded user lockout now nextStamp) rfl (fun _ _ _ ha hs => (ha.step hs).1)
    (fun _ _ _ ha hs => (ha.step hs).2) h
  rw [AllCounted, hlength] at hrun
  rw [hrun.2]

/-- Three wrong codes, two of them checked at the same time and saved one after the other. -/
def countedFailures : List FailureMove :=
  [.recordFailure, .act 0 false, .act 0 false, .recordFailure, .act 1 false, .act 0 false,
    .act 1 false, .act 1 false, .recordFailure, .act 2 false, .act 2 false, .act 2 false]

theorem failures_counted_iff_three : ∃ s : FailureDb, s.attempts = 3 ∧
    ((s.lockedOut = true ∨ s.attempts =
        (initial (some ⟨ann, 0⟩) none 0 1).attempts + s.calls.length) ↔
      (s.lockedOut = true ∨
        run (step 5 1 "1") (inOrder 5) (initial (some ⟨ann, 0⟩) none 0 1) countedFailures =
          some s)) := by
  have hrun : (follow (step 5 1 "1") (initial (some ⟨ann, 0⟩) none 0 1) countedFailures).any
      (fun s => s.attempts = 3 && s.calls.all (·.ended)) = true := by decide
  cases hs : follow (step 5 1 "1") (initial (some ⟨ann, 0⟩) none 0 1) countedFailures with
  | none =>
    rw [hs] at hrun
    cases hrun
  | some s =>
    rw [hs, Option.any_some, Bool.and_eq_true, decide_eq_true_eq, List.all_eq_true] at hrun
    exact ⟨s, hrun.1, failures_counted_iff 5 1 "1" (some ⟨ann, 0⟩) none 0 1 countedFailures s hs
      hrun.2⟩

/-- Two wrong codes at the same time: both calls read the counter before either saves. -/
def parallelFailures : List FailureMove :=
  [.recordFailure, .recordFailure, .act 0 false, .act 1 false, .act 0 false, .act 1 false,
    .act 0 false, .act 1 false]

theorem parallel_failure_uncounted : ∃ s,
    follow (step 5 1 "1") (initial (some ⟨ann, 0⟩) none 0 1) parallelFailures = some s ∧
      (∀ stage ∈ s.calls, stage.ended = true) ∧ s.lockedOut = false ∧
      s.attempts ≠ (initial (some ⟨ann, 0⟩) none 0 1).attempts + s.calls.length := by
  have hrun : (follow (step 5 1 "1") (initial (some ⟨ann, 0⟩) none 0 1) parallelFailures).any
      (fun s => s.calls.all (·.ended) && !s.lockedOut && s.attempts == 1 &&
        s.calls.length == 2) = true := by decide
  cases hs : follow (step 5 1 "1") (initial (some ⟨ann, 0⟩) none 0 1) parallelFailures with
  | none =>
    rw [hs] at hrun
    cases hrun
  | some s =>
    rw [hs, Option.any_some] at hrun
    simp only [Bool.and_eq_true, List.all_eq_true, Bool.not_eq_true', beq_iff_eq] at hrun
    refine ⟨s, rfl, hrun.1.1.1, hrun.1.1.2, ?_⟩
    rw [hrun.1.2, hrun.2]
    decide

end FailureDb

end Wallow.Identity
