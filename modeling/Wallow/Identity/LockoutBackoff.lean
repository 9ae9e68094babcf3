import Mathlib
import Wallow.Identity.Mfa
import Wallow.Lib.Transition

/-!
# The backoff of MFA lockouts

Each lockout is twice as long as the one before it, up to a day.  The length is converted to ticks
before it is capped, so the thirty-first lockout of an account is never set.
-/

namespace Wallow.Identity

open Transition

namespace WallowUser

/-- What the backoff comes to. -/
def backoff (lockoutCount : Nat) : Nat :=
  min (24 * TICKS_PER_HOUR) (15 * TICKS_PER_MINUTE * 2 ^ lockoutCount)

theorem backoff_mono {m n : Nat} (h : m ≤ n) : backoff m ≤ backoff n := by
  have hpow : 2 ^ m ≤ 2 ^ n := Nat.pow_le_pow_right (by decide) h
  have hlong := Nat.mul_le_mul_left (15 * TICKS_PER_MINUTE) hpow
  exact Nat.le_min.mpr ⟨Nat.min_le_left _ _, (Nat.min_le_right _ _).trans hlong⟩

/-- The thirty-first length does not fit in a `TimeSpan`. -/
theorem fromMinutes_overflows_iff (n : Nat) : 2 ^ 63 < 15 * TICKS_PER_MINUTE * 2 ^ n ↔ 30 ≤ n := by
  have hminutes : 15 * TICKS_PER_MINUTE = 9000000000 := by decide
  rw [hminutes]
  constructor
  · intro hlong
    refine Nat.not_lt.mp fun hearly => ?_
    have hpow : 2 ^ n ≤ 2 ^ 29 := Nat.pow_le_pow_right (by decide) (Nat.le_of_lt_succ hearly)
    omega
  · intro hlate
    have hpow : 2 ^ 30 ≤ 2 ^ n := Nat.pow_le_pow_right (by decide) hlate
    omega

theorem mfaLockoutDuration_eq (n : Nat) :
    mfaLockoutDuration n = if n < 30 then some (backoff n) else none := by
  rw [mfaLockoutDuration, backoff, Nat.min_comm]
  by_cases hearly : n < 30
  · rw [if_neg (fun hlong => absurd ((fromMinutes_overflows_iff n).mp hlong) (by omega)),
      if_pos hearly]
  · rw [if_pos ((fromMinutes_overflows_iff n).mpr (by omega)), if_neg hearly]

/-- The failure is counted, and the lockout it sets ends when the backoff has passed. -/
def Records (user : WallowUser) (maxAttempts now : Nat) : Prop :=
  ∃ recorded, user.recordMfaFailure maxAttempts now = some recorded ∧
    recorded.mfaFailedAttempts = user.mfaFailedAttempts + 1 ∧
    (maxAttempts ≤ recorded.mfaFailedAttempts →
      recorded.mfaLockoutEnd = some (now + backoff user.mfaLockoutCount))

theorem records_iff_early (user : WallowUser) (maxAttempts now : Nat) :
    Records user maxAttempts now ↔ user.mfaFailedAttempts + 1 < maxAttempts ∨
      (user.mfaLockoutCount < 30 ∧ now + backoff user.mfaLockoutCount ≤ MAX_INSTANT) := by
  unfold Records recordMfaFailure
  rw [mfaLockoutDuration_eq]
  by_cases hlocks : maxAttempts ≤ user.mfaFailedAttempts + 1
  · rw [if_pos hlocks, or_iff_right (Nat.not_lt.mpr hlocks)]
    by_cases hearly : user.mfaLockoutCount < 30
    · rw [if_pos hearly, and_iff_right hearly, Option.bind_some]
      by_cases hdate : now + backoff user.mfaLockoutCount ≤ MAX_INSTANT
      · rw [if_pos hdate]
        exact iff_of_true ⟨_, rfl, rfl, fun _ => rfl⟩ hdate
      · rw [if_neg hdate]
        exact iff_of_false (fun ⟨_, hnone, _⟩ => nomatch hnone) hdate
    · rw [if_neg hearly, Option.bind_none]
      exact iff_of_false (fun ⟨_, hnone, _⟩ => nomatch hnone) fun h => hearly h.1
  · rw [if_neg hlocks]
    exact iff_of_true ⟨_, rfl, rfl, fun hmax => absurd hmax hlocks⟩ (.inl (Nat.not_le.mp hlocks))

theorem mfaLockoutDuration_mono {m n d e : Nat} (hmn : m ≤ n)
    (hd : mfaLockoutDuration m = some d) (he : mfaLockoutDuration n = some e) : d ≤ e := by
  rw [mfaLockoutDuration_eq, Option.ite_none_right_eq_some, Option.some.injEq] at hd he
  rw [← hd.2, ← he.2]
  exact backoff_mono hmn

/-- A failure is recorded as the backoff has it exactly when it locks nobody, or fewer than thirty
lockouts came before and the end of this one is a date; the lengths there are only grow. -/
theorem records_backoff_iff (user : WallowUser) (maxAttempts now : Nat) :
    (Records user maxAttempts now ↔ user.mfaFailedAttempts + 1 < maxAttempts ∨
      (user.mfaLockoutCount < 30 ∧ now + backoff user.mfaLockoutCount ≤ MAX_INSTANT)) ∧
    ∀ m n d e, m ≤ n → mfaLockoutDuration m = some d → mfaLockoutDuration n = some e → d ≤ e :=
  ⟨records_iff_early user maxAttempts now, fun _ _ _ _ => mfaLockoutDuration_mono⟩

end WallowUser

/-! ## The history of an account -/

/-- The account's row, the clock, and the failures that threw before they were saved. -/
structure LockoutHistory where
  user : WallowUser
  now : Instant
  lost : Nat

inductive LockoutMove
  | fail (maxAttempts : Nat)
  | reset
  | tick (ticks : Nat)

namespace LockoutHistory

def step (s : LockoutHistory) : LockoutMove → Option LockoutHistory
  | .fail maxAttempts =>
    match s.user.recordMfaFailure maxAttempts s.now with
    | some user => some { s with user := user }
    | none => some { s with lost := s.lost + 1 }
  | .reset => some { s with user := s.user.resetMfaLockout }
  | .tick ticks => some { s with now := s.now + ticks }

variable {s t : LockoutHistory}

/-- Wrong codes, one a day after the first four. -/
def thirtyLockouts : List LockoutMove :=
  List.replicate 4 (.fail 5) ++
    (List.replicate 30 [LockoutMove.fail 5, .tick (24 * TICKS_PER_HOUR)]).flatten

/-- After thirty lockouts without a right code in between, the next wrong code is not counted. -/
theorem thirty_first_lockout_lost : ∃ s, Reachable step ⟨ann, 0, 0⟩ s ∧ s.lost = 0 ∧
    s.user.mfaLockoutCount = 30 ∧ ¬s.user.Records 5 s.now := by
  have hrun : (run step (fun _ _ => true) ⟨ann, 0, 0⟩ thirtyLockouts).any (fun s =>
      s.lost = 0 ∧ s.user.mfaLockoutCount = 30 ∧ 5 ≤ s.user.mfaFailedAttempts) = true := by
    decide +kernel
  obtain ⟨s, hs, hcounts⟩ := exists_reaches_of_run (fun _ _ _ => trivial) hrun
  obtain ⟨hlost, hcount, hattempts⟩ := of_decide_eq_true hcounts
  refine ⟨s, hs, hlost, hcount, fun hrecords => ?_⟩
  cases (WallowUser.records_iff_early s.user 5 s.now).mp hrecords with
  | inl hfew => omega
  | inr hearly => omega

end LockoutHistory

end Wallow.Identity
