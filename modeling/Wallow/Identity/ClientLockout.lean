import Wallow.Identity.Mfa
import Wallow.Shared.FixedWindow

/-!
# The lockout of clients

`InvalidClientLockout.cs`, which counts the failures of a client in a fixed window.
-/

namespace Wallow.Identity

open Shared Transition

structure InvalidClientLockoutOptions where
  failureThreshold : Int := 5
  windowMinutes : Int := 5
  lockoutMinutes : Int := 5

def FAILURES_KEY_PREFIX : String := "identity:invalid-client:failures:"
def LOCKOUT_KEY_PREFIX : String := "identity:invalid-client:lockout:"

structure LockoutRedis where
  counters : ExpiringMap String Int
  strings : ExpiringMap String String

namespace InvalidClientLockout

def failuresCall (options : InvalidClientLockoutOptions) (clientId : String) :
    FixedWindow.Call String :=
  ⟨FAILURES_KEY_PREFIX ++ clientId, options.windowMinutes * TICKS_PER_MINUTE⟩

/-- `RecordFailureAsync`: what its three commands come to.  Their exceptions are caught. -/
def recordFailure (options : InvalidClientLockoutOptions) (redis : LockoutRedis) (now : Int)
    (clientId : String) (incremented expired stored : FixedWindow.Outcome) : LockoutRedis :=
  let (count, counters) :=
    FixedWindow.increment redis.counters now (failuresCall options clientId) incremented expired
  let redis := { redis with counters := counters }
  match count with
  | none => redis
  | some failures =>
    if failures ≥ options.failureThreshold ∧ stored ≠ .failed then
      { redis with
        strings := redis.strings.put (LOCKOUT_KEY_PREFIX ++ clientId) "1"
          (some (now + options.lockoutMinutes * TICKS_PER_MINUTE)) }
    else redis

/-- `IsLockedOutAsync`, open where its command throws. -/
def isLockedOut (redis : LockoutRedis) (now : Int) (clientId : String)
    (asked : FixedWindow.Outcome) : Bool :=
  asked = .answered && (redis.strings.alive now (LOCKOUT_KEY_PREFIX ++ clientId)).isSome

/-- On a counter without an expiry that has reached the threshold, every failure locks the client
out, whenever it is. -/
theorem recordFailure_of_fresh {options : InvalidClientLockoutOptions} {redis : LockoutRedis}
    {clientId : String} {value : Int}
    (hkey : redis.counters (FAILURES_KEY_PREFIX ++ clientId) = some ⟨value, none⟩)
    (hvalue : 1 ≤ value) (hthreshold : options.failureThreshold ≤ value)
    (hlockout : 0 < options.lockoutMinutes) (now : Int) (expired : FixedWindow.Outcome) :
    isLockedOut (recordFailure options redis now clientId .answered expired .answered) now clientId
      .answered = true := by
  have hincrement : FixedWindow.increment redis.counters now (failuresCall options clientId)
      .answered expired =
        (some (value + 1),
          redis.counters.put (failuresCall options clientId).key (value + 1) none) :=
    FixedWindow.increment_of_fresh hkey hvalue now expired
  unfold recordFailure
  rw [hincrement]
  have hreached : value + 1 ≥ options.failureThreshold ∧
      FixedWindow.Outcome.answered ≠ .failed := ⟨by omega, by decide⟩
  dsimp only
  rw [if_pos hreached]
  have hpositive : 0 < options.lockoutMinutes * TICKS_PER_MINUTE :=
    Int.mul_pos hlockout (by decide)
  have halive : (redis.strings.put (LOCKOUT_KEY_PREFIX ++ clientId) "1"
      (some (now + options.lockoutMinutes * TICKS_PER_MINUTE))).alive now
        (LOCKOUT_KEY_PREFIX ++ clientId) =
      some ⟨"1", some (now + options.lockoutMinutes * TICKS_PER_MINUTE)⟩ := by
    refine ExpiringMap.alive_eq_some_iff.mpr ⟨ExpiringMap.put_self _ _ _ _, ?_⟩
    exact decide_eq_true (by omega)
  unfold isLockedOut
  rw [halive]
  rfl

/-- A failures counter that lost its expiry, at the threshold or over it: after every further run of
calls on any counters, whatever becomes of their commands, one failure locks the client out. -/
theorem locked_out_after_lost_expiry (options : InvalidClientLockoutOptions)
    (hlockout : 0 < options.lockoutMinutes) {start : Int} {s t : FixedWindow.State String}
    {clientId : String} {value : Int}
    (hs : Reachable FixedWindow.step (FixedWindow.State.initial start) s)
    (hkey : s.counters (FAILURES_KEY_PREFIX ++ clientId) = some ⟨value, none⟩)
    (hrest : FixedWindow.AtRest s (FAILURES_KEY_PREFIX ++ clientId))
    (hthreshold : options.failureThreshold ≤ value) (ht : Reachable FixedWindow.step s t)
    (strings : ExpiringMap String String) (now : Int) (expired : FixedWindow.Outcome) :
    isLockedOut (recordFailure options ⟨t.counters, strings⟩ now clientId .answered expired
      .answered) now clientId .answered = true := by
  have hsound : FixedWindow.Sound s :=
    hs.invariant FixedWindow.Sound (FixedWindow.sound_initial start)
      fun _ _ _ h _ hstep => h.step hstep
  have hpositive : 1 ≤ value := hsound.positive _ _ hkey
  have ⟨_, later, hle, hlater⟩ := FixedWindow.fresh_of_reachable hsound hkey hrest ht
  have hcounter : (LockoutRedis.mk t.counters strings).counters (FAILURES_KEY_PREFIX ++ clientId) =
      some ⟨later, none⟩ := hlater
  exact recordFailure_of_fresh hcounter (by omega) (by omega) hlockout now expired

/-- The reply of the first of five failures is lost; a day later one more locks the client out. -/
theorem locked_out_after_lost_expiry_day : ∃ s t : FixedWindow.State String,
    Reachable FixedWindow.step s t ∧ t.now = s.now + 864000000000 ∧
      isLockedOut (recordFailure {} ⟨t.counters, .empty⟩ t.now "web" .answered .answered .answered)
        t.now "web" .answered = true := by
  let call : FixedWindow.Call String := failuresCall {} "web"
  let s : FixedWindow.State String := ((·.count call)^[5]) (.initial 0)
  have hrun : run FixedWindow.step (fun _ _ => true) (.initial 0)
      (.increment 0 call .lost :: List.replicate 4 (.increment 0 call .answered)) = some s := rfl
  have hs : Reachable FixedWindow.step (.initial 0) s := reaches_of_run (fun _ _ _ => trivial) hrun
  have ht : Reachable FixedWindow.step s { s with now := s.now + 864000000000 } :=
    .tail .refl trivial (rfl : FixedWindow.step s (.tick 864000000000) = some _)
  exact ⟨s, _, ht, rfl, locked_out_after_lost_expiry {} (by decide) hs
    (by decide +kernel : s.counters call.key = some ⟨5, none⟩) (fun _ _ h => nomatch h)
    (by decide) ht .empty _ .answered⟩

end InvalidClientLockout

end Wallow.Identity
