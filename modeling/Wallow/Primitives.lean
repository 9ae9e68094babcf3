/-!
# Identifiers, instants and calls

What the services share: a `Guid` is its 128-bit number, an instant is a number of 100 ns ticks
since the Unix epoch, and an awaited call of a database or a cache may fail.
-/

namespace Wallow

abbrev Guid := Nat

def Guid.empty : Guid := 0

abbrev Instant := Nat

def TICKS_PER_MILLISECOND : Nat := 10000
def TICKS_PER_SECOND : Nat := 1000 * TICKS_PER_MILLISECOND
def TICKS_PER_HOUR : Nat := 3600 * TICKS_PER_SECOND
def TICKS_PER_DAY : Nat := 24 * TICKS_PER_HOUR

/-- `DateTimeOffset.ToUnixTimeMilliseconds`. -/
def toUnixTimeMilliseconds (at_ : Nat) : Nat := at_ / TICKS_PER_MILLISECOND

/-- `DateTimeOffset.FromUnixTimeMilliseconds`. -/
def fromUnixTimeMilliseconds (milliseconds : Nat) : Nat := milliseconds * TICKS_PER_MILLISECOND

/-- What becomes of a call, which may also fail after it has done its work. -/
inductive CallOutcome
  | returns | fails | failsApplied
  deriving DecidableEq

/-- Whether a call returns, and the state it leaves. -/
def CallOutcome.run {σ : Type} (effect : σ → σ) (s : σ) : CallOutcome → Bool × σ
  | returns => (true, effect s)
  | fails => (false, s)
  | failsApplied => (false, effect s)

end Wallow
