import Mathlib.Algebra.Order.Group.Nat
import Mathlib.Tactic.Ring

/-!
# Numbers in hexadecimal

A digit is read in either case and written in lower case.  A text of `n` digits written for a
number spells its residue modulo `16 ^ n`.
-/

namespace HexText

/-- The value of a digit, `none` where the character is none. -/
def value? (c : Char) : Option Nat :=
  if '0' ≤ c ∧ c ≤ '9' then some (c.toNat - '0'.toNat)
  else if 'a' ≤ c ∧ c ≤ 'f' then some (c.toNat - 'a'.toNat + 10)
  else if 'A' ≤ c ∧ c ≤ 'F' then some (c.toNat - 'A'.toNat + 10)
  else none

def digit (n : Nat) : Char :=
  if n < 10 then Char.ofNat ('0'.toNat + n) else Char.ofNat ('a'.toNat + (n - 10))

/-- The last `n` digits of a number. -/
def digits : Nat → Nat → List Char
  | 0, _ => []
  | n + 1, number => digits n (number / 16) ++ [digit (number % 16)]

/-- The number that a list of digits spells after `acc`. -/
def numberFrom? : Nat → List Char → Option Nat
  | acc, [] => some acc
  | acc, c :: rest => (value? c).bind fun v => numberFrom? (16 * acc + v) rest

def number? (text : List Char) : Option Nat := numberFrom? 0 text

theorem value?_digit {n : Nat} (h : n < 16) : value? (digit n) = some n := by
  have hall : ∀ i : Fin 16, value? (digit i.val) = some i.val := by decide
  exact hall ⟨n, h⟩

@[simp] theorem digits_length (n number : Nat) : (digits n number).length = n := by
  induction n generalizing number with
  | zero => rfl
  | succ n ih => rw [digits, List.length_append, ih, List.length_singleton]

/-- Every digit written is one that is read. -/
theorem value?_isSome_of_mem_digits {n number : Nat} {c : Char} (h : c ∈ digits n number) :
    (value? c).isSome := by
  induction n generalizing number with
  | zero => exact absurd h (List.not_mem_nil)
  | succ n ih =>
    rw [digits, List.mem_append, List.mem_singleton] at h
    cases h with
    | inl hinit => exact ih hinit
    | inr hlast =>
      rw [hlast, value?_digit (Nat.mod_lt _ (by decide))]
      rfl

theorem numberFrom?_append (acc : Nat) (xs ys : List Char) :
    numberFrom? acc (xs ++ ys) = (numberFrom? acc xs).bind fun v => numberFrom? v ys := by
  induction xs generalizing acc with
  | nil => rfl
  | cons c rest ih =>
    rw [List.cons_append, numberFrom?, numberFrom?]
    cases value? c with
    | none => rfl
    | some v => exact ih (16 * acc + v)

/-- The digits of a number spell it, modulo the room they have. -/
theorem numberFrom?_digits (acc n number : Nat) :
    numberFrom? acc (digits n number) = some (acc * 16 ^ n + number % 16 ^ n) := by
  induction n generalizing number with
  | zero =>
    have hzero : acc * 16 ^ 0 + number % 16 ^ 0 = acc := by
      rw [Nat.pow_zero, Nat.mod_one, Nat.mul_one, Nat.add_zero]
    rw [digits, numberFrom?, hzero]
  | succ n ih =>
    have hsplit : number % 16 ^ (n + 1) = 16 * (number / 16 % 16 ^ n) + number % 16 := by
      rw [Nat.pow_succ, Nat.mul_comm (16 ^ n) 16, Nat.mod_mul, Nat.add_comm]
    rw [digits, numberFrom?_append, ih, Option.bind_some, numberFrom?,
      value?_digit (Nat.mod_lt _ (by decide)), Option.bind_some, numberFrom?, hsplit]
    congr 1
    ring

theorem number?_digits (n number : Nat) : number? (digits n number) = some (number % 16 ^ n) := by
  rw [number?, numberFrom?_digits, Nat.zero_mul, Nat.zero_add]

end HexText
