import Mathlib.Data.Nat.Log
import Mathlib.Algebra.Order.Ring.Nat

/-!
# The numbers of JavaScript

Doubles, as far as their texts go: whole numbers with the text of fewest digits that is read back
as the same double, numbers with a fraction, and the infinities.
-/

namespace Js

/-! ## Doubles -/

/-- The double next to a number, the even one of two. -/
def roundDouble (n : Nat) : Nat :=
  let unit := 2 ^ (n.log2 - 52)
  let low := n / unit * unit
  if 2 * (n % unit) < unit ∨ (2 * (n % unit) = unit ∧ n / unit % 2 = 0) then low else low + unit

theorem roundDouble_cases (n : Nat) : roundDouble n = n / 2 ^ (n.log2 - 52) * 2 ^ (n.log2 - 52) ∨
    roundDouble n = (n / 2 ^ (n.log2 - 52) + 1) * 2 ^ (n.log2 - 52) := by
  unfold roundDouble
  dsimp only
  split
  · exact Or.inl rfl
  · exact Or.inr (by rw [Nat.add_mul, Nat.one_mul])

/-- A number is not rounded below the power of two that it has reached. -/
theorem le_roundDouble {n k : Nat} (h : 2 ^ k ≤ n) (hk : 52 ≤ k) : 2 ^ k ≤ roundDouble n := by
  have hn : n ≠ 0 := by
    have hpos := Nat.two_pow_pos k
    omega
  have hlog : k ≤ n.log2 := (Nat.le_log2 hn).mpr h
  have hunit : 2 ^ 52 * 2 ^ (n.log2 - 52) = 2 ^ n.log2 := by
    rw [← Nat.pow_add, Nat.add_sub_cancel' (hk.trans hlog)]
  have hquotient : 2 ^ 52 ≤ n / 2 ^ (n.log2 - 52) := by
    rw [Nat.le_div_iff_mul_le (Nat.two_pow_pos _), hunit]
    exact Nat.log2_self_le hn
  calc
    2 ^ k ≤ 2 ^ n.log2 := Nat.pow_le_pow_right (by decide) hlog
    _ = 2 ^ 52 * 2 ^ (n.log2 - 52) := hunit.symm
    _ ≤ n / 2 ^ (n.log2 - 52) * 2 ^ (n.log2 - 52) := Nat.mul_le_mul_right _ hquotient
    _ ≤ roundDouble n := by
      cases roundDouble_cases n with
      | inl hlow => exact hlow.ge
      | inr hhigh =>
        rw [hhigh]
        exact Nat.mul_le_mul_right _ (Nat.le_succ _)

/-- Nor above the power of two that it has not reached. -/
theorem roundDouble_le {n k : Nat} (h : n < 2 ^ k) : roundDouble n ≤ 2 ^ k := by
  by_cases hn : n = 0
  · rw [hn]
    exact Nat.zero_le _
  · have hlog : n.log2 < k := (Nat.log2_lt hn).mpr h
    have hunit : 2 ^ (k - (n.log2 - 52)) * 2 ^ (n.log2 - 52) = 2 ^ k := by
      rw [← Nat.pow_add, Nat.sub_add_cancel (by omega)]
    have hquotient : n / 2 ^ (n.log2 - 52) + 1 ≤ 2 ^ (k - (n.log2 - 52)) := by
      apply Nat.succ_le_of_lt
      rw [Nat.div_lt_iff_lt_mul (Nat.two_pow_pos _), hunit]
      exact h
    calc
      roundDouble n ≤ (n / 2 ^ (n.log2 - 52) + 1) * 2 ^ (n.log2 - 52) := by
        cases roundDouble_cases n with
        | inl hlow =>
          rw [hlow]
          exact Nat.mul_le_mul_right _ (Nat.le_succ _)
        | inr hhigh => exact hhigh.le
      _ ≤ 2 ^ (k - (n.log2 - 52)) * 2 ^ (n.log2 - 52) := Nat.mul_le_mul_right _ hquotient
      _ = 2 ^ k := hunit

/-- A whole number that is a double is below a power of two if what is rounded to it is. -/
theorem lt_of_roundDouble_lt {n m k : Nat} (hk : 52 ≤ k) (hround : roundDouble m = n)
    (h : n < 2 ^ k) : m < 2 ^ k := by
  apply Nat.lt_of_not_le
  intro hle
  have hrounded := le_roundDouble hle hk
  omega

/-! ## Their texts -/

/-- The multiple of a power of ten that is read as the number: the nearer one of two. -/
def multipleAt (n power : Nat) : Option Nat :=
  let unit := 10 ^ power
  let low := n / unit * unit
  let high := low + unit
  if roundDouble low = n then
    if roundDouble high = n ∧
        (high - n < n - low ∨ (high - n = n - low ∧ n / unit % 2 = 1)) then some high
    else some low
  else if roundDouble high = n then some high
  else none

/-- The multiple of the highest power of ten, up to one of them, that is read as the number. -/
def shortestFrom (n : Nat) : Nat → Nat
  | 0 => n
  | power + 1 => (multipleAt n (power + 1)).getD (shortestFrom n power)

/-- The number of fewest digits that is read as the double. -/
def shortest (n : Nat) : Nat := shortestFrom n (Nat.toDigits 10 n).length

theorem multipleAt_round {n power m : Nat} (h : multipleAt n power = some m) :
    roundDouble m = n := by
  unfold multipleAt at h
  dsimp only at h
  split at h
  · rename_i hlow
    split at h
    · rename_i hhigh
      rw [← Option.some.inj h]
      exact hhigh.1
    · rw [← Option.some.inj h]
      exact hlow
  · split at h
    · rename_i hhigh
      rw [← Option.some.inj h]
      exact hhigh
    · cases h

/-- The text of a double is read as the double. -/
theorem shortest_round {n : Nat} (h : roundDouble n = n) : roundDouble (shortest n) = n := by
  have hfrom : ∀ power, roundDouble (shortestFrom n power) = n := by
    intro power
    induction power with
    | zero => exact h
    | succ power ih =>
      rw [shortestFrom]
      cases hmultiple : multipleAt n (power + 1) with
      | none => exact ih
      | some m => exact multipleAt_round hmultiple
  exact hfrom _

/-- The digits after the first one, with no zeros at the end. -/
def decimals (digits : List Char) : List Char :=
  match digits.tail.reverse.dropWhile (· = '0') with
  | [] => []
  | rest => '.' :: rest.reverse

/-- `String` of a whole number: its digits, or from 10^21 on a power of ten. -/
def naturalText (n : Nat) : List Char :=
  let digits := Nat.toDigits 10 (shortest n)
  if shortest n < 10 ^ 21 then digits
  else digits.take 1 ++ decimals digits ++ 'e' :: '+' :: Nat.toDigits 10 (digits.length - 1)

def integerText (n : Int) : List Char :=
  if n < 0 then '-' :: naturalText n.natAbs else naturalText n.natAbs

/-- A number; `fraction` is one with a fraction, given by its text. -/
inductive Number
  | integer (value : Int) (isDouble : roundDouble value.natAbs = value.natAbs)
  | fraction (text : List Char)
  | infinite (negative : Bool)

/-! ## Decimals -/

def digits? (digits : List Char) : Option Nat :=
  if digits ≠ [] ∧ digits.all Char.isDigit then some (Nat.ofDigitChars 10 digits 0) else none

/-- What a plain decimal stands for. -/
def decimal? : List Char → Option Int
  | '-' :: digits => (digits? digits).map fun n => -(n : Int)
  | digits => (digits? digits).map fun n => (n : Int)

theorem digits?_toDigits (n : Nat) : digits? (Nat.toDigits 10 n) = some n := by
  have hall : (Nat.toDigits 10 n).all Char.isDigit = true :=
    List.all_eq_true.mpr fun c hc => Nat.isDigit_of_mem_toDigits (by decide) (by decide) hc
  rw [digits?, if_pos ⟨Nat.toDigits_ne_nil, hall⟩, Nat.ofDigitChars_ten_toDigits]

theorem decimal?_of_not_minus {digits : List Char} (h : digits.head? ≠ some '-') :
    decimal? digits = (digits? digits).map fun n => (n : Int) := by
  cases digits with
  | nil => rfl
  | cons first rest =>
    have hne : first ≠ '-' := fun heq => h (congrArg some heq)
    unfold decimal?
    split
    · rename_i heq
      exact absurd (List.cons.inj heq).1 hne
    · rfl

theorem decimal?_toDigits (n : Nat) : decimal? (Nat.toDigits 10 n) = some (n : Int) := by
  rw [decimal?_of_not_minus, digits?_toDigits]
  · rfl
  · cases hdigits : Nat.toDigits 10 n with
    | nil => exact absurd hdigits Nat.toDigits_ne_nil
    | cons first rest =>
      intro heq
      have hmem : first ∈ Nat.toDigits 10 n := hdigits ▸ List.mem_cons_self
      have hdigit := Nat.isDigit_of_mem_toDigits (by decide) (by decide) hmem
      rw [Option.some.inj heq] at hdigit
      exact absurd hdigit (by decide)

theorem decimal?_neg_toDigits (n : Nat) :
    decimal? ('-' :: Nat.toDigits 10 n) = some (-(n : Int)) := by
  rw [decimal?, digits?_toDigits]
  rfl

/-- A power of ten is no plain decimal. -/
theorem decimal?_of_mem {text : List Char} (h : 'e' ∈ text) : decimal? text = none := by
  have hdigits : ∀ digits : List Char, 'e' ∈ digits → digits? digits = none := by
    intro digits hmem
    rw [digits?, if_neg]
    intro hall
    exact absurd (List.all_eq_true.mp hall.2 'e' hmem) (by decide)
  unfold decimal?
  split
  · rw [hdigits _ ((List.mem_cons.mp h).resolve_left (by decide))]
    rfl
  · rw [hdigits _ h]
    rfl

/-! ## Whole numbers of 64 bits -/

/-- A plain decimal in the range of signed numbers of 64 bits. -/
def Signed64 (text : List Char) : Prop :=
  ∃ n, decimal? text = some n ∧ -2 ^ 63 ≤ n ∧ n ≤ 2 ^ 63 - 1

theorem shortest_two_pow_63 : 2 ^ 63 < shortest (2 ^ 63) := by
  decide

/-- What the text of a double stands for is below 2^63 exactly if the double is; 2^63 itself has a
text that is more. -/
theorem shortest_le_iff {n : Nat} (h : roundDouble n = n) : shortest n ≤ 2 ^ 63 ↔ n < 2 ^ 63 := by
  constructor
  · intro hle
    apply Nat.lt_of_not_le
    intro hlarge
    have hround := shortest_round h
    have hequal : n = 2 ^ 63 := by
      by_cases hsame : shortest n = 2 ^ 63
      · rw [hsame] at hround
        have hself : roundDouble (2 ^ 63) = 2 ^ 63 := by decide
        rw [← hround, hself]
      · have hrounded := roundDouble_le (Nat.lt_of_le_of_ne hle hsame)
        omega
    rw [hequal] at hle
    exact absurd shortest_two_pow_63 (Nat.not_lt.mpr hle)
  · intro hlt
    exact (lt_of_roundDouble_lt (by decide) (shortest_round h) hlt).le

theorem not_signed64_of_power {text : List Char} (h : 'e' ∈ text) : ¬Signed64 text := by
  intro hsigned
  have ⟨n, hn, _⟩ := hsigned
  rw [decimal?_of_mem h] at hn
  cases hn

theorem signed64_of_decimal {text : List Char} {n : Int} (h : decimal? text = some n) :
    Signed64 text ↔ -2 ^ 63 ≤ n ∧ n ≤ 2 ^ 63 - 1 := by
  rw [Signed64, h]
  constructor
  · intro hsigned
    have ⟨m, hm, hrange⟩ := hsigned
    rw [Option.some.inj hm]
    exact hrange
  · exact fun hrange => ⟨n, rfl, hrange⟩

/-- The text of a whole number is a plain decimal of 64 bits exactly if the number is between the
bounds, which are themselves out of range. -/
theorem signed64_integerText {n : Int} (h : roundDouble n.natAbs = n.natAbs) :
    Signed64 (integerText n) ↔ n.natAbs < 2 ^ 63 := by
  have hle := shortest_le_iff h
  by_cases hplain : shortest n.natAbs < 10 ^ 21
  · have htext : naturalText n.natAbs = Nat.toDigits 10 (shortest n.natAbs) := if_pos hplain
    by_cases hneg : n < 0
    · rw [integerText, if_pos hneg, htext, signed64_of_decimal (decimal?_neg_toDigits _), ← hle]
      omega
    · rw [integerText, if_neg hneg, htext, signed64_of_decimal (decimal?_toDigits _)]
      constructor
      · intro hrange
        exact hle.mp (by omega)
      · intro hlt
        have hshort := lt_of_roundDouble_lt (by decide) (shortest_round h) hlt
        omega
  · have hpower : 'e' ∈ naturalText n.natAbs := by
      rw [naturalText, if_neg hplain]
      exact List.mem_append_right _ List.mem_cons_self
    have hmem : 'e' ∈ integerText n := by
      rw [integerText]
      split
      · exact List.mem_cons_of_mem _ hpower
      · exact hpower
    apply iff_of_false (not_signed64_of_power hmem)
    rw [← hle]
    omega

end Js
