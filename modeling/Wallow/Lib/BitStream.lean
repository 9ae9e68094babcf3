import Mathlib.Data.Nat.Bitwise
import Mathlib.Data.List.Basic

/-!
# Streams of bits

Numbers of a fixed width as bits, the highest first, and a stream of bits cut into digits of
another width.
-/

namespace BitStream

/-- The bits below `w`, the highest first. -/
def takeBits (f : Nat → Bool) : Nat → List Bool
  | 0 => []
  | w + 1 => f w :: takeBits f w

/-- The number the bits make. -/
def ofBits : List Bool → Nat
  | [] => 0
  | bit :: rest => bit.toNat * 2 ^ rest.length + ofBits rest

/-- The digits of a stream, `w` bits each: the last one is filled up with zeros. -/
def digits (w : Nat) (bits : List Bool) : List Nat :=
  if bits = [] ∨ w = 0 then []
  else ofBits (bits.take w ++ List.replicate (w - bits.length) false) :: digits w (bits.drop w)
termination_by bits.length
decreasing_by
  rename_i h
  have hpos := List.length_pos_of_ne_nil (not_or.mp h).1
  rw [List.length_drop]
  omega

/-- The digits of a stream that have all their bits. -/
def wholeDigits (w : Nat) (bits : List Bool) : List Nat :=
  if bits.length < w ∨ w = 0 then []
  else ofBits (bits.take w) :: wholeDigits w (bits.drop w)
termination_by bits.length
decreasing_by
  rw [List.length_drop]
  omega

/-! ## Bits of a number -/

@[simp] theorem length_takeBits (f : Nat → Bool) (w : Nat) : (takeBits f w).length = w := by
  induction w with
  | zero => rfl
  | succ w ih => rw [takeBits, List.length_cons, ih]

theorem takeBits_congr {f g : Nat → Bool} {w : Nat} (h : ∀ i < w, f i = g i) :
    takeBits f w = takeBits g w := by
  induction w with
  | zero => rfl
  | succ w ih => rw [takeBits, takeBits, h w (Nat.lt_succ_self w), ih fun i hi => h i (by omega)]

/-- The low bits come last. -/
theorem takeBits_add (f : Nat → Bool) (high low : Nat) :
    takeBits f (high + low) = takeBits (fun i => f (i + low)) high ++ takeBits f low := by
  induction high with
  | zero => rw [Nat.zero_add, takeBits, List.nil_append]
  | succ high ih =>
    have hsucc : high + 1 + low = high + low + 1 := by omega
    rw [hsucc, takeBits, takeBits, ih, List.cons_append]

@[simp] theorem ofBits_nil : ofBits [] = 0 := rfl

theorem ofBits_lt (bits : List Bool) : ofBits bits < 2 ^ bits.length := by
  induction bits with
  | nil => exact Nat.one_pos
  | cons bit rest ih =>
    rw [ofBits, List.length_cons, Nat.pow_succ]
    cases bit with
    | false =>
      rw [Bool.toNat_false]
      omega
    | true =>
      rw [Bool.toNat_true]
      omega

/-- The bits of the number that the bits make. -/
theorem testBit_ofBits_takeBits (f : Nat → Bool) (w i : Nat) :
    (ofBits (takeBits f w)).testBit i = (decide (i < w) && f i) := by
  induction w with
  | zero => rw [takeBits, ofBits_nil, Nat.zero_testBit]; rfl
  | succ w ih =>
    have hlt : ofBits (takeBits f w) < 2 ^ w := by
      have hbits := ofBits_lt (takeBits f w)
      rw [length_takeBits] at hbits
      exact hbits
    rw [takeBits, ofBits, length_takeBits, Nat.mul_comm,
      Nat.testBit_two_pow_mul_add _ hlt]
    by_cases hi : i < w
    · rw [if_pos hi, ih, decide_eq_true hi, decide_eq_true (Nat.lt_succ_of_lt hi)]
    · rw [if_neg hi]
      by_cases heq : i = w
      · subst heq
        rw [Nat.sub_self, decide_eq_true (Nat.lt_succ_self i), Bool.true_and]
        cases f i <;> rfl
      · have hge : ¬i < w + 1 := by omega
        rw [decide_eq_false hge, Bool.false_and]
        have hpos : 0 < i - w := by omega
        refine Nat.testBit_lt_two_pow ((Bool.toNat_lt (f w)).trans_le ?_)
        exact Nat.pow_le_pow_right Nat.two_pos (by omega : 1 ≤ i - w)

/-- The bits of the number that a stream makes are the stream. -/
theorem takeBits_testBit_ofBits (bits : List Bool) :
    takeBits (ofBits bits).testBit bits.length = bits := by
  induction bits with
  | nil => rfl
  | cons bit rest ih =>
    have hlt := ofBits_lt rest
    rw [ofBits, List.length_cons, takeBits, Nat.mul_comm,
      Nat.testBit_two_pow_mul_add _ hlt, if_neg (Nat.lt_irrefl _), Nat.sub_self]
    congr 1
    · cases bit <;> rfl
    · refine (takeBits_congr fun i hi => ?_).trans ih
      rw [Nat.testBit_two_pow_mul_add _ hlt, if_pos hi]

/-! ## Digits -/

theorem digits_nil (w : Nat) : digits w [] = [] := by
  rw [digits, if_pos (.inl rfl)]

/-- A digit that has all its bits. -/
theorem digits_append {w : Nat} (hw : 0 < w) {first : List Bool} (h : first.length = w)
    (rest : List Bool) : digits w (first ++ rest) = ofBits first :: digits w rest := by
  have hne : first ++ rest ≠ [] := by
    intro hnil
    rw [(List.append_eq_nil_iff.mp hnil).1] at h
    exact absurd h (Nat.ne_of_lt hw)
  have hfill : w - (first ++ rest).length = 0 := by
    rw [List.length_append]
    omega
  rw [digits, if_neg (not_or.mpr ⟨hne, Nat.ne_of_gt hw⟩), hfill, ← h, List.take_left,
    List.drop_left, List.replicate_zero, List.append_nil]

/-- A stream can be cut between two digits. -/
theorem digits_append_of_dvd {w : Nat} {front : List Bool} (h : w ∣ front.length)
    (rest : List Bool) : digits w (front ++ rest) = digits w front ++ digits w rest := by
  induction front using digits.induct w with
  | case1 front hempty =>
    rcases hempty with rfl | rfl
    · rw [List.nil_append, digits_nil, List.nil_append]
    · rw [Nat.eq_zero_of_zero_dvd h |> List.length_eq_zero_iff.mp, List.nil_append, digits_nil,
        List.nil_append]
  | case2 front hne ih =>
    rw [not_or] at hne
    have hpos := List.length_pos_of_ne_nil hne.1
    have hle : w ≤ front.length := Nat.le_of_dvd hpos h
    have hfirst : (front.take w).length = w := by
      rw [List.length_take, Nat.min_eq_left hle]
    have hdvd : w ∣ (front.drop w).length := by
      rw [List.length_drop]
      exact Nat.dvd_sub h (Nat.dvd_refl w)
    have hw := Nat.pos_of_ne_zero hne.2
    calc digits w (front ++ rest)
        = digits w (front.take w ++ (front.drop w ++ rest)) := by
          rw [← List.append_assoc, List.take_append_drop]
      _ = digits w (front.take w ++ front.drop w) ++ digits w rest := by
          rw [digits_append hw hfirst, digits_append hw hfirst, ih hdvd, List.cons_append]
      _ = digits w front ++ digits w rest := by rw [List.take_append_drop]

/-- The last digit, where it is short of bits. -/
theorem digits_of_short {w : Nat} {bits : List Bool} (hne : bits ≠ []) (h : bits.length < w) :
    digits w bits = [ofBits (bits ++ List.replicate (w - bits.length) false)] := by
  have hw : w ≠ 0 := by omega
  rw [digits, if_neg (not_or.mpr ⟨hne, hw⟩), List.take_of_length_le h.le,
    List.drop_eq_nil_of_le h.le, digits_nil]

theorem digits_lt {w : Nat} (bits : List Bool) : ∀ digit ∈ digits w bits, digit < 2 ^ w := by
  induction bits using digits.induct w with
  | case1 bits h =>
    rw [digits, if_pos h]
    exact fun digit hmem => absurd hmem List.not_mem_nil
  | case2 bits h ih =>
    rw [digits, if_neg h]
    intro digit hmem
    rcases List.mem_cons.mp hmem with rfl | hrest
    · have hlt := ofBits_lt (bits.take w ++ List.replicate (w - bits.length) false)
      have hlength : (bits.take w ++ List.replicate (w - bits.length) false).length = w := by
        rw [List.length_append, List.length_take, List.length_replicate]
        omega
      rw [hlength] at hlt
      exact hlt
    · exact ih digit hrest

/-- The bits of the digits are the stream and the zeros that fill it up. -/
theorem flatMap_digits {w : Nat} (hw : 0 < w) (bits : List Bool) :
    ∃ fill < w, (digits w bits).flatMap (fun digit => takeBits digit.testBit w) =
      bits ++ List.replicate fill false := by
  induction bits using digits.induct w with
  | case1 bits h =>
    refine ⟨0, hw, ?_⟩
    rw [digits, if_pos h, h.resolve_right (Nat.ne_of_gt hw)]
    rfl
  | case2 bits h ih =>
    have hlength : (bits.take w ++ List.replicate (w - bits.length) false).length = w := by
      rw [List.length_append, List.length_take, List.length_replicate]
      omega
    have hfirst := takeBits_testBit_ofBits
      (bits.take w ++ List.replicate (w - bits.length) false)
    rw [hlength] at hfirst
    rw [digits, if_neg h, List.flatMap_cons, hfirst]
    by_cases hshort : bits.length < w
    · refine ⟨w - bits.length, ?_, ?_⟩
      · have hpos := List.length_pos_of_ne_nil (not_or.mp h).1
        omega
      · rw [List.take_of_length_le hshort.le, List.drop_eq_nil_of_le hshort.le, digits_nil,
          List.flatMap_nil, List.append_nil]
    · obtain ⟨fill, hfill, hrest⟩ := ih
      refine ⟨fill, hfill, ?_⟩
      rw [hrest, Nat.sub_eq_zero_of_le (Nat.not_lt.mp hshort), List.replicate_zero,
        List.append_nil, ← List.append_assoc, List.take_append_drop]

/-! ## Whole digits -/

theorem wholeDigits_of_short {w : Nat} {bits : List Bool} (h : bits.length < w) :
    wholeDigits w bits = [] := by
  rw [wholeDigits, if_pos (.inl h)]

theorem wholeDigits_append {w : Nat} (hw : 0 < w) {first : List Bool} (h : first.length = w)
    (rest : List Bool) : wholeDigits w (first ++ rest) = ofBits first :: wholeDigits w rest := by
  have hlong : ¬(first ++ rest).length < w := by
    rw [List.length_append]
    omega
  rw [wholeDigits, if_neg (not_or.mpr ⟨hlong, Nat.ne_of_gt hw⟩), ← h, List.take_left,
    List.drop_left]

/-- Numbers written out in `w` bits are the whole digits of what is written, whatever is left
after them. -/
theorem wholeDigits_flatMap {w : Nat} {numbers : List Nat} (h : ∀ n ∈ numbers, n < 2 ^ w)
    {rest : List Bool} (hrest : rest.length < w) :
    wholeDigits w (numbers.flatMap (fun n => takeBits n.testBit w) ++ rest) = numbers := by
  induction numbers with
  | nil =>
    rw [List.flatMap_nil, List.nil_append]
    exact wholeDigits_of_short hrest
  | cons n numbers ih =>
    have hn : ofBits (takeBits n.testBit w) = n := by
      apply Nat.eq_of_testBit_eq
      intro i
      rw [testBit_ofBits_takeBits]
      by_cases hi : i < w
      · rw [decide_eq_true hi, Bool.true_and]
      · have hzero : n.testBit i = false := Nat.testBit_lt_two_pow
          ((h n List.mem_cons_self).trans_le (Nat.pow_le_pow_right Nat.two_pos
            (Nat.not_lt.mp hi)))
        rw [decide_eq_false hi, Bool.false_and, hzero]
    rw [List.flatMap_cons, List.append_assoc,
      wholeDigits_append (Nat.zero_lt_of_lt hrest) (length_takeBits _ _), hn,
      ih fun m hm => h m (List.mem_cons_of_mem _ hm)]

end BitStream
