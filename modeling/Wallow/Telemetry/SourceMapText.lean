import Wallow.Telemetry.SourceMaps
import Mathlib.Data.List.Forall2
import Mathlib.Data.Nat.Digits.Defs
import Mathlib.Tactic.IntervalCases
import Mathlib.Tactic.Ring

/-!
# The language of the mappings

Which mappings the decoder accepts, said of the text: the numbers of a segment, the sums of a map,
and where they end.
-/

namespace Wallow.Telemetry.PrivateSourceMaps

open SplitText

/-! ## Numbers -/

def letter (digit : Nat) : Char := ALPHABET.getD digit 'A'

/-- The letters of some digits, the lowest first: 32 is added to each but the last. -/
def spell : List Nat → List Char
  | [] => []
  | [digit] => [letter digit]
  | digit :: next :: digits => letter (digit + 32) :: spell (next :: digits)

/-- The number whose sign is in the low bit. -/
def zigzag (value : Nat) : Int :=
  if value % 2 = 0 then (value / 2 : Nat) else -(value / 2 : Nat)

/-- A base64 VLQ whose value fits 32 bits. -/
def IsVlq (text : List Char) (n : Int) : Prop :=
  ∃ digits : List Nat, digits ≠ [] ∧ digits.length ≤ 7 ∧ (∀ d ∈ digits, d < 32) ∧
    Nat.ofDigits 32 digits < 2 ^ 32 ∧ text = spell digits ∧ n = zigzag (Nat.ofDigits 32 digits)

/-- A text that is cut into VLQs. -/
inductive Numbers : List Char → List Int → Prop
  | nil : Numbers [] []
  | cons {text rest : List Char} {n : Int} {ns : List Int} :
    IsVlq text n → Numbers rest ns → Numbers (text ++ rest) (n :: ns)

theorem idxOf?_letter {digit : Nat} (h : digit < 64) :
    ALPHABET.idxOf? (letter digit) = some digit := by
  have hall : ∀ d : Fin 64, ALPHABET.idxOf? (letter d) = some d.val := by decide +kernel
  exact hall ⟨digit, h⟩

theorem letter_of_idxOf? {c : Char} {digit : Nat} (h : ALPHABET.idxOf? c = some digit) :
    digit < 64 ∧ c = letter digit := by
  obtain ⟨hlt, hget, -⟩ := List.idxOf?_eq_some_iff.mp h
  refine ⟨hlt, ?_⟩
  rw [letter, List.getD_eq_getElem?_getD, List.getElem?_eq_getElem hlt, hget, Option.getD_some]

theorem signed_ofNat {value : Nat} (h : value < 2 ^ 32) :
    signed (BitVec.ofNat 32 value) = some (zigzag value) := by
  have hlow : (BitVec.ofNat 32 value &&& 1 = 0) ↔ value % 2 = 0 := by
    rw [← BitVec.toNat_inj, BitVec.toNat_and, BitVec.toNat_ofNat, Nat.mod_eq_of_lt h]
    exact Nat.and_one_is_mod value ▸ Iff.rfl
  have hhigh : (BitVec.ofNat 32 value >>> 1).toNat = value / 2 := by
    rw [BitVec.toNat_ushiftRight, BitVec.toNat_ofNat, Nat.mod_eq_of_lt h, Nat.shiftRight_one]
  have hchecked : checked ((value / 2 : Nat) : Int) = some ((value / 2 : Nat) : Int) := by
    unfold checked INT_MIN INT_MAX
    rw [if_pos (by omega)]
  unfold signed zigzag
  simp only [hlow, hhigh, hchecked, Option.map_some]
  split <;> rfl

/-- A digit is put in front of the bits read before it. -/
theorem ofNat_or_shift {value digit shift : Nat} (h : value < 2 ^ shift) :
    BitVec.ofNat 32 value ||| (BitVec.ofNat 32 digit <<< shift) =
      BitVec.ofNat 32 (value + 2 ^ shift * digit) := by
  have hshift : BitVec.ofNat 32 digit <<< shift = BitVec.ofNat 32 (2 ^ shift * digit) := by
    apply BitVec.eq_of_toNat_eq
    rw [BitVec.toNat_shiftLeft, BitVec.toNat_ofNat, BitVec.toNat_ofNat, Nat.shiftLeft_eq,
      Nat.mul_comm, Nat.mul_mod, Nat.mod_mod, ← Nat.mul_mod]
  rw [hshift, ← BitVec.ofNat_or, Nat.add_comm, Nat.two_pow_add_eq_or_of_lt h, Nat.or_comm]

theorem and_31 (digit : Nat) : digit &&& 31 = digit % 32 :=
  Nat.and_two_pow_sub_one_eq_mod digit 5

theorem and_32_ne_zero {digit : Nat} (h : digit < 64) : digit &&& 32 ≠ 0 ↔ 32 ≤ digit := by
  have hhigh : (digit &&& 32) / 2 ^ 5 = digit / 32 := by
    rw [Nat.and_div_two_pow]
    show digit / 32 &&& 1 = digit / 32
    rw [Nat.and_one_is_mod, Nat.mod_eq_of_lt (by omega)]
  have hle : digit &&& 32 ≤ digit := Nat.and_le_left
  constructor
  · intro hne
    have hlow : (digit &&& 32) % 2 ^ 5 = 0 := by
      rw [Nat.and_mod_two_pow]
      exact Nat.and_zero _
    omega
  · intro hlarge hzero
    rw [hzero] at hhigh
    omega

/-- A digit that does not fit behind the bits read before it ends the reading. -/
theorem readValues_refused {value : BitVec 32} {shift digit : Nat} (values : List Int)
    (rest : List Char) (hdigit : digit < 64) (h : shift > 30 ∨ shift = 30 ∧ digit % 32 > 3) :
    readValues value shift values (letter digit :: rest) = none := by
  rw [readValues, idxOf?_letter hdigit]
  simp only [and_31]
  by_cases hlong : shift > 30
  · rw [if_pos hlong]
  · rw [if_neg hlong, if_pos (h.resolve_left hlong)]

theorem readValues_more {value shift digit : Nat} (values : List Int) (rest : List Char)
    (hdigit : digit < 32) (hvalue : value < 2 ^ shift)
    (h : ¬(shift > 30 ∨ shift = 30 ∧ digit > 3)) :
    readValues (BitVec.ofNat 32 value) shift values (letter (digit + 32) :: rest) =
      readValues (BitVec.ofNat 32 (value + 2 ^ shift * digit)) (shift + 5) values rest := by
  have hlow : (digit + 32) % 32 = digit := by omega
  rw [readValues, idxOf?_letter (by omega)]
  simp only [and_31, hlow]
  rw [if_neg (fun hlong => h (.inl hlong)), if_neg (fun hlast => h (.inr hlast)),
    if_pos ((and_32_ne_zero (by omega)).mpr (by omega)), ofNat_or_shift hvalue]

theorem readValues_last {value shift digit : Nat} (values : List Int) (rest : List Char)
    (hdigit : digit < 32) (hvalue : value < 2 ^ shift)
    (h : ¬(shift > 30 ∨ shift = 30 ∧ digit > 3))
    (hfit : value + 2 ^ shift * digit < 2 ^ 32) :
    readValues (BitVec.ofNat 32 value) shift values (letter digit :: rest) =
      if values.length + 1 > 5 then none
      else readValues 0 0 (values ++ [zigzag (value + 2 ^ shift * digit)]) rest := by
  have hlow : digit % 32 = digit := Nat.mod_eq_of_lt hdigit
  rw [readValues, idxOf?_letter (by omega)]
  simp only [and_31, hlow]
  rw [if_neg (fun hlong => h (.inl hlong)), if_neg (fun hlast => h (.inr hlast)),
    if_neg (fun hmore => absurd ((and_32_ne_zero (by omega)).mp hmore) (by omega)),
    ofNat_or_shift hvalue, signed_ofNat hfit]
  simp only [List.length_append, List.length_singleton]

theorem spell_cons (digit : Nat) {digits : List Nat} (h : digits ≠ []) :
    spell (digit :: digits) = letter (digit + 32) :: spell digits := by
  cases digits with
  | nil => exact absurd rfl h
  | cons next digits => rfl

/-- What fits behind the bits read before it stays below 32 bits. -/
theorem add_digit_lt {value k digit : Nat} (hvalue : value < 2 ^ (5 * k)) (hdigit : digit < 32)
    (h : ¬(5 * k > 30 ∨ 5 * k = 30 ∧ digit > 3)) : value + 2 ^ (5 * k) * digit < 2 ^ 32 := by
  have hk : k ≤ 6 := by omega
  interval_cases k <;> omega

theorem add_digit_lt_succ {value k digit : Nat} (hvalue : value < 2 ^ (5 * k))
    (hdigit : digit < 32) : value + 2 ^ (5 * k) * digit < 2 ^ (5 * (k + 1)) := by
  have hmul : 2 ^ (5 * k) * digit ≤ 2 ^ (5 * k) * 31 := Nat.mul_le_mul_left _ (by omega)
  have hpow : 2 ^ (5 * (k + 1)) = 2 ^ (5 * k) * 32 := Nat.pow_add 2 (5 * k) 5
  omega

theorem ofDigits_shift (value k digit : Nat) (digits : List Nat) :
    value + 2 ^ (5 * k) * Nat.ofDigits 32 (digit :: digits) =
      value + 2 ^ (5 * k) * digit + 2 ^ (5 * (k + 1)) * Nat.ofDigits 32 digits := by
  rw [Nat.ofDigits_cons, show 2 ^ (5 * (k + 1)) = 2 ^ (5 * k) * 32 from Nat.pow_add 2 (5 * k) 5]
  ring

/-- The reader takes the letters of a number. -/
theorem readValues_spell {digits : List Nat} (value k : Nat) (values : List Int)
    (rest : List Char) (hne : digits ≠ []) (hdigits : ∀ d ∈ digits, d < 32)
    (hvalue : value < 2 ^ (5 * k)) (hlength : k + digits.length ≤ 7)
    (hfit : value + 2 ^ (5 * k) * Nat.ofDigits 32 digits < 2 ^ 32) (hvalues : values.length < 5) :
    readValues (BitVec.ofNat 32 value) (5 * k) values (spell digits ++ rest) =
      readValues 0 0 (values ++ [zigzag (value + 2 ^ (5 * k) * Nat.ofDigits 32 digits)]) rest := by
  induction digits generalizing value k with
  | nil => exact absurd rfl hne
  | cons digit digits ih =>
    have hdigit : digit < 32 := hdigits digit List.mem_cons_self
    rw [ofDigits_shift] at hfit ⊢
    rw [List.length_cons] at hlength
    -- only the seventh digit can be too large, and the value bounds it
    have hplace : ¬(5 * k > 30 ∨ 5 * k = 30 ∧ digit > 3) := by
      rintro (hlong | ⟨hlast, hbig⟩)
      · omega
      · have hk : k = 6 := by omega
        subst hk
        omega
    by_cases hdone : digits = []
    · subst hdone
      rw [Nat.ofDigits_nil, Nat.mul_zero, Nat.add_zero] at hfit ⊢
      have hread := readValues_last values rest hdigit hvalue hplace hfit
      rw [if_neg (by omega)] at hread
      exact hread
    · rw [spell_cons digit hdone, List.cons_append,
        readValues_more values _ hdigit hvalue hplace]
      exact ih _ _ hdone (fun d hd => hdigits d (List.mem_cons_of_mem _ hd))
        (add_digit_lt_succ hvalue hdigit) (by omega) hfit

/-- Where the reader goes through, it has taken the letters of a number. -/
theorem readValues_some {text : List Char} (value k : Nat) {values out : List Int}
    (hvalue : value < 2 ^ (5 * k))
    (h : readValues (BitVec.ofNat 32 value) (5 * k) values text = some out) :
    (k = 0 ∧ text = [] ∧ out = values) ∨
      ∃ digits rest, digits ≠ [] ∧ (∀ d ∈ digits, d < 32) ∧ k + digits.length ≤ 7 ∧
        value + 2 ^ (5 * k) * Nat.ofDigits 32 digits < 2 ^ 32 ∧ text = spell digits ++ rest ∧
        values.length < 5 ∧
        readValues 0 0 (values ++ [zigzag (value + 2 ^ (5 * k) * Nat.ofDigits 32 digits)]) rest =
          some out := by
  induction text generalizing value k with
  | nil =>
    rw [readValues] at h
    by_cases hk : k = 0
    · subst hk
      rw [if_pos rfl, Option.some.injEq] at h
      exact .inl ⟨rfl, rfl, h.symm⟩
    · rw [if_neg (by omega)] at h
      cases h
  | cons c text ih =>
    right
    cases hindex : ALPHABET.idxOf? c with
    | none =>
      rw [readValues, hindex] at h
      simp only [ite_self, reduceCtorEq] at h
    | some digit =>
      obtain ⟨hlt, rfl⟩ := letter_of_idxOf? hindex
      by_cases hrefused : 5 * k > 30 ∨ 5 * k = 30 ∧ digit % 32 > 3
      · rw [readValues_refused values text hlt hrefused] at h
        cases h
      · by_cases hsmall : digit < 32
        · rw [Nat.mod_eq_of_lt hsmall] at hrefused
          have hfit := add_digit_lt hvalue hsmall hrefused
          rw [readValues_last values text hsmall hvalue hrefused hfit] at h
          by_cases hfull : values.length + 1 > 5
          · rw [if_pos hfull] at h
            cases h
          · rw [if_neg hfull] at h
            have honly : value + 2 ^ (5 * k) * digit =
                value + 2 ^ (5 * k) * Nat.ofDigits 32 [digit] := by
              rw [Nat.ofDigits_singleton]
            rw [honly] at h hfit
            refine ⟨[digit], text, List.cons_ne_nil _ _, ?_, ?_, hfit, rfl, by omega, h⟩
            · intro d hd
              rw [List.mem_singleton.mp hd]
              exact hsmall
            · rw [List.length_singleton]
              omega
        · obtain ⟨low, rfl⟩ : ∃ low, digit = low + 32 := ⟨digit - 32, by omega⟩
          have hlow : low < 32 := by omega
          rw [Nat.add_mod_right, Nat.mod_eq_of_lt hlow] at hrefused
          rw [readValues_more values text hlow hvalue hrefused] at h
          rcases ih _ (k + 1) (add_digit_lt_succ hvalue hlow) h with
            ⟨hk, -⟩ | ⟨digits, rest, hne, hdigits, hlength, hfit, rfl, hvalues, hrest⟩
          · omega
          · rw [← ofDigits_shift] at hfit hrest
            refine ⟨low :: digits, rest, List.cons_ne_nil _ _, ?_, ?_, hfit, ?_, hvalues, hrest⟩
            · intro d hd
              rcases List.mem_cons.mp hd with rfl | hd
              · exact hlow
              · exact hdigits d hd
            · rw [List.length_cons]
              omega
            · rw [spell_cons low hne]
              rfl

/-- The reader answers the numbers of a segment, five at most. -/
theorem readValues_iff (text : List Char) (values : List Int) {out : List Int}
    (hvalues : values.length ≤ 5) :
    readValues 0 0 values text = some out ↔
      ∃ ns, Numbers text ns ∧ out = values ++ ns ∧ out.length ≤ 5 := by
  constructor
  · intro h
    induction hlength : text.length using Nat.strongRecOn generalizing text values with
    | _ n ih =>
      -- a number is read first, which takes at least one letter
      rcases readValues_some 0 0 (Nat.two_pow_pos _) h with
        ⟨-, rfl, rfl⟩ | ⟨digits, rest, hne, hdigits, hseven, hfit, rfl, hfew, hrest⟩
      · exact ⟨[], .nil, (List.append_nil _).symm, hvalues⟩
      · rw [Nat.mul_zero, Nat.pow_zero, Nat.one_mul, Nat.zero_add] at hfit hrest
        have hshorter : rest.length < n := by
          have hpos : (spell digits).length ≠ 0 := by
            cases digits with
            | nil => exact absurd rfl hne
            | cons d ds => cases ds <;> exact Nat.succ_ne_zero _
          rw [← hlength, List.length_append]
          omega
        obtain ⟨ns, hns, hout, hfive⟩ := ih _ hshorter rest _
          (by rw [List.length_append, List.length_singleton]; omega) hrest rfl
        refine ⟨_ :: ns, .cons ⟨digits, hne, ?_, hdigits, hfit, rfl, rfl⟩ hns, ?_, hfive⟩
        · omega
        · rw [hout, List.append_assoc]
          rfl
  · rintro ⟨ns, hns, rfl, hfive⟩
    induction hns generalizing values with
    | nil =>
      rw [List.append_nil]
      rfl
    | @cons text rest n ns hvlq _ ih =>
      obtain ⟨digits, hne, hseven, hdigits, hfit, rfl, rfl⟩ := hvlq
      rw [List.length_append, List.length_cons] at hfive
      have hspell := readValues_spell 0 0 values rest hne hdigits
        (Nat.two_pow_pos _) (by omega) (by omega) (by omega)
      rw [Nat.mul_zero, Nat.pow_zero, Nat.one_mul, Nat.zero_add] at hspell
      refine hspell.trans ?_
      rw [ih _ (by rw [List.length_append, List.length_singleton]; omega)]
      · rw [List.append_assoc]
        rfl
      · rw [List.append_assoc, List.length_append, List.singleton_append, List.length_cons]
        exact hfive

/-! ## Segments and their sums -/

/-- A segment: its column, and the source, line, column and name where it has them. -/
def IsSegment (text : List Char) (values : List Int) : Prop :=
  Numbers text values ∧ (values.length = 1 ∨ values.length = 4 ∨ values.length = 5)

/-- The numbers at one place of the segments that have it. -/
def deltas (place : Nat) (segments : List (List Int)) : List Int :=
  segments.filterMap (·[place]?)

/-- Every sum that is reached on the way lies between 0 and the bound. -/
def SumsWithin (bound : Int) : Int → List Int → Prop
  | _, [] => True
  | start, delta :: rest =>
    0 ≤ start + delta ∧ start + delta ≤ bound ∧ SumsWithin bound (start + delta) rest

instance decidableSumsWithin (bound : Int) :
    (start : Int) → (deltas : List Int) → Decidable (SumsWithin bound start deltas)
  | _, [] => inferInstanceAs (Decidable True)
  | start, delta :: rest =>
    have := decidableSumsWithin bound (start + delta) rest
    inferInstanceAs (Decidable (_ ∧ _ ∧ _))

/-- The sums that run through all lines stay in range; `top` is the greatest original line and
column. -/
structure RunsWithin (map : StoredMap) (top : Int) (running : Running)
    (segments : List (List Int)) : Prop where
  sources : SumsWithin (min INT_MAX (map.sources.length - 1)) running.source (deltas 1 segments)
  lines : SumsWithin top running.originalLine (deltas 2 segments)
  columns : SumsWithin top running.originalColumn (deltas 3 segments)
  names : SumsWithin (min INT_MAX (map.names.length - 1)) running.name (deltas 4 segments)

def Running.after (running : Running) (segments : List (List Int)) : Running where
  source := running.source + (deltas 1 segments).sum
  originalLine := running.originalLine + (deltas 2 segments).sum
  originalColumn := running.originalColumn + (deltas 3 segments).sum
  name := running.name + (deltas 4 segments).sum
  segments := running.segments + segments.length

theorem deltas_append (place : Nat) (xs ys : List (List Int)) :
    deltas place (xs ++ ys) = deltas place xs ++ deltas place ys := List.filterMap_append

theorem sumsWithin_append {bound start : Int} {xs ys : List Int} :
    SumsWithin bound start (xs ++ ys) ↔
      SumsWithin bound start xs ∧ SumsWithin bound (start + xs.sum) ys := by
  induction xs generalizing start with
  | nil => rw [List.nil_append, List.sum_nil, Int.add_zero, SumsWithin, true_and]
  | cons delta rest ih =>
    rw [List.cons_append, SumsWithin, SumsWithin, ih, List.sum_cons, Int.add_assoc]
    tauto

theorem runsWithin_append {map : StoredMap} {top : Int} {running : Running}
    {xs ys : List (List Int)} :
    RunsWithin map top running (xs ++ ys) ↔
      RunsWithin map top running xs ∧ RunsWithin map top (running.after xs) ys := by
  constructor
  · rintro ⟨hsources, hlines, hcolumns, hnames⟩
    rw [deltas_append, sumsWithin_append] at hsources hlines hcolumns hnames
    exact ⟨⟨hsources.1, hlines.1, hcolumns.1, hnames.1⟩,
      ⟨hsources.2, hlines.2, hcolumns.2, hnames.2⟩⟩
  · rintro ⟨hfirst, hrest⟩
    refine ⟨?_, ?_, ?_, ?_⟩ <;> rw [deltas_append, sumsWithin_append]
    · exact ⟨hfirst.sources, hrest.sources⟩
    · exact ⟨hfirst.lines, hrest.lines⟩
    · exact ⟨hfirst.columns, hrest.columns⟩
    · exact ⟨hfirst.names, hrest.names⟩

theorem Running.after_append (running : Running) (xs ys : List (List Int)) :
    running.after (xs ++ ys) = (running.after xs).after ys := by
  unfold Running.after
  simp only [deltas_append, List.sum_append, List.length_append, Int.add_assoc, Nat.add_assoc]

theorem Running.after_nil (running : Running) : running.after [] = running := by
  unfold Running.after
  simp only [deltas, List.filterMap_nil, List.sum_nil, Int.add_zero, List.length_nil,
    Nat.add_zero]

theorem checked_eq_some_iff {n m : Int} :
    checked n = some m ↔ (INT_MIN ≤ n ∧ n ≤ INT_MAX) ∧ n = m := by
  unfold checked
  split <;> simp_all

theorem checked_of_nonneg {n : Int} (hlow : 0 ≤ n) (hhigh : n ≤ INT_MAX) : checked n = some n :=
  checked_eq_some_iff.mpr ⟨⟨by unfold INT_MIN; omega, hhigh⟩, rfl⟩

theorem readName_iff (map : StoredMap) (name name' : Int) (delta : Option Int) :
    (∃ function, readName map name delta = some (name', function)) ↔
      SumsWithin (min INT_MAX (map.names.length - 1)) name delta.toList ∧
        name' = name + delta.toList.sum := by
  cases delta with
  | none =>
    rw [readName, Option.toList_none, SumsWithin, List.sum_nil, Int.add_zero]
    simp only [Option.some.injEq, Prod.mk.injEq, true_and, eq_comm, exists_and_left, exists_eq,
      and_true]
  | some delta =>
    rw [readName, Option.toList_some, List.sum_singleton, SumsWithin, SumsWithin]
    constructor
    · rintro ⟨function, h⟩
      obtain ⟨n, hn, h⟩ := Option.bind_eq_some_iff.mp h
      obtain ⟨⟨-, hmax⟩, rfl⟩ := checked_eq_some_iff.mp hn
      by_cases hout : name + delta < 0 ∨ name + delta ≥ map.names.length
      · rw [if_pos hout] at h
        cases h
      · rw [if_neg hout] at h
        cases h
        exact ⟨⟨by omega, by omega, trivial⟩, rfl⟩
    · rintro ⟨⟨hlow, hhigh, -⟩, rfl⟩
      have hchecked : checked (name + delta) = some (name + delta) :=
        checked_of_nonneg hlow (by omega)
      refine ⟨map.names[(name + delta).toNat]?, ?_⟩
      refine Option.bind_eq_some_iff.mpr ⟨name + delta, hchecked, ?_⟩
      rw [if_neg (by omega)]

theorem runsWithin_position {map : StoredMap} {top : Int} {running : Running}
    {column source line originalColumn : Int} {name : Option Int} :
    RunsWithin map top running [column :: source :: line :: originalColumn :: name.toList] ↔
      SumsWithin (min INT_MAX (map.sources.length - 1)) running.source [source] ∧
        SumsWithin top running.originalLine [line] ∧
        SumsWithin top running.originalColumn [originalColumn] ∧
        SumsWithin (min INT_MAX (map.names.length - 1)) running.name name.toList := by
  have hnames : deltas 4 [column :: source :: line :: originalColumn :: name.toList] =
      name.toList := by
    cases name <;> rfl
  constructor
  · rintro ⟨hsources, hlines, hcolumns, hfifth⟩
    exact ⟨hsources, hlines, hcolumns, hnames ▸ hfifth⟩
  · rintro ⟨hsources, hlines, hcolumns, hfifth⟩
    exact ⟨hsources, hlines, hcolumns, hnames.symm ▸ hfifth⟩

theorem after_position (running : Running) (column source line originalColumn : Int)
    (name : Option Int) :
    running.after [column :: source :: line :: originalColumn :: name.toList] =
      ⟨running.source + source, running.originalLine + line,
        running.originalColumn + originalColumn, running.name + name.toList.sum,
        running.segments + 1⟩ := by
  cases name <;>
    simp only [Running.after, deltas, Option.toList_none, Option.toList_some, List.filterMap_cons,
      List.filterMap_nil, List.getElem?_cons_succ, List.getElem?_cons_zero, List.getElem?_nil,
      List.sum_cons, List.sum_nil, Int.add_zero, List.length_singleton]

/-- A position is read where the sums of its segment stay in range. -/
theorem readPosition_iff (map : StoredMap) (running running' : Running)
    (column source line originalColumn : Int) (name : Option Int) :
    (∃ position, readPosition map running source line originalColumn name =
      some (running', position)) ↔
      RunsWithin map (INT_MAX - 1) running
          [column :: source :: line :: originalColumn :: name.toList] ∧
        running' = { running.after [column :: source :: line :: originalColumn :: name.toList] with
          segments := running.segments } := by
  rw [runsWithin_position, after_position]
  constructor
  · rintro ⟨position, h⟩
    obtain ⟨s, hs, h⟩ := Option.bind_eq_some_iff.mp h
    obtain ⟨l, hl, h⟩ := Option.bind_eq_some_iff.mp h
    obtain ⟨c, hc, h⟩ := Option.bind_eq_some_iff.mp h
    obtain ⟨⟨-, hsmax⟩, rfl⟩ := checked_eq_some_iff.mp hs
    obtain ⟨-, rfl⟩ := checked_eq_some_iff.mp hl
    obtain ⟨-, rfl⟩ := checked_eq_some_iff.mp hc
    split at h
    · cases h
    · rename_i hin
      obtain ⟨⟨n, function⟩, hname, h⟩ := Option.bind_eq_some_iff.mp h
      obtain ⟨l', hl', h⟩ := Option.bind_eq_some_iff.mp h
      obtain ⟨c', hc', h⟩ := Option.bind_eq_some_iff.mp h
      obtain ⟨⟨-, hlmax⟩, rfl⟩ := checked_eq_some_iff.mp hl'
      obtain ⟨⟨-, hcmax⟩, rfl⟩ := checked_eq_some_iff.mp hc'
      obtain ⟨hnames, rfl⟩ := (readName_iff map running.name n name).mp ⟨function, hname⟩
      cases h
      exact ⟨⟨⟨by omega, by omega, trivial⟩, ⟨by omega, by omega, trivial⟩,
        ⟨by omega, by omega, trivial⟩, hnames⟩, rfl⟩
  · rintro ⟨⟨⟨hs, hsmax, -⟩, ⟨hl, hlmax, -⟩, ⟨hc, hcmax, -⟩, hnames⟩, rfl⟩
    obtain ⟨function, hname⟩ := (readName_iff map running.name _ name).mpr ⟨hnames, rfl⟩
    unfold readPosition
    rw [checked_of_nonneg hs (by omega), checked_of_nonneg hl (by omega),
      checked_of_nonneg hc (by omega)]
    simp only [Option.bind_eq_bind, Option.bind_some]
    rw [if_neg (by omega), hname, Option.bind_some]
    dsimp only
    rw [checked_of_nonneg (by omega) (by omega), Option.bind_some,
      checked_of_nonneg (by omega) (by omega), Option.bind_some]
    exact ⟨_, rfl⟩

theorem runsWithin_count {map : StoredMap} {top : Int} {running : Running}
    {segments : List (List Int)} (count : Nat) :
    RunsWithin map top { running with segments := count } segments ↔
      RunsWithin map top running segments :=
  ⟨fun h => ⟨h.sources, h.lines, h.columns, h.names⟩,
    fun h => ⟨h.sources, h.lines, h.columns, h.names⟩⟩

/-- A segment with a column only moves no sum that runs through the lines. -/
theorem runsWithin_column {map : StoredMap} {top : Int} {running : Running} (column : Int) :
    RunsWithin map top running [[column]] := ⟨trivial, trivial, trivial, trivial⟩

theorem after_column (running : Running) (column : Int) :
    running.after [[column]] = { running with segments := running.segments + 1 } := by
  simp only [Running.after, deltas, List.filterMap_cons, List.filterMap_nil,
    List.getElem?_cons_succ, List.getElem?_nil, List.sum_nil, Int.add_zero, List.length_singleton]

/-- The numbers of a segment are a column, or a column with a position. -/
theorem segment_cases {values : List Int}
    (h : values.length = 1 ∨ values.length = 4 ∨ values.length = 5) :
    (∃ column, values = [column]) ∨ ∃ column source line originalColumn, ∃ name : Option Int,
      values = column :: source :: line :: originalColumn :: name.toList := by
  rcases values with - | ⟨column, - | ⟨source, - | ⟨line, - | ⟨originalColumn, rest⟩⟩⟩⟩
  · simp at h
  · exact .inl ⟨column, rfl⟩
  · simp at h
  · simp at h
  · refine .inr ⟨column, source, line, originalColumn, rest.head?, ?_⟩
    rcases rest with - | ⟨name, - | ⟨extra, rest⟩⟩
    · rfl
    · rfl
    · simp only [List.length_cons] at h
      omega

theorem readValues_segment (text : List Char) (values : List Int) :
    readValues 0 0 [] text = some values ↔ Numbers text values ∧ values.length ≤ 5 := by
  rw [readValues_iff text [] (Nat.zero_le 5)]
  constructor
  · rintro ⟨ns, hnumbers, rfl, hfive⟩
    exact ⟨hnumbers, hfive⟩
  · rintro ⟨hnumbers, hfive⟩
    exact ⟨values, hnumbers, rfl, hfive⟩

/-- A segment is read where it has one, four or five numbers and its sums stay in range. -/
theorem readSegment_iff (map : StoredMap) (running running' : Running) (column column' : Int)
    (text : List Char) :
    (∃ located, readSegment map running column text = some (running', located) ∧
      located.column = column') ↔
      ∃ values, IsSegment text values ∧ running.segments + 1 ≤ MAX_SEGMENTS ∧
        SumsWithin INT_MAX column (deltas 0 [values]) ∧
        RunsWithin map (INT_MAX - 1) running [values] ∧ running' = running.after [values] ∧
        column' = column + (deltas 0 [values]).sum := by
  constructor
  · rintro ⟨located, h, rfl⟩
    unfold readSegment at h
    split at h
    · cases h
    · rename_i hcount
      -- the two shapes of a segment; all others are refused
      obtain ⟨values, hvalues, h⟩ := Option.bind_eq_some_iff.mp h
      obtain ⟨hnumbers, hfive⟩ := (readValues_segment text values).mp hvalues
      split at h
      · rename_i delta
        obtain ⟨c, hc, h⟩ := Option.bind_eq_some_iff.mp h
        obtain ⟨⟨-, hmax⟩, rfl⟩ := checked_eq_some_iff.mp hc
        split at h
        · cases h
        · cases h
          exact ⟨[delta], ⟨hnumbers, .inl rfl⟩, by omega, ⟨by omega, hmax, trivial⟩,
            runsWithin_column delta, (after_column running delta).symm,
            congrArg (column + ·) List.sum_singleton.symm⟩
      · rename_i delta source line originalColumn rest
        obtain ⟨c, hc, h⟩ := Option.bind_eq_some_iff.mp h
        obtain ⟨⟨-, hmax⟩, rfl⟩ := checked_eq_some_iff.mp hc
        split at h
        · cases h
        · obtain ⟨⟨next, position⟩, hposition, h⟩ := Option.bind_eq_some_iff.mp h
          cases h
          obtain ⟨name, rfl⟩ : ∃ name : Option Int, rest = name.toList := by
            rcases rest with - | ⟨first, - | ⟨second, rest⟩⟩
            · exact ⟨none, rfl⟩
            · exact ⟨some first, rfl⟩
            · simp only [List.length_cons] at hfive
              omega
          have hhead : name.toList.head? = name := by cases name <;> rfl
          rw [hhead] at hposition
          obtain ⟨hruns, hafter⟩ := (readPosition_iff map _ _ delta source line originalColumn
            name).mp ⟨position, hposition⟩
          have hlength :
              IsSegment text (delta :: source :: line :: originalColumn :: name.toList) := by
            refine ⟨hnumbers, ?_⟩
            cases name with
            | none => exact .inr (.inl rfl)
            | some _ => exact .inr (.inr rfl)
          exact ⟨_, hlength, by omega, ⟨by omega, hmax, trivial⟩,
            (runsWithin_count _).mp hruns, hafter, congrArg (column + ·) List.sum_singleton.symm⟩
      · cases h
  · rintro ⟨values, ⟨hnumbers, hlength⟩, hcount, hcolumn, hruns, rfl, rfl⟩
    have hvalues : readValues 0 0 [] text = some values :=
      (readValues_segment text values).mpr ⟨hnumbers, by omega⟩
    unfold readSegment
    rw [if_neg (by omega), hvalues]
    rcases segment_cases hlength with ⟨delta, rfl⟩ |
      ⟨delta, source, line, originalColumn, name, rfl⟩
    · obtain ⟨hlow, hhigh, -⟩ := hcolumn
      simp only [Option.bind_eq_bind, Option.bind_some]
      rw [checked_of_nonneg hlow hhigh, Option.bind_some, if_neg (Int.not_lt.mpr hlow),
        after_column]
      exact ⟨_, rfl, congrArg (column + ·) List.sum_singleton.symm⟩
    · obtain ⟨hlow, hhigh, -⟩ := hcolumn
      have hhead : name.toList.head? = name := by cases name <;> rfl
      obtain ⟨position, hposition⟩ := (readPosition_iff map
        { running with segments := running.segments + 1 } _ delta source line originalColumn
        name).mpr ⟨(runsWithin_count _).mpr hruns, rfl⟩
      simp only [Option.bind_eq_bind, Option.bind_some]
      rw [checked_of_nonneg hlow hhigh, Option.bind_some, if_neg (Int.not_lt.mpr hlow), hhead,
        hposition, Option.bind_some]
      exact ⟨_, rfl, congrArg (column + ·) List.sum_singleton.symm⟩

/-! ## Lines -/

theorem locateLine_iff (map : StoredMap) (texts : List (List Char)) (running running' : Running)
    (column : Int) (hcount : running.segments ≤ MAX_SEGMENTS) :
    (∃ located, locateLine map running column texts = some (running', located)) ↔
      ∃ segments, List.Forall₂ IsSegment texts segments ∧
        running.segments + segments.length ≤ MAX_SEGMENTS ∧
        SumsWithin INT_MAX column (deltas 0 segments) ∧
        RunsWithin map (INT_MAX - 1) running segments ∧ running' = running.after segments := by
  induction texts generalizing running column with
  | nil =>
    rw [locateLine]
    constructor
    · rintro ⟨located, h⟩
      cases h
      exact ⟨[], .nil, hcount, trivial, ⟨trivial, trivial, trivial, trivial⟩,
        (Running.after_nil _).symm⟩
    · rintro ⟨segments, hsegments, -, -, -, rfl⟩
      cases hsegments
      exact ⟨[], by rw [running.after_nil]⟩
  | cons text texts ih =>
    rw [locateLine]
    constructor
    · rintro ⟨located, h⟩
      obtain ⟨⟨next, first⟩, hfirst, h⟩ := Option.bind_eq_some_iff.mp h
      obtain ⟨⟨last, others⟩, hothers, h⟩ := Option.bind_eq_some_iff.mp h
      cases h
      obtain ⟨values, hvalues, hroom, hcolumn, hruns, rfl, hnext⟩ :=
        (readSegment_iff map running next column first.column text).mp ⟨first, hfirst, rfl⟩
      obtain ⟨segments, hsegments, hfew, hcolumns, hrest, rfl⟩ :=
        (ih (running.after [values]) first.column hroom).mp ⟨others, hothers⟩
      rw [hnext] at hcolumns
      refine ⟨[values] ++ segments, .cons hvalues hsegments, ?_, ?_,
        runsWithin_append.mpr ⟨hruns, hrest⟩, (running.after_append [values] segments).symm⟩
      · rw [List.length_append, ← Nat.add_assoc]
        exact hfew
      · rw [deltas_append]
        exact sumsWithin_append.mpr ⟨hcolumn, hcolumns⟩
    · rintro ⟨segments, hsegments, hfew, hcolumns, hruns, rfl⟩
      obtain ⟨values, segments, hvalues, hrest, rfl⟩ := List.forall₂_cons_left_iff.mp hsegments
      rw [← List.singleton_append] at hfew hcolumns hruns ⊢
      rw [deltas_append, sumsWithin_append] at hcolumns
      rw [runsWithin_append] at hruns
      rw [List.length_append, ← Nat.add_assoc] at hfew
      have hroom : running.segments + 1 ≤ MAX_SEGMENTS :=
        Nat.le_trans (Nat.le_add_right _ segments.length) hfew
      obtain ⟨first, hfirst, hnext⟩ := (readSegment_iff map running _ column _ text).mpr
        ⟨values, hvalues, hroom, hcolumns.1, hruns.1, rfl, rfl⟩
      obtain ⟨others, hothers⟩ := (ih (running.after [values]) first.column hroom).mpr
        ⟨segments, hrest, hfew, hnext ▸ hcolumns.2, hruns.2,
          running.after_append [values] segments⟩
      refine ⟨first :: others, ?_⟩
      rw [hfirst]
      simp only [Option.bind_eq_bind, Option.bind_some, hothers, List.singleton_append]

/-- The lines of a map are cut into segments whose sums stay in range. -/
structure WellFormed (map : StoredMap) (top : Int) (running : Running) (texts : List (List Char))
    (lines : List (List (List Int))) : Prop where
  segments : List.Forall₂ (fun text => List.Forall₂ IsSegment (segmentsOf text)) texts lines
  generatedColumns : ∀ line ∈ lines, SumsWithin INT_MAX 0 (deltas 0 line)
  runs : RunsWithin map top running lines.flatten

theorem locateLines_iff (map : StoredMap) (texts : List (List Char)) (running : Running)
    (hcount : running.segments ≤ MAX_SEGMENTS) :
    (locateLines map running texts).isSome ↔
      ∃ lines, WellFormed map (INT_MAX - 1) running texts lines ∧
        running.segments + lines.flatten.length ≤ MAX_SEGMENTS := by
  induction texts generalizing running with
  | nil =>
    refine iff_of_true rfl ⟨[], ⟨.nil, ?_, ⟨trivial, trivial, trivial, trivial⟩⟩, hcount⟩
    intro line hline
    exact absurd hline List.not_mem_nil
  | cons text texts ih =>
    rw [locateLines]
    constructor
    · intro h
      obtain ⟨located, h⟩ := Option.isSome_iff_exists.mp h
      obtain ⟨⟨next, first⟩, hfirst, h⟩ := Option.bind_eq_some_iff.mp h
      obtain ⟨others, hothers, -⟩ := Option.bind_eq_some_iff.mp h
      obtain ⟨line, hline, hroom, hcolumns, hruns, rfl⟩ :=
        (locateLine_iff map _ running next 0 hcount).mp ⟨first, hfirst⟩
      obtain ⟨lines, ⟨hlines, hgenerated, hrest⟩, hfew⟩ :=
        (ih (running.after line) hroom).mp (Option.isSome_iff_exists.mpr ⟨others, hothers⟩)
      refine ⟨line :: lines, ⟨.cons hline hlines, ?_, ?_⟩, ?_⟩
      · intro other hother
        rcases List.mem_cons.mp hother with rfl | hlater
        · exact hcolumns
        · exact hgenerated other hlater
      · rw [List.flatten_cons]
        exact runsWithin_append.mpr ⟨hruns, hrest⟩
      · rw [List.flatten_cons, List.length_append, ← Nat.add_assoc]
        exact hfew
    · rintro ⟨lines, ⟨hlines, hgenerated, hruns⟩, hfew⟩
      obtain ⟨line, lines, hline, hrest, rfl⟩ := List.forall₂_cons_left_iff.mp hlines
      rw [List.flatten_cons] at hruns hfew
      rw [runsWithin_append] at hruns
      rw [List.length_append, ← Nat.add_assoc] at hfew
      have hroom : running.segments + line.length ≤ MAX_SEGMENTS :=
        Nat.le_trans (Nat.le_add_right _ lines.flatten.length) hfew
      obtain ⟨first, hfirst⟩ := (locateLine_iff map _ running _ 0 hcount).mpr
        ⟨line, hline, hroom, hgenerated line List.mem_cons_self, hruns.1, rfl⟩
      obtain ⟨others, hothers⟩ := Option.isSome_iff_exists.mp
        ((ih (running.after line) hroom).mpr ⟨lines, ⟨hrest, fun other hother =>
          hgenerated other (List.mem_cons_of_mem _ hother), hruns.2⟩, hfew⟩)
      rw [hfirst]
      simp only [Option.bind_eq_bind, Option.bind_some, hothers, Option.isSome_some]

/-- The decoder accepts a map by its text alone: the segments are one, four or five numbers, their
sums stay in range, and there are not too many; an accepted map never fails at a lookup. -/
theorem decode_accepts_iff (map : StoredMap) :
    (∀ requestedLine requestedColumn : Int,
      (decode map requestedLine requestedColumn).isSome ↔
        ∃ lines, WellFormed map (INT_MAX - 1) .initial (split ';' map.mappings.toList) lines ∧
          lines.flatten.length ≤ MAX_SEGMENTS) ∧
      ((decode map 0 0).isSome ↔ ∀ line column : Int, lookup map line column ≠ .failed) := by
  have hsome : ∀ requestedLine requestedColumn : Int,
      (decode map requestedLine requestedColumn).isSome = (locate map).isSome := by
    intro requestedLine requestedColumn
    rw [decode_eq, Option.isSome_map]
  constructor
  · intro requestedLine requestedColumn
    have hcount := locateLines_iff map (split ';' map.mappings.toList) .initial (Nat.zero_le _)
    simp only [Running.initial, Nat.zero_add] at hcount
    rw [hsome]
    exact hcount
  · constructor
    · intro h line column
      obtain ⟨position, hposition⟩ := Option.isSome_iff_exists.mp
        ((hsome (line - 1) (column - 1)).trans ((hsome 0 0).symm.trans h))
      unfold lookup
      rw [hposition]
      split <;> exact LookupAnswer.noConfusion
    · intro h
      have hfirst := h 1 1
      unfold lookup at hfirst
      rw [if_neg (by omega)] at hfirst
      cases hdecode : decode map (1 - 1) (1 - 1) with
      | none =>
        rw [hdecode] at hfirst
        exact absurd rfl hfirst
      | some position =>
        have hzero : decode map 0 0 = some position := hdecode
        rw [hzero]
        rfl

/-- The greatest `int` is in the language as an original line, but the line that is answered is
counted from one. -/
theorem greatest_line_rejected :
    ∃ map lines, WellFormed map INT_MAX .initial (split ';' map.mappings.toList) lines ∧
      lines.flatten.length ≤ MAX_SEGMENTS ∧ decode map 0 0 = none := by
  refine ⟨⟨["a.ts"], [], "AA+/////DA"⟩, [[[0, 0, 2147483647, 0]]], ⟨?_, ?_, ?_⟩, ?_, ?_⟩
  · have hzero : IsVlq ['A'] 0 := ⟨[0], by decide +kernel⟩
    have hgreatest : IsVlq ['+', '/', '/', '/', '/', '/', 'D'] 2147483647 :=
      ⟨[30, 31, 31, 31, 31, 31, 3], by decide +kernel⟩
    have htext : split ';' "AA+/////DA".toList =
        [['A'] ++ (['A'] ++ (['+', '/', '/', '/', '/', '/', 'D'] ++ (['A'] ++ [])))] := by
      decide +kernel
    rw [htext]
    exact .cons (.cons ⟨.cons hzero (.cons hzero (.cons hgreatest (.cons hzero .nil))),
      .inr (.inl rfl)⟩ .nil) .nil
  · decide
  · exact ⟨by decide +kernel, by decide +kernel, by decide +kernel, trivial⟩
  · decide
  · decide +kernel

end Wallow.Telemetry.PrivateSourceMaps
