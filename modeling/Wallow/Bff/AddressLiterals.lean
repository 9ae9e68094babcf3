import Wallow.Bff.ClientAddress
import Mathlib.Data.List.Induction

/-!
# Address literals

What a dotted quad and an IPv6 literal denote, by their grammar, and that the parsers of
`client-address.ts` read exactly these.
-/

namespace Wallow.Bff

open HexText SplitText

/-! ## The grammar -/

/-- A number of at most 255, in decimal and without superfluous zeros. -/
def IsOctet (text : List Char) (n : Nat) : Prop :=
  n ≤ 255 ∧ text = Nat.toDigits 10 n

def joinDots (parts : List (List Char)) : List Char := ['.'].intercalate parts

def joinColons (groups : List (List Char)) : List Char := [':'].intercalate groups

/-- A dotted quad, and the number it denotes. -/
def Ipv4Literal (text : List Char) (value : Nat) : Prop :=
  ∃ ta tb tc td a b c d, IsOctet ta a ∧ IsOctet tb b ∧ IsOctet tc c ∧ IsOctet td d ∧
    text = joinDots [ta, tb, tc, td] ∧ value = ((a * 256 + b) * 256 + c) * 256 + d

/-- One to four hexadecimal digits. -/
def IsGroup (text : List Char) : Prop :=
  text ≠ [] ∧ text.length ≤ 4 ∧ (number? text).isSome = true

def groupNumber (text : List Char) : Nat := (number? text).getD 0

/-- The two groups a number of 32 bits takes. -/
def quadGroups (value : Nat) : List Nat := [value / 65536, value % 65536]

/-- An IPv6 literal and its eight groups: all of them written, or `::` for one or more zeros, and a
dotted quad for the last two, or not. -/
inductive Ipv6Literal : List Char → List Nat → Prop
  | full (groups : List (List Char)) (hgroups : ∀ g ∈ groups, IsGroup g)
      (hlength : groups.length = 8) : Ipv6Literal (joinColons groups) (groups.map groupNumber)
  | elided (leading trailing : List (List Char)) (hleading : ∀ g ∈ leading, IsGroup g)
      (htrailing : ∀ g ∈ trailing, IsGroup g) (hlength : leading.length + trailing.length ≤ 7) :
      Ipv6Literal (joinColons leading ++ ':' :: ':' :: joinColons trailing)
        (leading.map groupNumber ++
          List.replicate (8 - leading.length - trailing.length) 0 ++ trailing.map groupNumber)
  | fullQuad (groups : List (List Char)) (quad : List Char) (value : Nat)
      (hgroups : ∀ g ∈ groups, IsGroup g) (hlength : groups.length = 6)
      (hquad : Ipv4Literal quad value) :
      Ipv6Literal (joinColons (groups ++ [quad])) (groups.map groupNumber ++ quadGroups value)
  | elidedQuad (leading trailing : List (List Char)) (quad : List Char) (value : Nat)
      (hleading : ∀ g ∈ leading, IsGroup g) (htrailing : ∀ g ∈ trailing, IsGroup g)
      (hlength : leading.length + trailing.length ≤ 5) (hquad : Ipv4Literal quad value) :
      Ipv6Literal (joinColons leading ++ ':' :: ':' :: joinColons (trailing ++ [quad]))
        (leading.map groupNumber ++
          List.replicate (6 - leading.length - trailing.length) 0 ++ trailing.map groupNumber ++
          quadGroups value)

/-- The number eight groups make. -/
def groupsNumber (groups : List Nat) : Nat :=
  groups.foldl (fun value group => value * 65536 + group) 0

/-- `::ffff:0:0/96`. -/
def IsMapped (value : Nat) : Prop := value / 2 ^ 32 = 65535

/-- The address a literal denotes; a mapped one is the IPv4 address it maps. -/
inductive Denotes : List Char → Address → Prop
  | ipv4 {text : List Char} {value : Nat} (h : Ipv4Literal text value) :
      Denotes text ⟨value, 32, formatIpv4 value⟩
  | mapped {text : List Char} {groups : List Nat} (h : Ipv6Literal text groups)
      (hmapped : IsMapped (groupsNumber groups)) :
      Denotes text ⟨groupsNumber groups % 2 ^ 32, 32, formatIpv4 (groupsNumber groups % 2 ^ 32)⟩
  | ipv6 {text : List Char} {groups : List Nat} (h : Ipv6Literal text groups)
      (hmapped : ¬IsMapped (groupsNumber groups)) :
      Denotes text ⟨groupsNumber groups, 128, formatIpv6 (groupsNumber groups)⟩

/-! ## Octets -/

theorem decimal_append (text : List Char) (c : Char) :
    decimal (text ++ [c]) = 10 * decimal text + (c.toNat - '0'.toNat) := by
  rw [decimal, List.foldl_append]
  rfl

theorem digit_iff {c : Char} : ('0' ≤ c && c ≤ '9') = true ↔ 48 ≤ c.toNat ∧ c.toNat ≤ 57 := by
  rw [Bool.and_eq_true, decide_eq_true_iff, decide_eq_true_iff]
  exact Iff.rfl

theorem digitChar_of_digit {c : Char} (h : 48 ≤ c.toNat ∧ c.toNat ≤ 57) :
    Nat.digitChar (c.toNat - '0'.toNat) = c := by
  have hall : ∀ i : Fin 10, Nat.digitChar i.val = Char.ofNat (48 + i.val) := by decide
  have hlt : c.toNat - 48 < 10 := by omega
  have hdigit := hall ⟨c.toNat - 48, hlt⟩
  have hback : 48 + (c.toNat - 48) = c.toNat := by omega
  show Nat.digitChar (c.toNat - 48) = c
  rw [hdigit, hback, Char.ofNat_toNat]

theorem decimal_pos {text : List Char} (h : text ≠ []) (hdigits : isDigits text = true)
    (hzero : text.head? ≠ some '0') : 0 < decimal text := by
  induction text using List.reverseRecOn with
  | nil => exact absurd rfl h
  | append_singleton text c ih =>
    rw [isDigits, Bool.and_eq_true, List.all_append, Bool.and_eq_true] at hdigits
    rw [decimal_append]
    by_cases hnil : text = []
    · -- a single digit that is no zero
      rw [hnil] at hzero
      have hc := digit_iff.mp (List.all_eq_true.mp hdigits.2.2 c (List.mem_singleton.mpr rfl))
      have hne : c.toNat ≠ 48 := by
        intro heq
        apply hzero
        rw [List.nil_append, List.head?_cons, ← Char.ofNat_toNat c, heq]
      have h48 : '0'.toNat = 48 := rfl
      omega
    · rw [List.head?_append_of_ne_nil _ hnil] at hzero
      have hpos := ih hnil (by rw [isDigits, hdigits.2.1]; simpa using hnil) hzero
      omega

/-- Digits without a superfluous zero are the digits of their number. -/
theorem toDigits_decimal {text : List Char} (hdigits : isDigits text = true)
    (hzero : ¬(text.length > 1 ∧ text.head? = some '0')) :
    Nat.toDigits 10 (decimal text) = text := by
  induction text using List.reverseRecOn with
  | nil => cases hdigits
  | append_singleton text c ih =>
    rw [isDigits, Bool.and_eq_true, List.all_append, Bool.and_eq_true] at hdigits
    have hc := digit_iff.mp (List.all_eq_true.mp hdigits.2.2 c (List.mem_singleton.mpr rfl))
    have h48 : '0'.toNat = 48 := rfl
    rw [decimal_append]
    by_cases hnil : text = []
    · rw [hnil]
      have hsmall : 10 * decimal [] + (c.toNat - '0'.toNat) < 10 := by
        show 10 * 0 + (c.toNat - '0'.toNat) < 10
        omega
      rw [Nat.toDigits_of_lt_base hsmall]
      show [Nat.digitChar (10 * 0 + (c.toNat - '0'.toNat))] = [c]
      rw [Nat.mul_zero, Nat.zero_add, digitChar_of_digit hc]
    · have hfirst : text.head? ≠ some '0' := by
        intro hhead
        apply hzero
        rw [List.length_append, List.head?_append_of_ne_nil _ hnil]
        exact ⟨Nat.lt_add_of_pos_left (List.length_pos_of_ne_nil hnil), hhead⟩
      have hinit : isDigits text = true := by
        rw [isDigits, hdigits.2.1]
        simpa using hnil
      have hpos := decimal_pos hnil hinit hfirst
      rw [Nat.toDigits_of_base_le (by decide) (by omega)]
      have hdiv : (10 * decimal text + (c.toNat - '0'.toNat)) / 10 = decimal text := by omega
      have hmod : (10 * decimal text + (c.toNat - '0'.toNat)) % 10 = c.toNat - '0'.toNat := by
        omega
      rw [hdiv, hmod, digitChar_of_digit hc, ih hinit fun h => hfirst h.2]

theorem toDigits_large {n : Nat} (h : 10 ≤ n) :
    Nat.toDigits 10 n = Nat.toDigits 10 (n / 10) ++ [Nat.digitChar (n % 10)] :=
  Nat.toDigits_of_base_le (by decide) h

/-- What the digits of a number are. -/
theorem isDigits_toDigits (n : Nat) : isDigits (Nat.toDigits 10 n) = true ∧
    decimal (Nat.toDigits 10 n) = n := by
  have hsingle : ∀ i : Fin 10, isDigits [Nat.digitChar i.val] = true ∧
      (Nat.digitChar i.val).toNat - '0'.toNat = i.val := by decide
  induction n using Nat.strongRecOn with
  | ind n ih =>
    rcases Nat.lt_or_ge n 10 with hsmall | hlarge
    · have ⟨hdigit, hvalue⟩ := hsingle ⟨n, hsmall⟩
      rw [Nat.toDigits_of_lt_base hsmall]
      refine ⟨hdigit, ?_⟩
      show 10 * 0 + ((Nat.digitChar n).toNat - '0'.toNat) = n
      rw [hvalue, Nat.mul_zero, Nat.zero_add]
    · have ⟨hdigit, hvalue⟩ := hsingle ⟨n % 10, Nat.mod_lt n (by decide)⟩
      have ⟨hfront, hnumber⟩ := ih (n / 10) (Nat.div_lt_self (by omega) (by decide))
      rw [toDigits_large hlarge]
      constructor
      · rw [isDigits, Bool.and_eq_true, decide_eq_true_iff] at hfront hdigit ⊢
        rw [List.all_append, hfront.2, hdigit.2]
        exact ⟨List.append_ne_nil_of_left_ne_nil hfront.1 _, rfl⟩
      · rw [decimal_append, hnumber, hvalue]
        exact Nat.div_add_mod n 10

theorem head_toDigits {n : Nat} (h : 0 < n) : (Nat.toDigits 10 n).head? ≠ some '0' := by
  have hsingle : ∀ i : Fin 10, 0 < i.val → Nat.digitChar i.val ≠ '0' := by decide
  induction n using Nat.strongRecOn with
  | ind n ih =>
    rcases Nat.lt_or_ge n 10 with hsmall | hlarge
    · rw [Nat.toDigits_of_lt_base hsmall, List.head?_cons]
      exact fun heq => hsingle ⟨n, hsmall⟩ h (Option.some.inj heq)
    · rw [toDigits_large hlarge, List.head?_append_of_ne_nil _ Nat.toDigits_ne_nil]
      exact ih (n / 10) (Nat.div_lt_self h (by decide)) (Nat.div_pos hlarge (by decide))

/-- No zero stands before the digits of a number. -/
theorem toDigits_not_padded (n : Nat) :
    ¬((Nat.toDigits 10 n).length > 1 ∧ (Nat.toDigits 10 n).head? = some '0') := by
  intro ⟨hlength, hhead⟩
  cases Nat.eq_zero_or_pos n with
  | inl hzero =>
    rw [hzero] at hlength
    exact absurd hlength (by decide)
  | inr hpos => exact head_toDigits hpos hhead

theorem isOctet_iff {text : List Char} {n : Nat} : IsOctet text n ↔
    isDigits text = true ∧ ¬(text.length > 1 ∧ text.head? = some '0') ∧
      ¬decimal text > OCTET_MAX ∧ n = decimal text := by
  constructor
  · rintro ⟨hle, rfl⟩
    have ⟨hdigits, hdecimal⟩ := isDigits_toDigits n
    refine ⟨hdigits, toDigits_not_padded n, ?_, hdecimal.symm⟩
    show ¬decimal (Nat.toDigits 10 n) > 255
    rw [hdecimal]
    exact Nat.not_lt.mpr hle
  · rintro ⟨hdigits, hzero, hmax, rfl⟩
    exact ⟨Nat.not_lt.mp hmax, (toDigits_decimal hdigits hzero).symm⟩

/-! ## Dotted quads -/

theorem shiftLeft_or (value : Nat) {octet k : Nat} (h : octet < 2 ^ k) :
    value <<< k ||| octet = value * 2 ^ k + octet := by
  rw [← Nat.shiftLeft_add_eq_or_of_lt h, Nat.shiftLeft_eq]

theorem IsOctet.chars {text : List Char} {n : Nat} (h : IsOctet text n) :
    text ≠ [] ∧ ∀ c ∈ text, 48 ≤ c.toNat ∧ c.toNat ≤ 57 := by
  obtain ⟨hdigits, -⟩ := isOctet_iff.mp h
  rw [isDigits, Bool.and_eq_true, decide_eq_true_iff, List.all_eq_true] at hdigits
  exact ⟨hdigits.1, fun c hc => digit_iff.mp (hdigits.2 c hc)⟩

/-- One octet of the loop. -/
theorem octetStep_eq_some_iff {value next : Nat} {part : List Char} :
    (if !isDigits part || (part.length > 1 && part.head? = some '0') then none
      else
        let octet := decimal part
        if octet > OCTET_MAX then none else some (value <<< 8 ||| octet)) = some next ↔
      ∃ n, IsOctet part n ∧ next = value * 256 + n := by
  have hshift : ∀ n, n ≤ 255 → value <<< 8 ||| n = value * 256 + n := fun n hn =>
    shiftLeft_or value (Nat.lt_succ_of_le hn)
  constructor
  · intro h
    rw [Option.ite_none_left_eq_some, Bool.or_eq_true, not_or, Bool.not_eq_true',
      Bool.not_eq_false, Bool.and_eq_true, decide_eq_true_iff, decide_eq_true_iff] at h
    obtain ⟨⟨hdigits, hzero⟩, h⟩ := h
    dsimp only at h
    rw [Option.ite_none_left_eq_some, Option.some.injEq] at h
    refine ⟨decimal part, isOctet_iff.mpr ⟨hdigits, hzero, h.1, rfl⟩, ?_⟩
    rw [← h.2, hshift _ (Nat.not_lt.mp h.1)]
  · rintro ⟨n, hoctet, rfl⟩
    obtain ⟨hdigits, hzero, hmax, rfl⟩ := isOctet_iff.mp hoctet
    rw [Option.ite_none_left_eq_some, Bool.or_eq_true, not_or, Bool.not_eq_true',
      Bool.not_eq_false, Bool.and_eq_true, decide_eq_true_iff, decide_eq_true_iff]
    refine ⟨⟨hdigits, hzero⟩, ?_⟩
    dsimp only
    rw [if_neg hmax, hshift _ hoctet.1]

theorem split_eq_splitOn (sep : Char) (text : List Char) : split sep text = text.splitOn sep := by
  induction text with
  | nil => rfl
  | cons c rest ih =>
    rw [split, List.splitOn_cons_eq_if_modifyHead, ih]
    by_cases h : c = sep
    · rw [if_pos h, if_pos (beq_iff_eq.mpr h)]
    · rw [if_neg h, if_neg (fun heq => h (beq_iff_eq.mp heq))]
      obtain ⟨first, others, hpieces⟩ :=
        List.exists_cons_of_ne_nil (List.splitOn_ne_nil sep rest)
      rw [hpieces]
      rfl

/-- `parseIpv4` reads the dotted quads. -/
theorem parseIpv4_eq_some_iff {text : List Char} {value : Nat} :
    parseIpv4 text = some value ↔ Ipv4Literal text value := by
  constructor
  · intro h
    unfold parseIpv4 at h
    dsimp only at h
    rw [Option.ite_none_left_eq_some, ne_eq, not_not] at h
    obtain ⟨hlength, hfold⟩ := h
    obtain ⟨ta, tb, tc, td, hparts⟩ : ∃ ta tb tc td, split '.' text = [ta, tb, tc, td] :=
      List.length_eq_four.mp hlength
    rw [hparts] at hfold
    simp only [List.foldlM_cons, List.foldlM_nil, Option.bind_eq_bind, Option.bind_eq_some_iff,
      Option.pure_def, octetStep_eq_some_iff] at hfold
    obtain ⟨va, ⟨a, ha, hva⟩, vb, ⟨b, hb, hvb⟩, vc, ⟨c, hc, hvc⟩, vd, ⟨d, hd, hvd⟩, hvalue⟩ :=
      hfold
    refine ⟨ta, tb, tc, td, a, b, c, d, ha, hb, hc, hd, ?_, ?_⟩
    · rw [joinDots, ← hparts, split_eq_splitOn, List.intercalate_splitOn]
    · cases hvalue
      rw [hvd, hvc, hvb, hva, Nat.zero_mul, Nat.zero_add]
  · rintro ⟨ta, tb, tc, td, a, b, c, d, ha, hb, hc, hd, rfl, rfl⟩
    have hdot : ∀ part ∈ [ta, tb, tc, td], '.' ∉ part := by
      have hoctet : ∀ {part : List Char} {n : Nat}, IsOctet part n → '.' ∉ part := by
        intro part n hpart hmem
        exact absurd (hpart.chars.2 '.' hmem) (by decide)
      simp only [List.forall_mem_cons]
      exact ⟨hoctet ha, hoctet hb, hoctet hc, hoctet hd, fun _ hmem => absurd hmem
        List.not_mem_nil⟩
    have hsplit : split '.' (joinDots [ta, tb, tc, td]) = [ta, tb, tc, td] := by
      rw [split_eq_splitOn]
      exact List.splitOn_intercalate '.' hdot (List.cons_ne_nil _ _)
    unfold parseIpv4
    dsimp only
    rw [hsplit, if_neg (fun hlength => hlength rfl)]
    simp only [List.foldlM_cons, List.foldlM_nil, Option.bind_eq_bind, Option.bind_eq_some_iff,
      Option.pure_def, octetStep_eq_some_iff]
    refine ⟨a, ⟨a, ha, by omega⟩, _, ⟨b, hb, rfl⟩, _, ⟨c, hc, rfl⟩, _, ⟨d, hd, rfl⟩, rfl⟩

theorem Ipv4Literal.lt {text : List Char} {value : Nat} (h : Ipv4Literal text value) :
    value < 2 ^ 32 := by
  obtain ⟨ta, tb, tc, td, a, b, c, d, ⟨ha, -⟩, ⟨hb, -⟩, ⟨hc, -⟩, ⟨hd, -⟩, -, rfl⟩ := h
  omega

/-- The text of a dotted quad is the one its number is written as. -/
theorem ipv4Literal_formatIpv4 {value : Nat} (h : value < 2 ^ 32) :
    Ipv4Literal (formatIpv4 value).toList value := by
  refine ⟨_, _, _, _, value / 2 ^ 24 % 256, value / 2 ^ 16 % 256, value / 2 ^ 8 % 256,
    value % 256, ⟨?_, rfl⟩, ⟨?_, rfl⟩, ⟨?_, rfl⟩, ⟨?_, rfl⟩, ?_, ?_⟩
  · omega
  · omega
  · omega
  · omega
  · rw [formatIpv4, String.toList_ofList]
    simp only [IPV4_OCTETS, List.range, List.range.loop, List.map_cons, List.map_nil,
      Nat.shiftRight_eq_div_pow]
    rw [joinDots]
    simp
  · omega

/-! ## Groups -/

/-- The value of `n` hexadecimal digits fits in `4 * n` bits. -/
theorem numberFrom?_lt {text : List Char} {acc value : Nat}
    (h : numberFrom? acc text = some value) : value < (acc + 1) * 16 ^ text.length := by
  induction text generalizing acc with
  | nil =>
    cases h
    show value < (value + 1) * 1
    omega
  | cons c rest ih =>
    obtain ⟨v, hv, hrest⟩ := Option.bind_eq_some_iff.mp h
    have hdigit : v < 16 := by
      unfold value? at hv
      split at hv
      · rename_i hrange
        cases hv
        have hle : c.toNat ≤ 57 := hrange.2
        show c.toNat - 48 < 16
        omega
      · split at hv
        · rename_i hrange
          cases hv
          have hle : c.toNat ≤ 102 := hrange.2
          show c.toNat - 97 + 10 < 16
          omega
        · rw [Option.ite_none_right_eq_some] at hv
          obtain ⟨hrange, hv⟩ := hv
          cases hv
          have hle : c.toNat ≤ 70 := hrange.2
          show c.toNat - 65 + 10 < 16
          omega
    have hlt := ih hrest
    have hle : (16 * acc + v + 1) * 16 ^ rest.length ≤ (16 * (acc + 1)) * 16 ^ rest.length :=
      Nat.mul_le_mul_right _ (by omega)
    rw [List.length_cons, Nat.pow_succ, Nat.mul_comm (16 ^ rest.length) 16, ← Nat.mul_assoc,
      Nat.mul_comm (acc + 1) 16]
    exact hlt.trans_le hle

theorem IsGroup.number?_eq {g : List Char} (h : IsGroup g) :
    number? g = some (groupNumber g) ∧ groupNumber g < 65536 := by
  obtain ⟨value, hvalue⟩ := Option.isSome_iff_exists.mp h.2.2
  have hnumber : groupNumber g = value := by rw [groupNumber, hvalue, Option.getD_some]
  refine ⟨by rw [hvalue, hnumber], ?_⟩
  have hlt := numberFrom?_lt hvalue
  have hpow : 16 ^ g.length ≤ 16 ^ 4 := Nat.pow_le_pow_right (by decide) h.2.1
  omega

/-- One group of the loop. -/
theorem groupStep_eq_some_iff {value next : Nat} {group : List Char} :
    (if group = [] ∨ group.length > IPV6_GROUP_DIGITS then none
      else (number? group).bind fun parsed =>
        if parsed > GROUP_MAX then none else some (value <<< 16 ||| parsed)) = some next ↔
      IsGroup group ∧ next = value * 65536 + groupNumber group := by
  constructor
  · intro h
    rw [Option.ite_none_left_eq_some, not_or, Option.bind_eq_some_iff] at h
    obtain ⟨⟨hne, hlength⟩, parsed, hparsed, h⟩ := h
    rw [Option.ite_none_left_eq_some, Option.some.injEq] at h
    have hgroup : IsGroup group := ⟨hne, Nat.not_lt.mp hlength, by rw [hparsed]; rfl⟩
    refine ⟨hgroup, ?_⟩
    rw [hgroup.number?_eq.1, Option.some.injEq] at hparsed
    rw [← h.2, ← hparsed]
    exact shiftLeft_or value hgroup.number?_eq.2
  · rintro ⟨hgroup, rfl⟩
    obtain ⟨hnumber, hlt⟩ := hgroup.number?_eq
    rw [Option.ite_none_left_eq_some, not_or, hnumber, Option.bind_some]
    refine ⟨⟨hgroup.1, Nat.not_lt.mpr hgroup.2.1⟩, ?_⟩
    have hmax : ¬groupNumber group > GROUP_MAX := Nat.not_lt.mpr (Nat.le_of_lt_succ hlt)
    rw [if_neg hmax]
    exact congrArg some (shiftLeft_or value hlt)

theorem groupsValueFrom_eq_some_iff {groups : List (List Char)} {start value : Nat} :
    (groups.foldlM (fun value group =>
      if group = [] ∨ group.length > IPV6_GROUP_DIGITS then none
      else (number? group).bind fun parsed =>
        if parsed > GROUP_MAX then none else some (value <<< 16 ||| parsed)) start) =
        some value ↔
      (∀ g ∈ groups, IsGroup g) ∧
        value =
          (groups.map groupNumber).foldl (fun value group => value * 65536 + group) start := by
  induction groups generalizing start with
  | nil =>
    simp only [List.foldlM_nil, Option.pure_def, Option.some.injEq, List.map_nil, List.foldl_nil]
    exact ⟨fun h => ⟨fun _ hmem => absurd hmem List.not_mem_nil, h.symm⟩, fun h => h.2.symm⟩
  | cons g rest ih =>
    rw [List.foldlM_cons, Option.bind_eq_bind, Option.bind_eq_some_iff]
    simp only [groupStep_eq_some_iff, ih]
    rw [List.forall_mem_cons, List.map_cons, List.foldl_cons]
    constructor
    · rintro ⟨next, ⟨hgroup, rfl⟩, hrest, hvalue⟩
      exact ⟨⟨hgroup, hrest⟩, hvalue⟩
    · rintro ⟨⟨hgroup, hrest⟩, hvalue⟩
      exact ⟨_, ⟨hgroup, rfl⟩, hrest, hvalue⟩

theorem groupsValue_eq_some_iff {groups : List (List Char)} {value : Nat} :
    groupsValue groups = some value ↔
      (∀ g ∈ groups, IsGroup g) ∧ value = groupsNumber (groups.map groupNumber) :=
  groupsValueFrom_eq_some_iff

/-- A group has hexadecimal digits only. -/
theorem IsGroup.hex {g : List Char} (h : IsGroup g) : ∀ c ∈ g, (value? c).isSome = true := by
  have hall : ∀ (text : List Char) (acc : Nat), (numberFrom? acc text).isSome = true →
      ∀ c ∈ text, (value? c).isSome = true := by
    intro text
    induction text with
    | nil => exact fun _ _ c hc => absurd hc List.not_mem_nil
    | cons first rest ih =>
      intro acc hnumber c hc
      rw [numberFrom?] at hnumber
      cases hvalue : value? first with
      | none =>
        rw [hvalue] at hnumber
        cases hnumber
      | some v =>
        rw [hvalue, Option.bind_some] at hnumber
        cases List.mem_cons.mp hc with
        | inl heq =>
          rw [heq, hvalue]
          rfl
        | inr hrest => exact ih _ hnumber c hrest
  exact hall g 0 h.2.2

theorem IsGroup.not_mem {g : List Char} (h : IsGroup g) {c : Char} (hc : value? c = none) :
    c ∉ g := by
  intro hmem
  have hsome := h.hex c hmem
  rw [hc] at hsome
  cases hsome

theorem isGroup_zero : IsGroup ['0'] := ⟨List.cons_ne_nil _ _, by decide, by decide⟩

theorem groupsNumber_concat (groups : List Nat) (last : Nat) :
    groupsNumber (groups ++ [last]) = groupsNumber groups * 65536 + last := by
  rw [groupsNumber, List.foldl_append]
  rfl

/-- The last groups of a number that ends in a dotted quad. -/
theorem groupsNumber_append_quad (groups : List Nat) {value : Nat} (h : value < 2 ^ 32) :
    groupsNumber (groups ++ quadGroups value) =
      ((groupsNumber (groups ++ [0, 0]) >>> 32) <<< 32 ||| value) := by
  have htwo : ∀ high low, groupsNumber (groups ++ [high, low]) =
      groupsNumber groups * 2 ^ 32 + (high * 65536 + low) := by
    intro high low
    have hpow : 65536 * 65536 = 2 ^ 32 := by decide
    rw [List.append_cons groups high [low], groupsNumber_concat, groupsNumber_concat,
      Nat.add_mul, Nat.mul_assoc, Nat.add_assoc, hpow]
  have hquad : value / 65536 * 65536 + value % 65536 = value := Nat.div_add_mod' value 65536
  rw [quadGroups, htwo, htwo, hquad, shiftLeft_or _ h, Nat.shiftRight_eq_div_pow]
  rw [Nat.zero_mul, Nat.add_zero, Nat.mul_div_cancel _ (Nat.two_pow_pos 32)]

/-! ## Where the colons are -/

theorem joinColons_concat {groups : List (List Char)} (h : groups ≠ []) (last : List Char) :
    joinColons (groups ++ [last]) = joinColons groups ++ ':' :: last := by
  induction groups with
  | nil => exact absurd rfl h
  | cons first rest ih =>
    by_cases hrest : rest = []
    · rw [hrest, joinColons, joinColons, List.intercalate_singleton]
      simp [List.intercalate]
    · have hlater : rest ++ [last] ≠ [] := List.append_ne_nil_of_left_ne_nil hrest _
      rw [joinColons, List.cons_append, List.intercalate_cons_of_ne_nil hlater, joinColons,
        List.intercalate_cons_of_ne_nil hrest]
      show first ++ [':'] ++ joinColons (rest ++ [last]) = _
      rw [ih hrest, ← List.append_assoc]
      rfl

/-- Puts text in front of the first piece. -/
def prependHead (text : List Char) : List (List Char) → List (List Char)
  | [] => [text]
  | piece :: pieces => (text ++ piece) :: pieces

theorem splitElision_ne_nil (text : List Char) : splitElision text ≠ [] := by
  unfold splitElision
  split
  · exact List.cons_ne_nil _ _
  · exact List.cons_ne_nil _ _
  · unfold consHead
    split <;> exact List.cons_ne_nil _ _

theorem splitElision_cons {c : Char} {text : List Char}
    (h : c ≠ ':' ∨ text.head? ≠ some ':') :
    splitElision (c :: text) = consHead c (splitElision text) := by
  rw [splitElision.eq_def]
  split
  · rename_i heq
    cases heq
  · rename_i rest heq
    cases heq
    cases h with
    | inl hc => exact absurd rfl hc
    | inr htext => exact absurd rfl htext
  · rename_i heq
    cases heq
    rfl

theorem splitElision_elision (text : List Char) :
    splitElision (':' :: ':' :: text) = [] :: splitElision text := rfl

theorem prependHead_cons (c : Char) (text : List Char) (pieces : List (List Char)) :
    consHead c (prependHead text pieces) = prependHead (c :: text) pieces := by
  cases pieces <;> rfl

/-- A piece without a colon goes in front. -/
theorem splitElision_append {text : List Char} (h : ':' ∉ text) (rest : List Char) :
    splitElision (text ++ rest) = prependHead text (splitElision rest) := by
  induction text with
  | nil =>
    obtain ⟨first, others, hpieces⟩ := List.exists_cons_of_ne_nil (splitElision_ne_nil rest)
    rw [List.nil_append, hpieces]
    rfl
  | cons c text ih =>
    rw [List.mem_cons, not_or] at h
    rw [List.cons_append, splitElision_cons (.inl (Ne.symm h.1)), ih h.2, prependHead_cons]

theorem prependHead_append (xs ys : List Char) (pieces : List (List Char)) :
    prependHead xs (prependHead ys pieces) = prependHead (xs ++ ys) pieces := by
  cases pieces with
  | nil => rfl
  | cons piece others => rw [prependHead, prependHead, prependHead, List.append_assoc]

/-- Groups have no `::` among them, and none begins where they end. -/
theorem splitElision_joinColons {groups : List (List Char)} (hne : groups ≠ [])
    (hgroups : ∀ g ∈ groups, g ≠ [] ∧ ':' ∉ g) (rest : List Char) :
    splitElision (joinColons groups ++ rest) =
      prependHead (joinColons groups) (splitElision rest) := by
  induction groups with
  | nil => exact absurd rfl hne
  | cons first others ih =>
    obtain ⟨hfirst, hothers⟩ := List.forall_mem_cons.mp hgroups
    by_cases hnil : others = []
    · rw [hnil, joinColons, List.intercalate_singleton]
      exact splitElision_append hfirst.2 rest
    · have hjoin : joinColons (first :: others) = first ++ ':' :: joinColons others := by
        rw [joinColons, List.intercalate_cons_of_ne_nil hnil, List.append_assoc]
        rfl
      -- what follows the colon is no colon
      have hhead : (joinColons others ++ rest).head? ≠ some ':' := by
        obtain ⟨second, later, rfl⟩ := List.exists_cons_of_ne_nil hnil
        obtain ⟨hsecond, -⟩ := List.forall_mem_cons.mp hothers
        obtain ⟨c, cs, rfl⟩ := List.exists_cons_of_ne_nil hsecond.1
        have hc : c ≠ ':' := fun heq => hsecond.2 (heq ▸ List.mem_cons_self)
        intro hcolon
        apply hc
        cases later with
        | nil =>
          rw [joinColons, List.intercalate_singleton] at hcolon
          exact Option.some.inj hcolon
        | cons third later =>
          rw [joinColons, List.intercalate_cons_of_ne_nil (List.cons_ne_nil _ _)] at hcolon
          exact Option.some.inj hcolon
      rw [hjoin, List.append_assoc, splitElision_append hfirst.2, List.cons_append,
        splitElision_cons (.inr hhead), ih hnil hothers, prependHead_cons, prependHead_append]

theorem intercalate_splitElision (text : List Char) :
    [':', ':'].intercalate (splitElision text) = text := by
  have hcons : ∀ (c : Char) (pieces : List (List Char)), pieces ≠ [] →
      [':', ':'].intercalate (consHead c pieces) = c :: [':', ':'].intercalate pieces := by
    intro c pieces hpieces
    obtain ⟨first, others, rfl⟩ := List.exists_cons_of_ne_nil hpieces
    cases others with
    | nil => rfl
    | cons second later =>
      rw [consHead, List.intercalate_cons_of_ne_nil (List.cons_ne_nil _ _),
        List.intercalate_cons_of_ne_nil (List.cons_ne_nil _ _)]
      rfl
  induction text using splitElision.induct with
  | case1 => rfl
  | case2 rest ih =>
    rw [splitElision, List.intercalate_cons_of_ne_nil (splitElision_ne_nil rest), ih]
    rfl
  | case3 c rest hne ih =>
    have hsplit : splitElision (c :: rest) = consHead c (splitElision rest) := by
      refine splitElision_cons ?_
      by_contra hboth
      rw [not_or, not_not, not_not] at hboth
      obtain ⟨hc, hrest⟩ := hboth
      cases rest with
      | nil => cases hrest
      | cons d later =>
        cases hrest
        exact hne later hc rfl
    rw [hsplit, hcons c _ (splitElision_ne_nil rest), ih]

/-! ## IPv6 literals -/

theorem joinColons_splitGroups (half : List Char) : joinColons (splitGroups half) = half := by
  unfold splitGroups
  split
  · rename_i hnil
    rw [hnil]
    rfl
  · rw [joinColons, split_eq_splitOn, List.intercalate_splitOn]

theorem splitGroups_joinColons {groups : List (List Char)}
    (hgroups : ∀ g ∈ groups, g ≠ [] ∧ ':' ∉ g) : splitGroups (joinColons groups) = groups := by
  cases groups with
  | nil => rfl
  | cons first rest =>
    have hne : joinColons (first :: rest) ≠ [] := by
      obtain ⟨⟨hfirst, -⟩, -⟩ := List.forall_mem_cons.mp hgroups
      intro hnil
      cases rest with
      | nil =>
        rw [joinColons, List.intercalate_singleton] at hnil
        exact hfirst hnil
      | cons second later =>
        rw [joinColons, List.intercalate_cons_of_ne_nil (List.cons_ne_nil _ _)] at hnil
        exact hfirst (List.append_eq_nil_iff.mp (List.append_eq_nil_iff.mp hnil).1).1
    rw [splitGroups, if_neg hne, split_eq_splitOn]
    exact List.splitOn_intercalate ':' (fun g hg => (hgroups g hg).2) (List.cons_ne_nil _ _)

theorem IsGroup.piece {g : List Char} (h : IsGroup g) : g ≠ [] ∧ ':' ∉ g :=
  ⟨h.1, h.not_mem (by decide)⟩

/-- What `expandGroups` makes of the written groups. -/
theorem expandGroups_full {groups : List (List Char)} (hgroups : ∀ g ∈ groups, g ≠ [] ∧ ':' ∉ g)
    (hlength : groups.length = 8) : expandGroups (joinColons groups) = some groups := by
  have hne : groups ≠ [] := List.ne_nil_of_length_pos (by omega)
  have hhalves : splitElision (joinColons groups) = [joinColons groups] := by
    have h := splitElision_joinColons hne hgroups []
    rw [List.append_nil] at h
    rw [h, splitElision, prependHead, List.append_nil]
  have hone : ¬[joinColons groups].length > MAX_ELISION_HALVES := 
    Nat.not_lt.mpr Nat.one_lt_two.le
  have hfew : [joinColons groups].length < MAX_ELISION_HALVES := Nat.one_lt_two
  unfold expandGroups
  dsimp only
  rw [hhalves, splitGroups_joinColons hgroups, if_neg hone, if_pos hfew]
  exact if_pos hlength

theorem expandGroups_elided {leading trailing : List (List Char)}
    (hleading : ∀ g ∈ leading, g ≠ [] ∧ ':' ∉ g) (htrailing : ∀ g ∈ trailing, g ≠ [] ∧ ':' ∉ g)
    (hlength : leading.length + trailing.length ≤ 7) :
    expandGroups (joinColons leading ++ ':' :: ':' :: joinColons trailing) =
      some (leading ++ List.replicate (8 - leading.length - trailing.length) ['0'] ++
        trailing) := by
  have hright : splitElision (joinColons trailing) = [joinColons trailing] := by
    by_cases hnil : trailing = []
    · rw [hnil]
      rfl
    · have h := splitElision_joinColons hnil htrailing []
      rw [List.append_nil] at h
      rw [h, splitElision, prependHead, List.append_nil]
  have hhalves : splitElision (joinColons leading ++ ':' :: ':' :: joinColons trailing) =
      [joinColons leading, joinColons trailing] := by
    by_cases hnil : leading = []
    · rw [hnil]
      show splitElision (':' :: ':' :: joinColons trailing) = _
      rw [splitElision_elision, hright]
      rfl
    · rw [splitElision_joinColons hnil hleading, splitElision_elision, hright, prependHead,
        List.append_nil]
  unfold expandGroups
  dsimp only
  rw [hhalves]
  simp only [List.length_cons, List.length_nil, List.getD_cons_zero, List.getD_cons_succ,
    splitGroups_joinColons hleading, splitGroups_joinColons htrailing]
  rw [if_neg (by decide), if_neg (by decide), if_neg]
  · rfl
  · show ¬8 - leading.length - trailing.length < 1
    omega

/-- The groups come from eight written ones, or from two halves around `::`. -/
theorem expandGroups_eq_some {text : List Char} {groups : List (List Char)}
    (h : expandGroups text = some groups) :
    (text = joinColons groups ∧ groups.length = 8) ∨
    ∃ l r, splitElision text = [l, r] ∧ (splitGroups l).length + (splitGroups r).length ≤ 7 ∧
      groups = splitGroups l ++ List.replicate
        (8 - (splitGroups l).length - (splitGroups r).length) ['0'] ++ splitGroups r := by
  unfold expandGroups at h
  dsimp only at h
  rw [Option.ite_none_left_eq_some] at h
  obtain ⟨hmany, h⟩ := h
  by_cases hone : (splitElision text).length < MAX_ELISION_HALVES
  · rw [if_pos hone, Option.ite_none_right_eq_some, Option.some.injEq] at h
    refine .inl ⟨?_, h.2 ▸ h.1⟩
    rw [← h.2, joinColons_splitGroups]
  · rw [if_neg hone, Option.ite_none_left_eq_some, Option.some.injEq] at h
    have htwo : (splitElision text).length = 2 := by
      have hle : ¬(splitElision text).length > 2 := hmany
      have hge : ¬(splitElision text).length < 2 := hone
      omega
    obtain ⟨l, r, hhalves⟩ := List.length_eq_two.mp htwo
    rw [hhalves] at h
    refine .inr ⟨l, r, hhalves, ?_, h.2.symm⟩
    have hmissing : ¬8 - (splitGroups l).length - (splitGroups r).length < 1 := h.1
    omega

theorem splitElision_eq_pair {text l r : List Char} (h : splitElision text = [l, r]) :
    text = l ++ ':' :: ':' :: r := by
  rw [← intercalate_splitElision text, h, List.intercalate_cons_of_ne_nil (List.cons_ne_nil _ _),
    List.intercalate_singleton, List.append_assoc]
  rfl

theorem map_groupNumber_replicate (k : Nat) :
    (List.replicate k ['0']).map groupNumber = List.replicate k 0 := by
  rw [List.map_replicate]
  rfl

theorem forall_isGroup_append_zeros {leading trailing : List (List Char)} {k : Nat} :
    (∀ g ∈ leading ++ List.replicate k ['0'] ++ trailing, IsGroup g) ↔
      (∀ g ∈ leading, IsGroup g) ∧ ∀ g ∈ trailing, IsGroup g := by
  constructor
  · intro h
    exact ⟨fun g hg => h g (List.mem_append_left _ (List.mem_append_left _ hg)),
      fun g hg => h g (List.mem_append_right _ hg)⟩
  · rintro ⟨hleading, htrailing⟩ g hg
    rw [List.mem_append, List.mem_append] at hg
    rcases hg with (hl | hzero) | hr
    · exact hleading g hl
    · exact (List.eq_of_mem_replicate hzero) ▸ isGroup_zero
    · exact htrailing g hr

/-- Without a dotted tail: the literals that are written in groups. -/
theorem expandGroups_value_iff {text : List Char} {value : Nat} :
    (expandGroups text).bind groupsValue = some value ↔
      (∃ groups : List (List Char), (∀ g ∈ groups, IsGroup g) ∧ groups.length = 8 ∧
        text = joinColons groups ∧ value = groupsNumber (groups.map groupNumber)) ∨
      ∃ leading trailing : List (List Char), (∀ g ∈ leading, IsGroup g) ∧
        (∀ g ∈ trailing, IsGroup g) ∧ leading.length + trailing.length ≤ 7 ∧
        text = joinColons leading ++ ':' :: ':' :: joinColons trailing ∧
        value = groupsNumber (leading.map groupNumber ++
          List.replicate (8 - leading.length - trailing.length) 0 ++
          trailing.map groupNumber) := by
  rw [Option.bind_eq_some_iff]
  constructor
  · rintro ⟨groups, hexpand, hvalue⟩
    obtain ⟨hgroups, rfl⟩ := groupsValue_eq_some_iff.mp hvalue
    rcases expandGroups_eq_some hexpand with ⟨htext, hlength⟩ | ⟨l, r, hhalves, hlength, rfl⟩
    · exact .inl ⟨groups, hgroups, hlength, htext, rfl⟩
    · obtain ⟨hleading, htrailing⟩ := forall_isGroup_append_zeros.mp hgroups
      refine .inr ⟨splitGroups l, splitGroups r, hleading, htrailing, hlength, ?_, ?_⟩
      · rw [joinColons_splitGroups, joinColons_splitGroups]
        exact splitElision_eq_pair hhalves
      · rw [List.map_append, List.map_append, map_groupNumber_replicate]
  · rintro (⟨groups, hgroups, hlength, rfl, rfl⟩ |
      ⟨leading, trailing, hleading, htrailing, hlength, rfl, rfl⟩)
    · exact ⟨groups, expandGroups_full (fun g hg => (hgroups g hg).piece) hlength,
        groupsValue_eq_some_iff.mpr ⟨hgroups, rfl⟩⟩
    · refine ⟨_, expandGroups_elided (fun g hg => (hleading g hg).piece)
        (fun g hg => (htrailing g hg).piece) hlength, groupsValue_eq_some_iff.mpr
        ⟨forall_isGroup_append_zeros.mpr ⟨hleading, htrailing⟩, ?_⟩⟩
      rw [List.map_append, List.map_append, map_groupNumber_replicate]

/-! ## The dotted tail -/

theorem mem_joinColons {groups : List (List Char)} {c : Char} (h : c ∈ joinColons groups) :
    c = ':' ∨ ∃ g ∈ groups, c ∈ g := by
  induction groups with
  | nil => exact absurd h List.not_mem_nil
  | cons first rest ih =>
    by_cases hnil : rest = []
    · rw [hnil, joinColons, List.intercalate_singleton] at h
      exact .inr ⟨first, List.mem_cons_self, h⟩
    · rw [joinColons, List.intercalate_cons_of_ne_nil hnil, List.mem_append, List.mem_append,
        List.mem_singleton] at h
      rcases h with (hfirst | hcolon) | hrest
      · exact .inr ⟨first, List.mem_cons_self, hfirst⟩
      · exact .inl hcolon
      · rcases ih hrest with hcolon | ⟨g, hg, hc⟩
        · exact .inl hcolon
        · exact .inr ⟨g, List.mem_cons_of_mem _ hg, hc⟩

/-- Text is cut at its last colon in one way. -/
theorem append_colon_inj {before before' last last' : List Char} (hlast : ':' ∉ last)
    (hlast' : ':' ∉ last') (h : before ++ ':' :: last = before' ++ ':' :: last') :
    before = before' ∧ last = last' := by
  have hsplit := splitLast_append hlast before
  rw [h, splitLast_append hlast' before'] at hsplit
  cases hsplit
  exact ⟨rfl, rfl⟩

/-- Joined groups, cut at the last colon. -/
theorem joinColons_eq_append {groups : List (List Char)} {before last : List Char}
    (hgroups : ∀ g ∈ groups, ':' ∉ g) (hlast : ':' ∉ last)
    (h : joinColons groups = before ++ ':' :: last) :
    ∃ init, init ≠ [] ∧ groups = init ++ [last] ∧ joinColons init = before := by
  obtain rfl | ⟨init, final, rfl⟩ := List.eq_nil_or_concat' groups
  · exact absurd h.symm (List.append_ne_nil_of_right_ne_nil _ (List.cons_ne_nil _ _))
  · have hfinal : ':' ∉ final :=
      hgroups final (List.mem_append_right _ (List.mem_singleton.mpr rfl))
    by_cases hinit : init = []
    · -- a single group has no colon to cut at
      rw [hinit, List.nil_append, joinColons, List.intercalate_singleton] at h
      rw [h] at hfinal
      exact absurd (List.mem_append_right _ List.mem_cons_self) hfinal
    · rw [joinColons_concat hinit] at h
      obtain ⟨hbefore, hsame⟩ := append_colon_inj hfinal hlast h
      exact ⟨init, hinit, by rw [hsame], hbefore⟩

/-- What stands before the last colon of an elided text, where `trailing` are the groups after the
`::` but the last. -/
def elidedFront (leading trailing : List (List Char)) : List Char :=
  joinColons leading ++ ':' :: if trailing = [] then [] else ':' :: joinColons trailing

theorem elidedFront_concat (leading trailing : List (List Char)) (last : List Char) :
    joinColons leading ++ ':' :: ':' :: joinColons (trailing ++ [last]) =
      elidedFront leading trailing ++ ':' :: last := by
  unfold elidedFront
  by_cases h : trailing = []
  · rw [if_pos h, h, List.nil_append, joinColons, joinColons, List.intercalate_singleton,
      List.append_assoc]
    rfl
  · rw [if_neg h, joinColons_concat h, List.append_assoc]
    rfl

theorem elidedFront_append (leading trailing : List (List Char)) (last : List Char) :
    elidedFront leading (trailing ++ [last]) = elidedFront leading trailing ++ ':' :: last := by
  have hne : trailing ++ [last] ≠ [] :=
    List.append_ne_nil_of_right_ne_nil _ (List.cons_ne_nil _ _)
  rw [← elidedFront_concat, elidedFront, if_neg hne]

/-- An elided text that ends in a group, cut at its last colon. -/
theorem elided_eq_append {leading trailing : List (List Char)} {before last : List Char}
    (htrailing : ∀ g ∈ trailing, ':' ∉ g) (hlast : ':' ∉ last) (hne : last ≠ [])
    (h : joinColons leading ++ ':' :: ':' :: joinColons trailing = before ++ ':' :: last) :
    ∃ init, trailing = init ++ [last] ∧ before = elidedFront leading init := by
  obtain rfl | ⟨init, final, rfl⟩ := List.eq_nil_or_concat' trailing
  · -- the text ends in a colon, so nothing follows the last one
    have hcolons : (joinColons leading ++ [':']) ++ ':' :: [] = before ++ ':' :: last := by
      rw [← h, List.append_assoc]
      rfl
    obtain ⟨-, hnil⟩ := append_colon_inj List.not_mem_nil hlast hcolons
    exact absurd hnil.symm hne
  · have hfinal : ':' ∉ final :=
      htrailing final (List.mem_append_right _ (List.mem_singleton.mpr rfl))
    rw [elidedFront_concat] at h
    obtain ⟨hbefore, hsame⟩ := append_colon_inj hfinal hlast h
    exact ⟨init, by rw [hsame], hbefore.symm⟩

theorem groupNumber_zero : groupNumber ['0'] = 0 := rfl

/-- The head with its two placeholders: six groups, or fewer around `::`. -/
theorem placeholder_value_iff {before : List Char} {value : Nat} :
    (expandGroups (before ++ ':' :: "0:0".toList)).bind groupsValue = some value ↔
      (∃ groups : List (List Char), (∀ g ∈ groups, IsGroup g) ∧ groups.length = 6 ∧
        before = joinColons groups ∧ value = groupsNumber (groups.map groupNumber ++ [0, 0])) ∨
      ∃ leading trailing : List (List Char), (∀ g ∈ leading, IsGroup g) ∧
        (∀ g ∈ trailing, IsGroup g) ∧ leading.length + trailing.length ≤ 5 ∧
        before = elidedFront leading trailing ∧
        value = groupsNumber (leading.map groupNumber ++
          List.replicate (6 - leading.length - trailing.length) 0 ++
          trailing.map groupNumber ++ [0, 0]) := by
  have hcolon : ':' ∉ ['0'] := by decide
  have hhead : before ++ ':' :: "0:0".toList = (before ++ ':' :: ['0']) ++ ':' :: ['0'] := by
    rw [List.append_assoc]
    rfl
  rw [hhead, expandGroups_value_iff]
  constructor
  · rintro (⟨groups, hgroups, hlength, htext, rfl⟩ |
      ⟨leading, trailing, hleading, htrailing, hlength, htext, rfl⟩)
    · have hpieces : ∀ g ∈ groups, ':' ∉ g := fun g hg => (hgroups g hg).piece.2
      obtain ⟨front, -, rfl, hfront⟩ := joinColons_eq_append hpieces hcolon htext.symm
      obtain ⟨init, -, rfl, hinit⟩ := joinColons_eq_append
        (fun g hg => hpieces g (List.mem_append_left _ hg)) hcolon hfront
      refine .inl ⟨init, fun g hg => hgroups g (List.mem_append_left _ (List.mem_append_left _ hg)),
        ?_, hinit.symm, ?_⟩
      · simp only [List.length_append, List.length_singleton] at hlength
        omega
      · rw [List.map_append, List.map_append, List.append_assoc]
        rfl
    · have hpieces : ∀ g ∈ trailing, ':' ∉ g := fun g hg => (htrailing g hg).piece.2
      obtain ⟨front, rfl, hfront⟩ := elided_eq_append hpieces hcolon (List.cons_ne_nil _ _)
        htext.symm
      -- the first placeholder is a group after the `::` too
      have hfrontNe : front ≠ [] := by
        rintro rfl
        rw [elidedFront, if_pos rfl] at hfront
        obtain ⟨-, hzero⟩ := append_colon_inj hcolon List.not_mem_nil hfront
        cases hzero
      rw [elidedFront, if_neg hfrontNe] at hfront
      obtain ⟨init, rfl, hbefore⟩ := elided_eq_append
        (fun g hg => hpieces g (List.mem_append_left _ hg)) hcolon (List.cons_ne_nil _ _)
        hfront.symm
      simp only [List.length_append, List.length_singleton] at hlength
      refine .inr ⟨leading, init, hleading,
        fun g hg => htrailing g (List.mem_append_left _ (List.mem_append_left _ hg)), by omega,
        hbefore, ?_⟩
      have hzeros : 8 - leading.length - (init ++ [['0']] ++ [['0']]).length =
          6 - leading.length - init.length := by
        simp only [List.length_append, List.length_singleton]
        omega
      rw [hzeros, List.map_append, List.map_append]
      simp only [List.map_cons, List.map_nil, groupNumber_zero, List.append_assoc,
        List.cons_append, List.nil_append]
  · rintro (⟨groups, hgroups, hlength, rfl, rfl⟩ |
      ⟨leading, trailing, hleading, htrailing, hlength, rfl, rfl⟩)
    · have hne : groups ≠ [] := List.ne_nil_of_length_pos (by omega)
      refine .inl ⟨groups ++ [['0']] ++ [['0']], ?_, ?_, ?_, ?_⟩
      · intro g hg
        simp only [List.mem_append, List.mem_singleton] at hg
        rcases hg with (hg | rfl) | rfl
        · exact hgroups g hg
        · exact isGroup_zero
        · exact isGroup_zero
      · simp only [List.length_append, List.length_singleton, hlength]
      · rw [joinColons_concat (List.append_ne_nil_of_left_ne_nil hne _), joinColons_concat hne]
      · rw [List.map_append, List.map_append, List.append_assoc]
        rfl
    · refine .inr ⟨leading, trailing ++ [['0']] ++ [['0']], hleading, ?_, ?_, ?_, ?_⟩
      · intro g hg
        simp only [List.mem_append, List.mem_singleton] at hg
        rcases hg with (hg | rfl) | rfl
        · exact htrailing g hg
        · exact isGroup_zero
        · exact isGroup_zero
      · simp only [List.length_append, List.length_singleton]
        omega
      · rw [elidedFront_concat, elidedFront_append]
      · have hzeros : 8 - leading.length - (trailing ++ [['0']] ++ [['0']]).length =
            6 - leading.length - trailing.length := by
          simp only [List.length_append, List.length_singleton]
          omega
        rw [hzeros, List.map_append, List.map_append]
        simp only [List.map_cons, List.map_nil, groupNumber_zero, List.append_assoc,
          List.cons_append, List.nil_append]

/-- A dotted quad has a dot and no colon. -/
theorem Ipv4Literal.chars {text : List Char} {value : Nat} (h : Ipv4Literal text value) :
    '.' ∈ text ∧ ∀ c ∈ text, (value? c).isSome = true ∨ c = '.' := by
  obtain ⟨ta, tb, tc, td, a, b, c, d, ha, hb, hc, hd, rfl, -⟩ := h
  have hdigit : ∀ {part : List Char} {n : Nat}, IsOctet part n →
      ∀ c ∈ part, (value? c).isSome = true := by
    intro part n hpart c hc
    have hrange := hpart.chars.2 c hc
    rw [value?, if_pos ⟨hrange.1, hrange.2⟩]
    rfl
  have htext : joinDots [ta, tb, tc, td] = ta ++ '.' :: tb ++ '.' :: tc ++ '.' :: td := by
    simp [joinDots, List.intercalate]
  rw [htext]
  refine ⟨List.mem_append_right _ List.mem_cons_self, ?_⟩
  intro x hx
  simp only [List.mem_append, List.mem_cons] at hx
  rcases hx with ((hx | rfl | hx) | rfl | hx) | rfl | hx
  · exact .inl (hdigit ha x hx)
  · exact .inr rfl
  · exact .inl (hdigit hb x hx)
  · exact .inr rfl
  · exact .inl (hdigit hc x hx)
  · exact .inr rfl
  · exact .inl (hdigit hd x hx)

theorem Ipv4Literal.not_mem {text : List Char} {value : Nat} (h : Ipv4Literal text value)
    {c : Char} (hc : value? c = none) (hdot : c ≠ '.') : c ∉ text := by
  intro hmem
  rcases h.chars.2 c hmem with hsome | heq
  · rw [hc] at hsome
    cases hsome
  · exact hdot heq

theorem Ipv4Literal.colon_not_mem {text : List Char} {value : Nat} (h : Ipv4Literal text value) :
    ':' ∉ text := h.not_mem (by decide) (by decide)

/-- Groups have no character but digits and the colons between them. -/
theorem not_mem_joinColons {groups : List (List Char)} (hgroups : ∀ g ∈ groups, IsGroup g)
    {c : Char} (hc : value? c = none) (hcolon : c ≠ ':') : c ∉ joinColons groups := by
  intro hmem
  rcases mem_joinColons hmem with heq | ⟨g, hg, hmem⟩
  · exact hcolon heq
  · exact (hgroups g hg).not_mem hc hmem

theorem not_mem_elided {leading trailing : List (List Char)} (hleading : ∀ g ∈ leading, IsGroup g)
    (htrailing : ∀ g ∈ trailing, IsGroup g) {c : Char} (hc : value? c = none) (hcolon : c ≠ ':') :
    c ∉ joinColons leading ++ ':' :: ':' :: joinColons trailing := by
  intro hmem
  simp only [List.mem_append, List.mem_cons] at hmem
  rcases hmem with hmem | heq | heq | hmem
  · exact not_mem_joinColons hleading hc hcolon hmem
  · exact hcolon heq
  · exact hcolon heq
  · exact not_mem_joinColons htrailing hc hcolon hmem

theorem parseIpv6_of_no_dot {text : List Char} (h : '.' ∉ text) :
    parseIpv6 text = (expandGroups text).bind groupsValue := by
  unfold parseIpv6
  split
  · rename_i before after hsplit
    refine if_neg fun hdot => h ?_
    rw [(splitLast_eq_some hsplit).2]
    exact List.mem_append_right _ (List.mem_cons_of_mem _ hdot)
  · rfl

theorem parseIpv6_quad {before quad : List Char} {value : Nat}
    (hquad : Ipv4Literal quad value) :
    parseIpv6 (before ++ ':' :: quad) =
      ((expandGroups (before ++ ':' :: "0:0".toList)).bind groupsValue).map
        fun head => (head >>> 32) <<< 32 ||| value := by
  unfold parseIpv6
  rw [splitLast_append hquad.colon_not_mem]
  dsimp only
  rw [if_pos hquad.chars.1, parseIpv4_eq_some_iff.mpr hquad]
  show (expandGroups _).bind _ = _
  cases expandGroups (before ++ ':' :: "0:0".toList) with
  | none => rfl
  | some groups =>
    show (groupsValue groups).bind _ = (groupsValue groups).map _
    cases groupsValue groups <;> rfl

/-- `parseIpv6` reads the IPv6 literals. -/
theorem parseIpv6_eq_some_iff {text : List Char} {value : Nat} :
    parseIpv6 text = some value ↔
      ∃ groups, Ipv6Literal text groups ∧ value = groupsNumber groups := by
  constructor
  · intro h
    by_cases hdotted : ∃ before after, splitLast ':' text = some (before, after) ∧ '.' ∈ after
    · obtain ⟨before, after, hsplit, hdot⟩ := hdotted
      obtain ⟨-, htext⟩ := splitLast_eq_some hsplit
      obtain ⟨tail, htail⟩ : ∃ tail, parseIpv4 after = some tail := by
        unfold parseIpv6 at h
        rw [hsplit] at h
        dsimp only at h
        rw [if_pos hdot, Option.bind_eq_bind, Option.bind_eq_some_iff] at h
        obtain ⟨tail, htail, -⟩ := h
        exact ⟨tail, htail⟩
      have hquad := parseIpv4_eq_some_iff.mp htail
      rw [htext, parseIpv6_quad hquad, Option.map_eq_some_iff] at h
      obtain ⟨head, hhead, hvalue⟩ := h
      rcases placeholder_value_iff.mp hhead with ⟨groups, hgroups, hlength, hbefore, rfl⟩ |
        ⟨leading, trailing, hleading, htrailing, hlength, hbefore, rfl⟩
      · have hne : groups ≠ [] := List.ne_nil_of_length_pos (by omega)
        refine ⟨groups.map groupNumber ++ quadGroups tail, ?_, ?_⟩
        · rw [htext, hbefore, ← joinColons_concat hne]
          exact .fullQuad groups after tail hgroups hlength hquad
        · rw [groupsNumber_append_quad _ hquad.lt, hvalue]
      · refine ⟨leading.map groupNumber ++
          List.replicate (6 - leading.length - trailing.length) 0 ++ trailing.map groupNumber ++
          quadGroups tail, ?_, ?_⟩
        · rw [htext, hbefore, ← elidedFront_concat]
          exact .elidedQuad leading trailing after tail hleading htrailing hlength hquad
        · rw [groupsNumber_append_quad _ hquad.lt, hvalue]
    · have hplain : parseIpv6 text = (expandGroups text).bind groupsValue := by
        unfold parseIpv6
        split
        · rename_i before after hsplit
          exact if_neg fun hdot => hdotted ⟨before, after, hsplit, hdot⟩
        · rfl
      rw [hplain] at h
      rcases expandGroups_value_iff.mp h with ⟨groups, hgroups, hlength, rfl, rfl⟩ |
        ⟨leading, trailing, hleading, htrailing, hlength, rfl, rfl⟩
      · exact ⟨_, .full groups hgroups hlength, rfl⟩
      · exact ⟨_, .elided leading trailing hleading htrailing hlength, rfl⟩
  · rintro ⟨groups, hliteral, rfl⟩
    cases hliteral with
    | full groups hgroups hlength =>
      rw [parseIpv6_of_no_dot (not_mem_joinColons hgroups (by decide) (by decide)),
        expandGroups_value_iff]
      exact .inl ⟨groups, hgroups, hlength, rfl, rfl⟩
    | elided leading trailing hleading htrailing hlength =>
      rw [parseIpv6_of_no_dot (not_mem_elided hleading htrailing (by decide) (by decide)),
        expandGroups_value_iff]
      exact .inr ⟨leading, trailing, hleading, htrailing, hlength, rfl, rfl⟩
    | fullQuad groups quad value hgroups hlength hquad =>
      have hne : groups ≠ [] := List.ne_nil_of_length_pos (by omega)
      rw [joinColons_concat hne, parseIpv6_quad hquad,
        placeholder_value_iff.mpr (.inl ⟨groups, hgroups, hlength, rfl, rfl⟩),
        groupsNumber_append_quad _ hquad.lt]
      rfl
    | elidedQuad leading trailing quad value hleading htrailing hlength hquad =>
      rw [elidedFront_concat, parseIpv6_quad hquad, placeholder_value_iff.mpr
        (.inr ⟨leading, trailing, hleading, htrailing, hlength, rfl, rfl⟩),
        groupsNumber_append_quad _ hquad.lt]
      rfl

/-! ## What an IPv6 literal is made of -/

/-- An IPv6 literal is digits, colons and dots, and has two colons at least. -/
theorem Ipv6Literal.chars {text : List Char} {groups : List Nat} (h : Ipv6Literal text groups) :
    2 ≤ text.count ':' ∧ ∀ c ∈ text, (value? c).isSome = true ∨ c = ':' ∨ c = '.' := by
  have htwo : ∀ front middle rest : List Char,
      2 ≤ (front ++ ':' :: (middle ++ ':' :: rest)).count ':' := by
    intro front middle rest
    rw [List.count_append, List.count_cons_self, List.count_append, List.count_cons_self]
    omega
  have hjoined : ∀ {groups : List (List Char)}, (∀ g ∈ groups, IsGroup g) →
      ∀ c ∈ joinColons groups, (value? c).isSome = true ∨ c = ':' ∨ c = '.' := by
    intro groups hgroups c hc
    rcases mem_joinColons hc with heq | ⟨g, hg, hmem⟩
    · exact .inr (.inl heq)
    · exact .inl ((hgroups g hg).hex c hmem)
  have hquads : ∀ {groups : List (List Char)} {quad : List Char} {value : Nat},
      (∀ g ∈ groups, IsGroup g) → Ipv4Literal quad value →
      ∀ c ∈ joinColons (groups ++ [quad]), (value? c).isSome = true ∨ c = ':' ∨ c = '.' := by
    intro groups quad value hgroups hquad c hc
    rcases mem_joinColons hc with heq | ⟨g, hg, hmem⟩
    · exact .inr (.inl heq)
    · cases List.mem_append.mp hg with
      | inl hgroup => exact .inl ((hgroups g hgroup).hex c hmem)
      | inr hlast =>
        rw [List.mem_singleton.mp hlast] at hmem
        rcases hquad.chars.2 c hmem with hdigit | hdot
        · exact .inl hdigit
        · exact .inr (.inr hdot)
  have helided : ∀ {before after : List Char},
      (∀ c ∈ before, (value? c).isSome = true ∨ c = ':' ∨ c = '.') →
      (∀ c ∈ after, (value? c).isSome = true ∨ c = ':' ∨ c = '.') →
      ∀ c ∈ before ++ ':' :: ':' :: after, (value? c).isSome = true ∨ c = ':' ∨ c = '.' := by
    intro before after hbefore hafter c hc
    simp only [List.mem_append, List.mem_cons] at hc
    rcases hc with hc | heq | heq | hc
    · exact hbefore c hc
    · exact .inr (.inl heq)
    · exact .inr (.inl heq)
    · exact hafter c hc
  cases h with
  | full groups hgroups hlength =>
    obtain ⟨first, second, third, later, rfl⟩ : ∃ first second third later,
        groups = first :: second :: third :: later := by
      match groups, hlength with
      | first :: second :: third :: later, _ => exact ⟨first, second, third, later, rfl⟩
    refine ⟨?_, hjoined hgroups⟩
    have htext : joinColons (first :: second :: third :: later) =
        first ++ ':' :: (second ++ ':' :: joinColons (third :: later)) := by
      rw [joinColons, List.intercalate_cons_of_ne_nil (List.cons_ne_nil _ _),
        List.intercalate_cons_of_ne_nil (List.cons_ne_nil _ _)]
      simp only [List.append_assoc, List.singleton_append, joinColons]
    rw [htext]
    exact htwo _ _ _
  | elided leading trailing hleading htrailing hlength =>
    exact ⟨htwo _ [] _, helided (hjoined hleading) (hjoined htrailing)⟩
  | fullQuad groups quad value hgroups hlength hquad =>
    obtain ⟨init, last, rfl⟩ : ∃ init last, groups = init ++ [last] := by
      obtain rfl | h := List.eq_nil_or_concat' groups
      · cases hlength
      · exact h
    have hinit : init ≠ [] := by
      rintro rfl
      cases hlength
    refine ⟨?_, hquads hgroups hquad⟩
    rw [joinColons_concat (List.append_ne_nil_of_left_ne_nil hinit _), joinColons_concat hinit,
      List.append_assoc]
    exact htwo _ _ _
  | elidedQuad leading trailing quad value hleading htrailing hlength hquad =>
    exact ⟨htwo _ [] _, helided (hjoined hleading) (hquads htrailing hquad)⟩

/-! ## The numbers of IPv6 literals -/

/-- The digits a group is written with spell it. -/
theorem isGroup_toDigits {n : Nat} (h : n < 65536) :
    IsGroup (Nat.toDigits 16 n) ∧ groupNumber (Nat.toDigits 16 n) = n := by
  have hdigit : ∀ i : Fin 16, value? (Nat.digitChar i.val) = some i.val := by decide
  have hread : ∀ n, number? (Nat.toDigits 16 n) = some n := by
    intro n
    induction n using Nat.strongRecOn with
    | ind n ih =>
      rcases Nat.lt_or_ge n 16 with hsmall | hlarge
      · rw [Nat.toDigits_of_lt_base hsmall, number?, numberFrom?, hdigit ⟨n, hsmall⟩,
          Option.bind_some, numberFrom?, Nat.mul_zero, Nat.zero_add]
      · have hdiv : n / 16 < n := Nat.div_lt_self (by omega) (by decide)
        have hfront := ih (n / 16) hdiv
        rw [number?] at hfront
        rw [Nat.toDigits_of_base_le (by decide) hlarge, number?, numberFrom?_append, hfront,
          Option.bind_some, numberFrom?, hdigit ⟨n % 16, Nat.mod_lt _ (by decide)⟩,
          Option.bind_some, numberFrom?, Nat.div_add_mod]
  have hne : Nat.toDigits 16 n ≠ [] := by
    rw [Nat.toDigits_eq_if (by decide)]
    split
    · exact List.cons_ne_nil _ _
    · exact List.append_ne_nil_of_right_ne_nil _ (List.cons_ne_nil _ _)
  have hlength : (Nat.toDigits 16 n).length ≤ 4 :=
    (Nat.length_toDigits_le_iff (by decide) (by decide)).mpr h
  exact ⟨⟨hne, hlength, by rw [hread]; rfl⟩, by rw [groupNumber, hread, Option.getD_some]⟩

/-- The groups cut from a number are its last ones. -/
theorem groupsNumber_shifted (count value : Nat) :
    groupsNumber ((List.range count).map fun index =>
      value >>> ((count - 1 - index) * 16) % 65536) = value % 65536 ^ count := by
  induction count generalizing value with
  | zero => exact (Nat.mod_one value).symm
  | succ count ih =>
    have hfront : (List.range count).map (fun index =>
          value >>> ((count + 1 - 1 - index) * 16) % 65536) =
        (List.range count).map fun index =>
          (value / 65536) >>> ((count - 1 - index) * 16) % 65536 := by
      refine List.map_congr_left fun index hindex => ?_
      have hlt : index < count := List.mem_range.mp hindex
      have hamount : (count + 1 - 1 - index) * 16 = 16 + (count - 1 - index) * 16 := by omega
      rw [hamount, Nat.shiftRight_add, Nat.shiftRight_eq_div_pow value 16]
    have hlast : value >>> ((count + 1 - 1 - count) * 16) = value := by
      rw [Nat.add_sub_cancel, Nat.sub_self, Nat.zero_mul, Nat.shiftRight_zero]
    rw [List.range_succ, List.map_append, List.map_singleton, groupsNumber_concat, hfront, ih,
      hlast, Nat.pow_succ', Nat.mod_mul, Nat.add_comm, Nat.mul_comm]

/-- The text of an IPv6 address is a literal for it. -/
theorem ipv6Literal_formatIpv6 {value : Nat} (h : value < 2 ^ 128) :
    ∃ groups, Ipv6Literal (formatIpv6 value).toList groups ∧ groupsNumber groups = value := by
  have hgroup : ∀ index,
      IsGroup (Nat.toDigits 16 (value >>> ((IPV6_GROUPS - 1 - index) * 16) % 65536)) ∧
      groupNumber (Nat.toDigits 16 (value >>> ((IPV6_GROUPS - 1 - index) * 16) % 65536)) =
        value >>> ((IPV6_GROUPS - 1 - index) * 16) % 65536 := fun index =>
    isGroup_toDigits (Nat.mod_lt _ (by decide))
  have htext : (formatIpv6 value).toList = joinColons ((List.range IPV6_GROUPS).map fun index =>
      Nat.toDigits 16 (value >>> ((IPV6_GROUPS - 1 - index) * 16) % 65536)) := by
    rw [formatIpv6, String.toList_ofList]
    rfl
  rw [htext]
  refine ⟨_, .full _ ?_ ?_, ?_⟩
  · intro g hg
    obtain ⟨index, -, rfl⟩ := List.mem_map.mp hg
    exact (hgroup index).1
  · rw [List.length_map, List.length_range]
    rfl
  · rw [List.map_map, Function.comp_def]
    simp only [hgroup]
    rw [groupsNumber_shifted]
    exact Nat.mod_eq_of_lt h

theorem groupsNumber_lt {groups : List Nat} (h : ∀ g ∈ groups, g < 65536) :
    groupsNumber groups < 65536 ^ groups.length := by
  induction groups using List.reverseRecOn with
  | nil => exact Nat.one_pos
  | append_singleton groups last ih =>
    have hinit := ih fun g hg => h g (List.mem_append_left _ hg)
    have hlast := h last (List.mem_append_right _ (List.mem_singleton.mpr rfl))
    rw [groupsNumber_concat, List.length_append, List.length_singleton, Nat.pow_succ]
    calc groupsNumber groups * 65536 + last < (groupsNumber groups + 1) * 65536 := by omega
      _ ≤ 65536 ^ groups.length * 65536 := Nat.mul_le_mul_right _ hinit

/-- A literal has eight groups, of sixteen bits each. -/
theorem Ipv6Literal.groups_lt {text : List Char} {groups : List Nat} (h : Ipv6Literal text groups) :
    groups.length = 8 ∧ ∀ g ∈ groups, g < 65536 := by
  have hwritten : ∀ {written : List (List Char)}, (∀ g ∈ written, IsGroup g) →
      ∀ n ∈ written.map groupNumber, n < 65536 := by
    intro written hgroups n hn
    obtain ⟨g, hg, rfl⟩ := List.mem_map.mp hn
    exact (hgroups g hg).number?_eq.2
  have hzeros : ∀ {k : Nat}, ∀ n ∈ List.replicate k 0, n < 65536 := by
    intro k n hn
    rw [List.eq_of_mem_replicate hn]
    decide
  have hquads : ∀ {quad : List Char} {value : Nat}, Ipv4Literal quad value →
      ∀ n ∈ quadGroups value, n < 65536 := by
    intro quad value hquad n hn
    have hlt := hquad.lt
    simp only [quadGroups, List.mem_cons, List.not_mem_nil, or_false] at hn
    omega
  cases h with
  | full groups hgroups hlength =>
    rw [List.length_map]
    exact ⟨hlength, hwritten hgroups⟩
  | elided leading trailing hleading htrailing hlength =>
    simp only [List.length_append, List.length_map, List.length_replicate, List.mem_append]
    refine ⟨by omega, ?_⟩
    rintro n ((hn | hn) | hn)
    · exact hwritten hleading n hn
    · exact hzeros n hn
    · exact hwritten htrailing n hn
  | fullQuad groups quad value hgroups hlength hquad =>
    simp only [List.length_append, List.length_map, List.mem_append]
    refine ⟨by rw [hlength]; rfl, ?_⟩
    rintro n (hn | hn)
    · exact hwritten hgroups n hn
    · exact hquads hquad n hn
  | elidedQuad leading trailing quad value hleading htrailing hlength hquad =>
    simp only [List.length_append, List.length_map, List.length_replicate, List.mem_append]
    have htwo : (quadGroups value).length = 2 := rfl
    refine ⟨by omega, ?_⟩
    rintro n (((hn | hn) | hn) | hn)
    · exact hwritten hleading n hn
    · exact hzeros n hn
    · exact hwritten htrailing n hn
    · exact hquads hquad n hn

theorem Ipv6Literal.number_lt {text : List Char} {groups : List Nat} (h : Ipv6Literal text groups) :
    groupsNumber groups < 2 ^ 128 := by
  obtain ⟨hlength, hgroups⟩ := h.groups_lt
  have hlt := groupsNumber_lt hgroups
  rw [hlength] at hlt
  exact hlt

theorem Denotes.text_denotes {text : List Char} {address : Address} (h : Denotes text address) :
    Denotes address.text.toList address := by
  cases h with
  | ipv4 h => exact .ipv4 (ipv4Literal_formatIpv4 h.lt)
  | mapped h hmapped =>
    exact .ipv4 (ipv4Literal_formatIpv4 (Nat.mod_lt _ (Nat.two_pow_pos 32)))
  | ipv6 h hmapped =>
    obtain ⟨groups, hliteral, hnumber⟩ := ipv6Literal_formatIpv6 h.number_lt
    have hsame := Denotes.ipv6 hliteral (hnumber ▸ hmapped)
    rw [hnumber] at hsame
    exact hsame

/-! ## Decorations -/

/-- Nothing, or a zone. -/
def IsZone (text : List Char) : Prop := text = [] ∨ ∃ name, text = '%' :: name

/-- A text and the literal in it: there may be a zone behind it, a port behind a dotted quad, or
brackets around it and its zone, with anything after them. -/
inductive Wears : List Char → List Char → Prop
  | zone (literal zone : List Char) (hzone : IsZone zone) : Wears (literal ++ zone) literal
  | port (literal port : List Char) (value : Nat) (hquad : Ipv4Literal literal value)
      (hport : ':' ∉ port) : Wears (literal ++ ':' :: port) literal
  | brackets (literal zone rest : List Char) (hzone : IsZone zone) (hrest : ']' ∉ rest) :
      Wears ('[' :: (literal ++ zone ++ ']' :: rest)) literal

theorem Denotes.chars {text : List Char} {address : Address} (h : Denotes text address) :
    ∀ c ∈ text, (value? c).isSome = true ∨ c = ':' ∨ c = '.' := by
  cases h with
  | ipv4 h =>
    intro c hc
    rcases h.chars.2 c hc with hdigit | hdot
    · exact .inl hdigit
    · exact .inr (.inr hdot)
  | mapped h hmapped => exact h.chars.2
  | ipv6 h hmapped => exact h.chars.2

theorem Denotes.not_mem {text : List Char} {address : Address} (h : Denotes text address)
    {c : Char} (hc : value? c = none) (hcolon : c ≠ ':') (hdot : c ≠ '.') : c ∉ text := by
  intro hmem
  rcases h.chars c hmem with hsome | heq | heq
  · rw [hc] at hsome
    cases hsome
  · exact hcolon heq
  · exact hdot heq

theorem Denotes.ne_nil {text : List Char} {address : Address} (h : Denotes text address) :
    text ≠ [] := by
  rintro rfl
  have hcount : ∀ {groups : List Nat}, ¬Ipv6Literal [] groups := fun hliteral =>
    absurd hliteral.chars.1 (by decide)
  cases h with
  | ipv4 h => exact absurd h.chars.1 List.not_mem_nil
  | mapped h hmapped => exact hcount h
  | ipv6 h hmapped => exact hcount h

/-- A literal has a dot and no colon, or two colons at least. -/
theorem Denotes.colons {text : List Char} {address : Address} (h : Denotes text address) :
    (∃ value, Ipv4Literal text value) ∨ 2 ≤ text.count ':' := by
  cases h with
  | ipv4 h => exact .inl ⟨_, h⟩
  | mapped h hmapped => exact .inr h.chars.1
  | ipv6 h hmapped => exact .inr h.chars.1

/-- A literal with a zone behind it, and where it ends. -/
theorem takeWhile_zone {literal zone : List Char} (h : '%' ∉ literal) (hzone : IsZone zone) :
    (literal ++ zone).takeWhile (· ≠ '%') = literal := by
  have hall : ∀ c ∈ literal, decide (c ≠ '%') = true := fun c hc =>
    decide_eq_true fun heq => h (heq ▸ hc)
  rw [List.takeWhile_append_of_pos hall]
  rcases hzone with rfl | ⟨name, rfl⟩
  · exact List.append_nil _
  · rw [List.takeWhile_cons_of_neg (by decide), List.append_nil]

theorem isZone_dropWhile (text : List Char) : IsZone (text.dropWhile (· ≠ '%')) := by
  cases hdrop : text.dropWhile (· ≠ '%') with
  | nil => exact .inl rfl
  | cons c rest =>
    have hc := List.head?_dropWhile_not (fun c => decide (c ≠ '%')) text
    rw [hdrop] at hc
    have heq : c = '%' := by simpa using hc
    exact .inr ⟨rest, heq ▸ rfl⟩

theorem undecorate_eq (raw : List Char) : undecorate raw =
    (match (trimSpace raw).head?, splitLast ']' (trimSpace raw) with
      | some '[', some (before, _) => before.drop 1
      | _, _ =>
        if (trimSpace raw).count ':' = 1 ∧ '.' ∈ trimSpace raw then
          (trimSpace raw).takeWhile (· ≠ ':')
        else trimSpace raw).takeWhile (· ≠ '%') := rfl

/-- Text that does not begin with a bracket, or has none that closes. -/
theorem undecorate_of_unbracketed {raw : List Char}
    (h : (trimSpace raw).head? ≠ some '[' ∨ ']' ∉ trimSpace raw) : undecorate raw =
      (if (trimSpace raw).count ':' = 1 ∧ '.' ∈ trimSpace raw then
        (trimSpace raw).takeWhile (· ≠ ':') else trimSpace raw).takeWhile (· ≠ '%') := by
  rw [undecorate_eq]
  split
  · rename_i before after hhead hsplit
    rcases h with hne | hnot
    · exact absurd hhead hne
    · refine absurd ?_ hnot
      rw [(splitLast_eq_some hsplit).2]
      exact List.mem_append_right _ List.mem_cons_self
  · rfl

theorem undecorate_of_brackets {raw inner rest : List Char} (hrest : ']' ∉ rest)
    (h : trimSpace raw = '[' :: (inner ++ ']' :: rest)) :
    undecorate raw = inner.takeWhile (· ≠ '%') := by
  have hsplit : splitLast ']' ('[' :: (inner ++ ']' :: rest)) = some ('[' :: inner, rest) :=
    splitLast_append hrest ('[' :: inner)
  rw [undecorate_eq, h, hsplit]
  rfl

/-- What is left of a text is the literal in it, where there is one. -/
theorem undecorate_eq_iff {raw literal : List Char} {address : Address}
    (hliteral : Denotes literal address) :
    undecorate raw = literal ↔ Wears (trimSpace raw) literal := by
  have hpercent : '%' ∉ literal := hliteral.not_mem (by decide) (by decide) (by decide)
  constructor
  · intro h
    by_cases hbrackets : (trimSpace raw).head? = some '[' ∧ ']' ∈ trimSpace raw
    · obtain ⟨hhead, hmem⟩ := hbrackets
      obtain ⟨before, rest, hsplit⟩ : ∃ before rest,
          splitLast ']' (trimSpace raw) = some (before, rest) := by
        cases hsplit : splitLast ']' (trimSpace raw) with
        | none => exact absurd hmem (splitLast_eq_none hsplit)
        | some halves => exact ⟨halves.1, halves.2, rfl⟩
      obtain ⟨hrest, htext⟩ := splitLast_eq_some hsplit
      obtain ⟨inner, rfl⟩ : ∃ inner, before = '[' :: inner := by
        rw [htext] at hhead
        cases before with
        | nil => cases hhead
        | cons c inner =>
          cases hhead
          exact ⟨inner, rfl⟩
      rw [undecorate_of_brackets hrest htext] at h
      rw [htext, ← List.takeWhile_append_dropWhile (p := (· ≠ '%')) (l := inner), h]
      exact .brackets literal _ rest (isZone_dropWhile inner) hrest
    · rw [not_and_or] at hbrackets
      rw [undecorate_of_unbracketed hbrackets] at h
      by_cases hport : (trimSpace raw).count ':' = 1 ∧ '.' ∈ trimSpace raw
      · rw [if_pos hport] at h
        obtain ⟨front, port, htext, hfront⟩ := List.eq_append_cons_of_mem
          (List.count_pos_iff.mp (by rw [hport.1]; exact Nat.one_pos))
        have hcut : (front ++ ':' :: port).takeWhile (· ≠ ':') = front := by
          have hall : ∀ c ∈ front, decide (c ≠ ':') = true := fun c hc =>
            decide_eq_true fun heq => hfront (heq ▸ hc)
          rw [List.takeWhile_append_of_pos hall, List.takeWhile_cons_of_neg (by decide),
            List.append_nil]
        have hone : port.count ':' = 0 := by
          have hcount := hport.1
          rw [htext, List.count_append, List.count_cons_self] at hcount
          omega
        rw [htext, hcut] at h
        have hsplit : front = literal ++ front.dropWhile (· ≠ '%') := by
          rw [← h, List.takeWhile_append_dropWhile]
        rw [htext]
        rcases isZone_dropWhile front with hnil | ⟨name, hname⟩
        · -- no zone before the port: the colon is the only one, so the literal is a dotted quad
          rw [hnil, List.append_nil] at hsplit
          rw [hsplit] at hfront ⊢
          rcases hliteral.colons with ⟨value, hquad⟩ | htwo
          · exact .port literal port value hquad (List.count_eq_zero.mp hone)
          · rw [List.count_eq_zero_of_not_mem hfront] at htwo
            exact absurd htwo (by decide)
        · rw [hname] at hsplit
          rw [hsplit, List.append_assoc]
          exact .zone literal _ (.inr ⟨name ++ ':' :: port, rfl⟩)
      · rw [if_neg hport] at h
        rw [← List.takeWhile_append_dropWhile (p := (· ≠ '%')) (l := trimSpace raw), h]
        exact .zone literal _ (isZone_dropWhile _)
  · intro h
    generalize htext : trimSpace raw = text at h
    have hbracket : '[' ∉ literal := hliteral.not_mem (by decide) (by decide) (by decide)
    have hhead : ∀ rest, (literal ++ rest).head? ≠ some '[' := by
      intro rest heq
      rw [List.head?_append_of_ne_nil _ hliteral.ne_nil] at heq
      exact hbracket (List.mem_of_head? heq)
    cases h with
    | zone _ zone hzone =>
      rw [undecorate_of_unbracketed (.inl (htext ▸ hhead zone)), htext]
      split
      · rename_i hport
        -- the one colon stands in the zone: a literal has a dot, or two colons
        have hcolon : ∀ c ∈ literal, decide (c ≠ ':') = true := by
          intro c hc
          refine decide_eq_true fun heq => ?_
          rcases hliteral.colons with ⟨value, hquad⟩ | htwo
          · exact hquad.colon_not_mem (heq ▸ hc)
          · rw [List.count_append] at hport
            omega
        rw [List.takeWhile_append_of_pos hcolon]
        refine takeWhile_zone hpercent ?_
        rcases hzone with rfl | ⟨name, rfl⟩
        · exact .inl rfl
        · rw [List.takeWhile_cons_of_pos (by decide)]
          exact .inr ⟨_, rfl⟩
      · exact takeWhile_zone hpercent hzone
    | port _ port value hquad hport =>
      rw [undecorate_of_unbracketed (.inl (htext ▸ hhead _)), htext]
      have hone : (literal ++ ':' :: port).count ':' = 1 := by
        rw [List.count_append, List.count_cons_self,
          List.count_eq_zero_of_not_mem hquad.colon_not_mem, List.count_eq_zero_of_not_mem hport]
      have hcolon : ∀ c ∈ literal, decide (c ≠ ':') = true := fun c hc =>
        decide_eq_true fun heq => hquad.colon_not_mem (heq ▸ hc)
      rw [if_pos ⟨hone, List.mem_append_left _ hquad.chars.1⟩,
        List.takeWhile_append_of_pos hcolon, List.takeWhile_cons_of_neg (by decide)]
      exact takeWhile_zone hpercent (.inl rfl)
    | brackets _ zone rest hzone hrest =>
      rw [undecorate_of_brackets hrest htext]
      exact takeWhile_zone hpercent hzone

theorem trimSpace_of_all {text : List Char} (h : ∀ c ∈ text, isSpace c = false) :
    trimSpace text = text := by
  have hdrop : ∀ {text : List Char}, (∀ c ∈ text, isSpace c = false) →
      text.dropWhile isSpace = text := by
    intro text htext
    cases text with
    | nil => rfl
    | cons c rest =>
      refine List.dropWhile_cons_of_neg ?_
      rw [htext c List.mem_cons_self]
      exact Bool.false_ne_true
  rw [trimSpace, hdrop h, hdrop fun c hc => h c (List.mem_reverse.mp hc), List.reverse_reverse]

theorem isSpace_of_digit {c : Char} (h : (value? c).isSome = true) : isSpace c = false := by
  have hrange : 48 ≤ c.toNat ∧ c.toNat ≤ 102 := by
    unfold value? at h
    split at h
    · rename_i hdigit
      have hle : 48 ≤ c.toNat ∧ c.toNat ≤ 57 := hdigit
      omega
    · split at h
      · rename_i hlower
        have hle : 97 ≤ c.toNat ∧ c.toNat ≤ 102 := hlower
        omega
      · split at h
        · rename_i hupper
          have hle : 65 ≤ c.toNat ∧ c.toNat ≤ 70 := hupper
          omega
        · cases h
  unfold isSpace
  simp only [Bool.or_eq_false_iff, Bool.and_eq_false_iff, decide_eq_false_iff_not]
  omega

/-- A literal wears nothing. -/
theorem Denotes.wears {text : List Char} {address : Address} (h : Denotes text address) :
    Wears (trimSpace text) text := by
  have hplain : trimSpace text = text := by
    refine trimSpace_of_all fun c hc => ?_
    rcases h.chars c hc with hdigit | rfl | rfl
    · exact isSpace_of_digit hdigit
    · rfl
    · rfl
  have hzone := Wears.zone text [] (.inl rfl)
  rw [List.append_nil] at hzone
  rw [hplain]
  exact hzone

/-! ## What is accepted -/

theorem isMapped_iff {value : Nat} : value >>> 32 = GROUP_MAX ↔ IsMapped value := by
  rw [Nat.shiftRight_eq_div_pow]
  exact Iff.rfl

/-- The parser on a text that wears nothing. -/
theorem parseUndecorated_iff {text : List Char} {address : Address} :
    (if text = [] then none
      else if ':' ∉ text then
        (parseIpv4 text).map fun value => (⟨value, IPV4_WIDTH, formatIpv4 value⟩ : Address)
      else (parseIpv6 text).map fun value =>
        if value >>> 32 = GROUP_MAX then
          let mapped := value % 2 ^ 32
          ⟨mapped, IPV4_WIDTH, formatIpv4 mapped⟩
        else ⟨value, IPV6_WIDTH, formatIpv6 value⟩) = some address ↔ Denotes text address := by
  constructor
  · intro h
    rw [Option.ite_none_left_eq_some] at h
    obtain ⟨-, h⟩ := h
    by_cases hcolon : ':' ∉ text
    · rw [if_pos hcolon, Option.map_eq_some_iff] at h
      obtain ⟨value, hvalue, rfl⟩ := h
      exact .ipv4 (parseIpv4_eq_some_iff.mp hvalue)
    · rw [if_neg hcolon, Option.map_eq_some_iff] at h
      obtain ⟨value, hvalue, rfl⟩ := h
      obtain ⟨groups, hliteral, rfl⟩ := parseIpv6_eq_some_iff.mp hvalue
      split
      · rename_i hmapped
        exact .mapped hliteral (isMapped_iff.mp hmapped)
      · rename_i hmapped
        exact .ipv6 hliteral (mt isMapped_iff.mpr hmapped)
  · intro h
    rw [Option.ite_none_left_eq_some]
    refine ⟨h.ne_nil, ?_⟩
    cases h with
    | ipv4 h =>
      rw [if_pos h.colon_not_mem, parseIpv4_eq_some_iff.mpr h]
      rfl
    | mapped h hmapped =>
      have hcolon : ¬ ':' ∉ text := not_not.mpr
        (List.count_pos_iff.mp (Nat.lt_of_lt_of_le Nat.two_pos h.chars.1))
      rw [if_neg hcolon, parseIpv6_eq_some_iff.mpr ⟨_, h, rfl⟩, Option.map_some,
        if_pos (isMapped_iff.mpr hmapped)]
      rfl
    | ipv6 h hmapped =>
      have hcolon : ¬ ':' ∉ text := not_not.mpr
        (List.count_pos_iff.mp (Nat.lt_of_lt_of_le Nat.two_pos h.chars.1))
      rw [if_neg hcolon, parseIpv6_eq_some_iff.mpr ⟨_, h, rfl⟩, Option.map_some,
        if_neg (mt isMapped_iff.mp hmapped)]
      rfl

theorem parseAddress_of_wears {raw literal : List Char} {address : Address}
    (hwears : Wears (trimSpace raw) literal) (h : Denotes literal address) :
    parseAddress raw = some address := by
  have hliteral := (undecorate_eq_iff h).mpr hwears
  exact parseUndecorated_iff.mpr (hliteral.symm ▸ h)

theorem wears_of_parseAddress {raw : List Char} {address : Address}
    (h : parseAddress raw = some address) :
    ∃ literal, Wears (trimSpace raw) literal ∧ Denotes literal address := by
  have hdenotes := parseUndecorated_iff.mp h
  exact ⟨_, (undecorate_eq_iff hdenotes).mp rfl, hdenotes⟩

/-- The literals are read as they stand, and otherwise only what they wear around them; the text of
an address reads back. -/
theorem parseAddress_reads_literals (raw : List Char) :
    (∀ address, parseAddress raw = some address ↔
      ∃ literal, Wears (trimSpace raw) literal ∧ Denotes literal address) ∧
    (∀ address, Denotes raw address → parseAddress raw = some address) ∧
    (∀ groups quad value, Ipv6Literal raw groups → Ipv4Literal quad value →
      groupsNumber groups = 65535 * 2 ^ 32 + value → parseAddress raw = parseAddress quad) ∧
    ∀ address, parseAddress raw = some address →
      parseAddress address.text.toList = some address := by
  refine ⟨fun address => ⟨wears_of_parseAddress, ?_⟩, ?_, ?_, ?_⟩
  · rintro ⟨literal, hwears, hdenotes⟩
    exact parseAddress_of_wears hwears hdenotes
  · exact fun address h => parseAddress_of_wears h.wears h
  · intro groups quad value hliteral hquad hnumber
    have hlt := hquad.lt
    have hmapped : IsMapped (groupsNumber groups) := by
      rw [IsMapped, hnumber]
      omega
    have hmod : groupsNumber groups % 2 ^ 32 = value := by omega
    have hsame := Denotes.mapped hliteral hmapped
    rw [hmod] at hsame
    have hplain := Denotes.ipv4 hquad
    rw [parseAddress_of_wears hsame.wears hsame, parseAddress_of_wears hplain.wears hplain]
  · intro address h
    obtain ⟨literal, -, hdenotes⟩ := wears_of_parseAddress h
    exact parseAddress_of_wears hdenotes.text_denotes.wears hdenotes.text_denotes

/-- An address with a zone is accepted, and no literal. -/
theorem zoned_address_accepted :
    ∃ raw, (parseAddress raw).isSome = true ∧ ∀ address, ¬Denotes raw address := by
  refine ⟨"fe80::1%eth0".toList, by decide +kernel, fun address h => ?_⟩
  have hpercent : '%' ∉ "fe80::1%eth0".toList :=
    h.not_mem (by decide) (by decide) (by decide)
  exact hpercent (by decide)

end Wallow.Bff
