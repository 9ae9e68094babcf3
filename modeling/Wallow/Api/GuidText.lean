import Wallow.Lib.HexText
import Mathlib.Data.String.Basic

/-!
# The text of a tenant's `Guid`

`Guid.ToString` and `Guid.TryParse`, as the hub and the presence service use them on the tenant
part of a group name or of a Redis key.
-/

namespace Wallow.Api

open HexText

/-- A tenant's `Guid`, the number its 32 digits spell. -/
abbrev TenantId := Fin (2 ^ 128)

instance guidCount_neZero : NeZero (2 ^ 128) := ⟨by decide⟩

/-- The `D` format. -/
def TenantId.chars (id : TenantId) : List Char :=
  digits 8 (id.val / 16 ^ 24) ++ '-' :: (digits 4 (id.val / 16 ^ 20) ++
    '-' :: (digits 4 (id.val / 16 ^ 16) ++ '-' :: (digits 4 (id.val / 16 ^ 12) ++
      '-' :: digits 12 id.val)))

def TenantId.toString (id : TenantId) : String := String.ofList id.chars

@[simp] theorem toList_toString (id : TenantId) : id.toString.toList = id.chars := by
  rw [TenantId.toString, String.toList_ofList]

/-! ## `Guid.TryParse` -/

def isWhiteSpace (c : Char) : Bool :=
  let n := c.toNat
  (9 ≤ n && n ≤ 13) || n = 0x20 || n = 0x85 || n = 0xA0 || n = 0x1680 ||
    (0x2000 ≤ n && n ≤ 0x200A) || n = 0x2028 || n = 0x2029 || n = 0x202F || n = 0x205F ||
    n = 0x3000

def trim (text : List Char) : List Char :=
  ((text.dropWhile isWhiteSpace).reverse.dropWhile isWhiteSpace).reverse

def slice (text : List Char) (start length : Nat) : List Char :=
  (text.drop start).take length

def dropHexPrefix : List Char → List Char
  | '0' :: 'x' :: rest => rest
  | '0' :: 'X' :: rest => rest
  | text => text

/-- A component may carry a sign and a `0x`. -/
def tryParseHex (component : List Char) : Option Nat :=
  match component with
  | '+' :: rest => number? (dropHexPrefix rest)
  | text => number? (dropHexPrefix text)

def tryParseExactD (guid : List Char) : Option Nat :=
  if guid.length = 36 ∧ guid[8]? = some '-' ∧ guid[13]? = some '-' ∧ guid[18]? = some '-' ∧
      guid[23]? = some '-' then do
    let a ← tryParseHex (slice guid 0 8)
    let b ← tryParseHex (slice guid 9 4)
    let c ← tryParseHex (slice guid 14 4)
    let de ← tryParseHex (slice guid 19 4)
    let fg ← tryParseHex (slice guid 24 4)
    let hijk ← number? (slice guid 28 8)
    some (((((a * 16 ^ 4 + b) * 16 ^ 4 + c) * 16 ^ 4 + de) * 16 ^ 4 + fg) * 16 ^ 8 + hijk)
  else none

def tryParseExactN (guid : List Char) : Option Nat :=
  if guid.length = 32 then number? guid else none

def tryParseExactB (guid : List Char) : Option Nat :=
  if guid.length = 38 ∧ guid[0]? = some '{' ∧ guid[37]? = some '}' then
    tryParseExactD (slice guid 1 36)
  else none

def tryParseExactP (guid : List Char) : Option Nat :=
  if guid.length = 38 ∧ guid[0]? = some '(' ∧ guid[37]? = some ')' then
    tryParseExactD (slice guid 1 36)
  else none

/-- One `0x…` number of the `X` format up to its delimiter, of eight digits at most beside leading
zeros, and the text after the delimiter. -/
def hexComponent (delimiter : Char) : List Char → Option (Nat × List Char)
  | '0' :: x :: rest =>
    let component := rest.takeWhile (· ≠ delimiter)
    if (x = 'x' ∨ x = 'X') ∧ component ≠ [] ∧ component.length < rest.length then
      (tryParseHex component).bind fun number =>
        if number < 16 ^ 8 then some (number, rest.drop (component.length + 1)) else none
    else none
  | _ => none

/-- The numbers of the bytes in the inner braces, the last one ended by a brace. -/
def byteComponents : Nat → List Char → Option (Nat × List Char)
  | 0, text => some (0, text)
  | n + 1, text => do
    let (byte, rest) ← hexComponent (if n = 0 then '}' else ',') text
    let (number, rest) ← byteComponents n rest
    if byte ≤ 255 then some (byte * 256 ^ n + number, rest) else none

/-- `{0x…,0x…,0x…,{0x…,…}}`. -/
def tryParseExactX (guid : List Char) : Option Nat :=
  match guid.filter (!isWhiteSpace ·) with
  | '{' :: text => do
    let (a, text) ← hexComponent ',' text
    let (b, text) ← hexComponent ',' text
    let (c, text) ← hexComponent ',' text
    match text with
    | '{' :: text =>
      let (bytes, rest) ← byteComponents 8 text
      if rest = ['}'] then
        some (((a * 16 ^ 4 + b % 16 ^ 4) * 16 ^ 4 + c % 16 ^ 4) * 16 ^ 16 + bytes)
      else none
    | _ => none
  | _ => none

/-- `Guid.TryParse`. -/
def tryParse (text : List Char) : Option TenantId :=
  let guid := trim text
  let number :=
    if guid.length < 32 then none
    else match guid.head? with
      | some '(' => tryParseExactP guid
      | some '{' => if guid[9]? = some '-' then tryParseExactB guid else tryParseExactX guid
      | _ => if guid[8]? = some '-' then tryParseExactD guid else tryParseExactN guid
  number.map (Fin.ofNat (2 ^ 128))

/-! ## What is written is read back -/

/-- A character of a `D` text. -/
def IsGuidChar (c : Char) : Prop := (value? c).isSome ∨ c = '-'

theorem value?_isSome_iff (c : Char) : (value? c).isSome = true ↔
    ('0' ≤ c ∧ c ≤ '9') ∨ ('a' ≤ c ∧ c ≤ 'f') ∨ ('A' ≤ c ∧ c ≤ 'F') := by
  unfold value?
  split
  · rename_i h
    exact iff_of_true rfl (Or.inl h)
  · rename_i h0
    split
    · rename_i h
      exact iff_of_true rfl (Or.inr (Or.inl h))
    · rename_i ha
      split
      · rename_i h
        exact iff_of_true rfl (Or.inr (Or.inr h))
      · rename_i hA
        refine iff_of_false (by simp) ?_
        intro h
        rcases h with h | h | h
        · exact h0 h
        · exact ha h
        · exact hA h

/-- No mark precedes plain digits. -/
theorem tryParseHex_of_digits {text : List Char} (h : ∀ c ∈ text, (value? c).isSome = true) :
    tryParseHex text = number? text := by
  have hpre : dropHexPrefix text = text := by
    unfold dropHexPrefix
    split
    · exact absurd (h 'x' (by simp)) (by decide)
    · exact absurd (h 'X' (by simp)) (by decide)
    · rfl
  unfold tryParseHex
  split
  · exact absurd (h '+' (by simp)) (by decide)
  · rw [hpre]

theorem tryParseHex_digits (n number : Nat) :
    tryParseHex (digits n number) = some (number % 16 ^ n) := by
  rw [tryParseHex_of_digits fun c hc => value?_isSome_of_mem_digits hc, number?_digits]

theorem digits_add (m n number : Nat) :
    digits (m + n) number = digits m (number / 16 ^ n) ++ digits n number := by
  induction n generalizing number with
  | zero => simp [digits]
  | succ n ih =>
    rw [← Nat.add_assoc, digits, ih, digits, List.append_assoc, Nat.div_div_eq_div_mul,
      Nat.pow_succ, Nat.mul_comm 16]

@[simp] theorem chars_length (id : TenantId) : id.chars.length = 36 := by
  simp [TenantId.chars]

theorem mem_chars {id : TenantId} {c : Char} (h : c ∈ id.chars) : IsGuidChar c := by
  simp only [TenantId.chars, List.mem_append, List.mem_cons] at h
  have hdigit : ∀ n number, c ∈ digits n number → IsGuidChar c :=
    fun n number hc => Or.inl (value?_isSome_of_mem_digits hc)
  rcases h with h | h | h | h | h | h | h | h | h
  · exact hdigit _ _ h
  · exact Or.inr h
  · exact hdigit _ _ h
  · exact Or.inr h
  · exact hdigit _ _ h
  · exact Or.inr h
  · exact hdigit _ _ h
  · exact Or.inr h
  · exact hdigit _ _ h

theorem IsGuidChar.toNat {c : Char} (h : IsGuidChar c) :
    45 ≤ c.toNat ∧ c.toNat ≤ 102 ∧ c.toNat ≠ 58 := by
  have hrange : ∀ {a b : Char}, a ≤ c ∧ c ≤ b → a.toNat ≤ c.toNat ∧ c.toNat ≤ b.toNat :=
    fun hab => ⟨UInt32.le_iff_toNat_le.mp hab.1, UInt32.le_iff_toNat_le.mp hab.2⟩
  unfold IsGuidChar at h
  rw [value?_isSome_iff] at h
  rcases h with (h | h | h) | rfl
  · have := hrange h
    simp only [Char.reduceToNat] at this
    omega
  · have := hrange h
    simp only [Char.reduceToNat] at this
    omega
  · have := hrange h
    simp only [Char.reduceToNat] at this
    omega
  · decide

theorem IsGuidChar.not_isWhiteSpace {c : Char} (h : IsGuidChar c) : isWhiteSpace c = false := by
  have hrange := h.toNat
  simp only [isWhiteSpace, Bool.or_eq_false_iff, Bool.and_eq_false_iff, decide_eq_false_iff_not]
  omega

theorem trim_chars (id : TenantId) : trim id.chars = id.chars := by
  have hdrop : ∀ text : List Char, (∀ c ∈ text, isWhiteSpace c = false) →
      text.dropWhile isWhiteSpace = text := by
    intro text htext
    cases text with
    | nil => rfl
    | cons c rest => rw [List.dropWhile_cons, htext c List.mem_cons_self]; rfl
  have hall : ∀ c ∈ id.chars, isWhiteSpace c = false := fun c hc => (mem_chars hc).not_isWhiteSpace
  rw [trim, hdrop _ hall, hdrop _ fun c hc => hall c (List.mem_reverse.mp hc), List.reverse_reverse]

section Components

variable {a b c d e f : List Char} (ha : a.length = 8) (hb : b.length = 4) (hc : c.length = 4)
  (hd : d.length = 4) (he : e.length = 4) (hf : f.length = 8)

include ha hb hc hd he hf

/-- A text of six components is taken apart again. -/
theorem tryParseExactD_components :
    tryParseExactD (a ++ '-' :: (b ++ '-' :: (c ++ '-' :: (d ++ '-' :: (e ++ f))))) = (do
      let a ← tryParseHex a
      let b ← tryParseHex b
      let c ← tryParseHex c
      let de ← tryParseHex d
      let fg ← tryParseHex e
      let hijk ← number? f
      some (((((a * 16 ^ 4 + b) * 16 ^ 4 + c) * 16 ^ 4 + de) * 16 ^ 4 + fg) * 16 ^ 8 + hijk)) := by
  have hdashes : (a ++ '-' :: (b ++ '-' :: (c ++ '-' :: (d ++ '-' :: (e ++ f))))).length = 36 := by
    simp only [List.length_append, List.length_cons, ha, hb, hc, hd, he, hf]
  rw [tryParseExactD, if_pos]
  · have htake : List.take 8 f = f := List.take_of_length_le (Nat.le_of_eq hf)
    simp [slice, List.drop_append, List.drop_of_length_le, ha, hb, hc, hd, he, htake]
  · refine ⟨hdashes, ?_, ?_, ?_, ?_⟩
    all_goals simp [List.getElem?_append, ha, hb, hc, hd]

end Components

theorem tryParseExactD_chars (id : TenantId) : tryParseExactD id.chars = some id.val := by
  have hlast : digits 12 id.val = digits 4 (id.val / 16 ^ 8) ++ digits 8 id.val :=
    digits_add 4 8 id.val
  rw [TenantId.chars, hlast, tryParseExactD_components (digits_length _ _) (digits_length _ _)
    (digits_length _ _) (digits_length _ _) (digits_length _ _) (digits_length _ _)]
  simp only [tryParseHex_digits, number?_digits, Option.bind_eq_bind, Option.bind_some,
    Option.some.injEq]
  have hid := id.isLt
  omega

/-- The text of a tenant's id is read as that id. -/
theorem tryParse_chars (id : TenantId) : tryParse id.chars = some id := by
  have hdash : id.chars[8]? = some '-' := by
    simp [TenantId.chars]
  have hnumber : (if id.chars.length < 32 then none
      else match id.chars.head? with
        | some '(' => tryParseExactP id.chars
        | some '{' =>
          if id.chars[9]? = some '-' then tryParseExactB id.chars else tryParseExactX id.chars
        | _ => if id.chars[8]? = some '-' then tryParseExactD id.chars
          else tryParseExactN id.chars) = some id.val := by
    rw [if_neg (by rw [chars_length]; decide)]
    split
    · rename_i hhead
      exact absurd (mem_chars (List.mem_of_mem_head? hhead)).toNat (by decide)
    · rename_i hhead
      exact absurd (mem_chars (List.mem_of_mem_head? hhead)).toNat (by decide)
    · rw [if_pos hdash, tryParseExactD_chars]
  rw [tryParse, trim_chars]
  simp only [hnumber, Option.map_some, Option.some.injEq]
  exact Fin.ofNat_val_eq_self id

theorem chars_injective : Function.Injective TenantId.chars := by
  intro a b h
  have hread := tryParse_chars a
  rw [h, tryParse_chars b, Option.some.injEq] at hread
  exact hread.symm

end Wallow.Api
