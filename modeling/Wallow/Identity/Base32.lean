import Wallow.Identity.Mfa
import Wallow.Lib.BitStream

/-!
# The base32 text of a secret

`ToBase32` and `FromBase32` of `MfaService.cs`, on the 32-bit buffer they shift and never clear.
-/

namespace Wallow.Identity.MfaService

open BitStream

/-- `alphabet[index]`. -/
def letter (index : Nat) : Char := BASE32_ALPHABET.getD index ' '

/-- The `while` of `ToBase32`: what it appends, and the bits it leaves. -/
def drain (buffer : BitVec 32) (bitsLeft : Nat) : List Char × Nat :=
  if 5 ≤ bitsLeft then
    let bitsLeft := bitsLeft - 5
    let (result, left) := drain buffer bitsLeft
    (letter (buffer.sshiftRight bitsLeft &&& 0x1F#32).toNat :: result, left)
  else ([], bitsLeft)

def toBase32Loop (buffer : BitVec 32) (bitsLeft : Nat) : List (BitVec 8) → List Char
  | [] =>
    if 0 < bitsLeft then [letter (buffer <<< (5 - bitsLeft) &&& 0x1F#32).toNat] else []
  | b :: rest =>
    let buffer := buffer <<< 8 ||| b.setWidth 32
    let (result, bitsLeft) := drain buffer (bitsLeft + 8)
    result ++ toBase32Loop buffer bitsLeft rest

def toBase32 (data : List (BitVec 8)) : String := String.ofList (toBase32Loop 0 0 data)

/-- The loop of `FromBase32` on its machine integer; `none` is its `FormatException`. -/
def fromBase32Loop (buffer : BitVec 32) (bitsLeft : Nat) : List Char → Option (List (BitVec 8))
  | [] => some []
  | c :: rest =>
    match BASE32_ALPHABET.idxOf? c with
    | none => none
    | some value =>
      let buffer := buffer <<< 5 ||| BitVec.ofNat 32 value
      let bitsLeft := bitsLeft + 5
      if 8 ≤ bitsLeft then
        let bitsLeft := bitsLeft - 8
        (fromBase32Loop buffer bitsLeft rest).map
          ((buffer.sshiftRight bitsLeft).setWidth 8 :: ·)
      else fromBase32Loop buffer bitsLeft rest

def fromBase32 (base32 : String) : Option (List (BitVec 8)) :=
  let trimmed := (base32.toList.reverse.dropWhile (· = '=')).reverse
  fromBase32Loop 0 0 (trimmed.map Char.toUpper)

/-! ## The encoding of RFC 4648 -/

/-- The bits of the bytes, each from its highest. -/
def byteBits (bytes : List (BitVec 8)) : List Bool :=
  bytes.flatMap fun b => takeBits b.getLsbD 8

/-- One group of at most 40 bits: a letter for every five of them, zeros for the bits the last one
lacks, and padding up to eight characters. -/
def quantum (bytes : List (BitVec 8)) : List Char :=
  let letters := (digits 5 (byteBits bytes)).map letter
  letters ++ List.replicate (8 - letters.length) '='

/-- The encoding, group after group of five bytes. -/
def rfc4648 (bytes : List (BitVec 8)) : List Char :=
  if bytes = [] then [] else quantum (bytes.take 5) ++ rfc4648 (bytes.drop 5)
termination_by bytes.length
decreasing_by
  rename_i h
  have hpos := List.length_pos_of_ne_nil h
  rw [List.length_drop]
  omega

/-! ## The buffer -/

/-- What is shifted into the buffer stands behind what was in it. -/
theorem takeBits_push {k l : Nat} (x : BitVec 32) {y : BitVec 32}
    (hy : ∀ i, k ≤ i → y.getLsbD i = false) (h : l + k ≤ 32) :
    takeBits (x <<< k ||| y).getLsbD (l + k) =
      takeBits x.getLsbD l ++ takeBits y.getLsbD k := by
  rw [takeBits_add]
  congr 1
  · apply takeBits_congr
    intro i hi
    have hlt : i + k < 32 := by omega
    have hge : ¬i + k < k := by omega
    rw [BitVec.getLsbD_or, BitVec.getLsbD_shiftLeft, hy (i + k) (Nat.le_add_left k i),
      Nat.add_sub_cancel, decide_eq_true hlt, decide_eq_false hge, Bool.or_false]
    rfl
  · apply takeBits_congr
    intro i hi
    rw [BitVec.getLsbD_or, BitVec.getLsbD_shiftLeft, decide_eq_true hi, Bool.not_true,
      Bool.and_false, Bool.false_and, Bool.false_or]

/-- The bits of a signed shift, as long as the sign is not shifted in among them. -/
theorem takeBits_sshiftRight {k w : Nat} (x : BitVec 32) (h : w + k ≤ 32) :
    takeBits (x.sshiftRight k).getLsbD w = takeBits (fun i => x.getLsbD (i + k)) w := by
  apply takeBits_congr
  intro i hi
  have hlow : ¬32 ≤ i := by omega
  have hin : k + i < 32 := by omega
  rw [BitVec.getLsbD_sshiftRight, decide_eq_false hlow, if_pos hin, Nat.add_comm k i]
  rfl

theorem toNat_and_mask (x : BitVec 32) : (x &&& 0x1F#32).toNat = ofBits (takeBits x.getLsbD 5) := by
  apply Nat.eq_of_testBit_eq
  intro i
  have hmask : (0x1F#32).toNat.testBit i = decide (i < 5) := Nat.testBit_two_pow_sub_one 5 i
  rw [testBit_ofBits_takeBits, BitVec.toNat_and, Nat.testBit_and, hmask, Bool.and_comm]
  rfl

theorem toNat_setWidth_byte (x : BitVec 32) :
    (x.setWidth 8).toNat = ofBits (takeBits x.getLsbD 8) := by
  apply Nat.eq_of_testBit_eq
  intro i
  rw [testBit_ofBits_takeBits, BitVec.testBit_toNat, BitVec.getLsbD_setWidth]

/-- The pending bits without the highest `w` of them. -/
theorem takeBits_pending {w l : Nat} (x : BitVec 32) (hw : w ≤ l) (h : l ≤ 32) :
    takeBits x.getLsbD l =
      takeBits (x.sshiftRight (l - w)).getLsbD w ++ takeBits x.getLsbD (l - w) := by
  have hadd : w + (l - w) = l := by omega
  have hsplit := takeBits_add x.getLsbD w (l - w)
  rw [hadd] at hsplit
  rw [hsplit, takeBits_sshiftRight x (by omega)]

/-! ## Encoding -/

/-- The inner loop takes the pending bits by fives. -/
theorem drain_spec (buffer : BitVec 32) (bitsLeft : Nat) (h : bitsLeft ≤ 32) :
    (drain buffer bitsLeft).2 < 5 ∧ ∀ rest,
      (digits 5 (takeBits buffer.getLsbD bitsLeft ++ rest)).map letter =
        (drain buffer bitsLeft).1 ++
          (digits 5 (takeBits buffer.getLsbD (drain buffer bitsLeft).2 ++ rest)).map letter := by
  induction bitsLeft using Nat.strongRecOn with
  | ind bitsLeft ih =>
    rw [drain]
    by_cases hfive : 5 ≤ bitsLeft
    · obtain ⟨hleft, hrest⟩ := ih (bitsLeft - 5) (by omega) (by omega)
      rw [if_pos hfive]
      refine ⟨hleft, fun rest => ?_⟩
      rw [takeBits_pending buffer hfive h, List.append_assoc,
        digits_append (by decide) (length_takeBits _ _), List.map_cons, hrest rest,
        ← toNat_and_mask]
      rfl
    · rw [if_neg hfive]
      exact ⟨Nat.not_le.mp hfive, fun rest => (List.nil_append _).symm⟩

theorem takeBits_false (k : Nat) : takeBits (0#32).getLsbD k = List.replicate k false := by
  induction k with
  | zero => rfl
  | succ k ih => rw [takeBits, ih, BitVec.getLsbD_zero, List.replicate_succ]

/-- The letters are those of the pending bits and of the bytes to come. -/
theorem toBase32Loop_eq (data : List (BitVec 8)) {buffer : BitVec 32} {bitsLeft : Nat}
    (h : bitsLeft < 5) :
    toBase32Loop buffer bitsLeft data =
      (digits 5 (takeBits buffer.getLsbD bitsLeft ++ byteBits data)).map letter := by
  induction data generalizing buffer bitsLeft with
  | nil =>
    rw [toBase32Loop, byteBits, List.flatMap_nil, List.append_nil]
    by_cases hpos : 0 < bitsLeft
    · have hlength := length_takeBits buffer.getLsbD bitsLeft
      have hne : takeBits buffer.getLsbD bitsLeft ≠ [] := by
        intro hnil
        rw [hnil] at hlength
        exact absurd hlength (Nat.ne_of_lt hpos)
      have hpush := takeBits_push (k := 5 - bitsLeft) (l := bitsLeft) buffer (y := 0#32)
        (fun i _ => BitVec.getLsbD_zero) (by omega)
      have hfive : bitsLeft + (5 - bitsLeft) = 5 := by omega
      rw [hfive, BitVec.or_zero, takeBits_false] at hpush
      rw [if_pos hpos, digits_of_short hne (by rw [hlength]; exact h), hlength, toNat_and_mask,
        hpush]
      rfl
    · have hzero : bitsLeft = 0 := by omega
      rw [if_neg hpos, hzero, takeBits, digits_nil]
      rfl
  | cons b rest ih =>
    have hbyte : ∀ i, 8 ≤ i → (b.setWidth 32).getLsbD i = false := by
      intro i hi
      rw [BitVec.getLsbD_setWidth, BitVec.getLsbD_of_ge b i hi, Bool.and_false]
    have hsame : takeBits (b.setWidth 32).getLsbD 8 = takeBits b.getLsbD 8 := by
      apply takeBits_congr
      intro i hi
      rw [BitVec.getLsbD_setWidth, decide_eq_true (by omega : i < 32), Bool.true_and]
    have hpush := takeBits_push (l := bitsLeft) buffer hbyte (by omega)
    rw [hsame] at hpush
    obtain ⟨hleft, hdrain⟩ :=
      drain_spec (buffer <<< 8 ||| b.setWidth 32) (bitsLeft + 8) (by omega)
    have hrest := hdrain (byteBits rest)
    rw [hpush, List.append_assoc] at hrest
    show _ ++ toBase32Loop _ _ rest =
      (digits 5 (_ ++ (takeBits b.getLsbD 8 ++ byteBits rest))).map _
    rw [hrest, ih hleft]

theorem length_byteBits (bytes : List (BitVec 8)) : (byteBits bytes).length = 8 * bytes.length := by
  induction bytes with
  | nil => rfl
  | cons b rest ih =>
    rw [byteBits, List.flatMap_cons, List.length_append, length_takeBits, List.length_cons]
    rw [byteBits] at ih
    rw [ih]
    omega

theorem letter_spec (v : Fin 32) : BASE32_ALPHABET.idxOf? (letter v.val) = some v.val ∧
    letter v.val ≠ '=' ∧ (letter v.val).toUpper = letter v.val := by
  revert v
  decide +kernel

/-- The letters of a stream, none of which is padding. -/
theorem letters_ne_padding (bits : List Bool) :
    ∀ c ∈ (digits 5 bits).map letter, c ≠ '=' ∧ c.toUpper = c := by
  intro c hc
  obtain ⟨digit, hdigit, rfl⟩ := List.mem_map.mp hc
  exact (letter_spec ⟨digit, digits_lt bits digit hdigit⟩).2

/-- Group after group, and all at once. -/
theorem rfc4648_without_padding (bytes : List (BitVec 8)) :
    (rfc4648 bytes).filter (· ≠ '=') = (digits 5 (byteBits bytes)).map letter := by
  induction bytes using rfc4648.induct with
  | case1 =>
    rw [rfc4648, if_pos rfl, byteBits, List.flatMap_nil, digits_nil]
    rfl
  | case2 bytes hne ih =>
    have hquantum : (quantum (bytes.take 5)).filter (· ≠ '=') =
        (digits 5 (byteBits (bytes.take 5))).map letter := by
      have hpadding : ∀ n, (List.replicate n '=').filter (· ≠ '=') = [] := by
        intro n
        exact List.filter_eq_nil_iff.mpr fun c hc => by
          rw [List.eq_of_mem_replicate hc]
          decide
      unfold quantum
      dsimp only
      rw [List.filter_append, hpadding, List.append_nil]
      exact List.filter_eq_self.mpr fun c hc => decide_eq_true (letters_ne_padding _ c hc).1
    rw [rfc4648, if_neg hne, List.filter_append, hquantum, ih, ← List.map_append]
    congr 1
    by_cases hlong : 5 ≤ bytes.length
    · -- a group of forty bits ends where a letter does
      have hdvd : 5 ∣ (byteBits (bytes.take 5)).length := by
        rw [length_byteBits, List.length_take, Nat.min_eq_left hlong]
        exact ⟨8, rfl⟩
      have hsplit : byteBits bytes = byteBits (bytes.take 5) ++ byteBits (bytes.drop 5) := by
        rw [byteBits, byteBits, byteBits, ← List.flatMap_append, List.take_append_drop]
      rw [hsplit, digits_append_of_dvd hdvd]
    · have hle : bytes.length ≤ 5 := by omega
      rw [List.take_of_length_le hle, List.drop_eq_nil_of_le hle]
      rw [show byteBits [] = [] from rfl, digits_nil, List.append_nil]

/-! ## Decoding -/

/-- What the letters stand for, `none` where a character is no letter. -/
def values? (text : List Char) : Option (List Nat) := text.mapM fun c => BASE32_ALPHABET.idxOf? c

def valueBits (values : List Nat) : List Bool := values.flatMap fun v => takeBits v.testBit 5

theorem values?_cons (c : Char) (rest : List Char) : values? (c :: rest) =
    (BASE32_ALPHABET.idxOf? c).bind fun value => (values? rest).map (value :: ·) := by
  unfold values?
  rw [List.mapM_cons]
  cases BASE32_ALPHABET.idxOf? c with
  | none => rfl
  | some value => cases List.mapM (fun c => BASE32_ALPHABET.idxOf? c) rest <;> rfl

theorem lt_of_idxOf? {c : Char} {value : Nat} (h : BASE32_ALPHABET.idxOf? c = some value) :
    value < 32 := by
  have hlength : BASE32_ALPHABET.length = 32 := by decide +kernel
  exact hlength ▸ (List.idxOf?_eq_some_iff.mp h).1

/-- The bytes are those of the pending bits and of the letters to come. -/
theorem fromBase32Loop_eq (text : List Char) {buffer : BitVec 32} {bitsLeft : Nat}
    (h : bitsLeft < 8) : fromBase32Loop buffer bitsLeft text =
      (values? text).map fun values =>
        (wholeDigits 8 (takeBits buffer.getLsbD bitsLeft ++ valueBits values)).map
          (BitVec.ofNat 8) := by
  induction text generalizing buffer bitsLeft with
  | nil =>
    have hshort : (takeBits buffer.getLsbD bitsLeft ++ valueBits []).length < 8 := by
      rw [valueBits, List.flatMap_nil, List.append_nil, length_takeBits]
      exact h
    show some [] = some ((wholeDigits 8 (_ ++ valueBits [])).map _)
    rw [wholeDigits_of_short hshort]
    rfl
  | cons c rest ih =>
    rw [fromBase32Loop, values?_cons]
    cases hvalue : BASE32_ALPHABET.idxOf? c with
    | none => rfl
    | some value =>
      have hlt := lt_of_idxOf? hvalue
      have hhigh : ∀ i, 5 ≤ i → (BitVec.ofNat 32 value).getLsbD i = false := by
        intro i hi
        have hbit : value.testBit i = false := Nat.testBit_lt_two_pow
          (hlt.trans_le (Nat.pow_le_pow_right Nat.two_pos hi : 2 ^ 5 ≤ 2 ^ i))
        rw [BitVec.getLsbD_ofNat, hbit, Bool.and_false]
      have hsame : takeBits (BitVec.ofNat 32 value).getLsbD 5 = takeBits value.testBit 5 := by
        apply takeBits_congr
        intro i hi
        rw [BitVec.getLsbD_ofNat, decide_eq_true (by omega : i < 32), Bool.true_and]
      have hpush := takeBits_push (l := bitsLeft) buffer hhigh (by omega)
      rw [hsame] at hpush
      have hbits : ∀ values, takeBits buffer.getLsbD bitsLeft ++ valueBits (value :: values) =
          takeBits (buffer <<< 5 ||| BitVec.ofNat 32 value).getLsbD (bitsLeft + 5) ++
            valueBits values := by
        intro values
        rw [hpush, List.append_assoc]
        rfl
      simp only [Option.bind_some, Option.map_map, Function.comp_def, hbits]
      by_cases hbyte : 8 ≤ bitsLeft + 5
      · rw [if_pos hbyte, ih (by omega), Option.map_map]
        congr 1
        funext values
        rw [takeBits_pending _ hbyte (by omega), List.append_assoc,
          wholeDigits_append (by decide) (length_takeBits _ _), List.map_cons,
          ← toNat_setWidth_byte, BitVec.ofNat_toNat, BitVec.setWidth_eq]
        rfl
      · rw [if_neg hbyte]
        exact ih (by omega)

theorem trimmed_of_letters {text : List Char} (h : ∀ c ∈ text, c ≠ '=') :
    (text.reverse.dropWhile (· = '=')).reverse = text := by
  have hdrop : text.reverse.dropWhile (· = '=') = text.reverse := by
    cases hreverse : text.reverse with
    | nil => rfl
    | cons c rest =>
      have hmem : c ∈ text := List.mem_reverse.mp (hreverse ▸ List.mem_cons_self)
      exact List.dropWhile_cons_of_neg (fun heq => h c hmem (of_decide_eq_true heq))
  rw [hdrop, List.reverse_reverse]

theorem values?_letters {digits : List Nat} (h : ∀ digit ∈ digits, digit < 32) :
    values? (digits.map letter) = some digits := by
  induction digits with
  | nil => rfl
  | cons digit rest ih =>
    rw [List.map_cons, values?_cons, (letter_spec ⟨digit, h digit List.mem_cons_self⟩).1,
      Option.bind_some, ih fun d hd => h d (List.mem_cons_of_mem _ hd)]
    rfl

/-- Secrets of any length: the text is the encoding without its padding, and reads back. -/
theorem toBase32_roundTrip (bs : List (BitVec 8)) :
    (toBase32 bs).toList = (rfc4648 bs).filter (· ≠ '=') ∧
      fromBase32 (toBase32 bs) = some bs := by
  have hloop : toBase32Loop 0 0 bs = (digits 5 (byteBits bs)).map letter :=
    toBase32Loop_eq bs (by decide)
  have htext : (toBase32 bs).toList = (digits 5 (byteBits bs)).map letter := by
    rw [toBase32, String.toList_ofList, hloop]
  refine ⟨by rw [htext, rfc4648_without_padding], ?_⟩
  have hletters := letters_ne_padding (byteBits bs)
  have hupper : ((digits 5 (byteBits bs)).map letter).map Char.toUpper =
      (digits 5 (byteBits bs)).map letter := by
    conv_rhs => rw [← List.map_id ((digits 5 (byteBits bs)).map letter)]
    exact List.map_congr_left fun c hc => (hletters c hc).2
  obtain ⟨fill, hfill, hbits⟩ := flatMap_digits (by decide : 0 < 5) (byteBits bs)
  have hnumbers : byteBits bs =
      (bs.map BitVec.toNat).flatMap fun n => takeBits n.testBit 8 := by
    rw [List.flatMap_map]
    rfl
  have hbytes : ∀ n ∈ bs.map BitVec.toNat, n < 2 ^ 8 := by
    intro n hn
    obtain ⟨b, -, rfl⟩ := List.mem_map.mp hn
    exact b.isLt
  have hwhole : wholeDigits 8 (valueBits (digits 5 (byteBits bs))) = bs.map BitVec.toNat := by
    rw [valueBits, hbits, hnumbers]
    exact wholeDigits_flatMap hbytes (by rw [List.length_replicate]; omega)
  unfold fromBase32
  dsimp only
  rw [htext, trimmed_of_letters fun c hc => (hletters c hc).1, hupper,
    fromBase32Loop_eq _ (by decide), values?_letters (digits_lt (byteBits bs)), Option.map_some,
    takeBits, List.nil_append, hwhole, List.map_map]
  congr 1
  conv_rhs => rw [← List.map_id bs]
  exact List.map_congr_left fun b _ => by
    rw [Function.comp_apply, BitVec.ofNat_toNat, BitVec.setWidth_eq]
    rfl

end Wallow.Identity.MfaService
