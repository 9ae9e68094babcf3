import Wallow.Lib.HexText
import Wallow.Lib.SplitText

/-!
# The query of a URL

A text is percent-encoded byte by byte in UTF-8; a query writes its pairs between ampersands, each
with an equals sign after the name.
-/

namespace QueryText

/-! ## Percent-encoding -/

/-- Letters, digits and `-._~`. -/
def isUnreserved (byte : UInt8) : Bool :=
  let c := Char.ofNat byte.toNat
  byte < 0x80 && (c.isAlphanum || c = '-' || c = '.' || c = '_' || c = '~')

def encodeByte (byte : UInt8) : List Char :=
  if isUnreserved byte then [Char.ofNat byte.toNat]
  else ['%', (HexText.digit (byte.toNat / 16)).toUpper, (HexText.digit (byte.toNat % 16)).toUpper]

def bytes (text : String) : List UInt8 := text.toByteArray.data.toList

def encode (text : String) : List Char := (bytes text).flatMap encodeByte

/-- A character that is not part of an escape; a plus sign is a space. -/
def literal (c : Char) : List UInt8 := if c = '+' then [0x20] else String.utf8EncodeChar c

/-- A percent sign that two digits do not follow stands for itself. -/
def decodeBytes : List Char → List UInt8
  | [] => []
  | c :: hi :: lo :: rest =>
    match if c = '%' then HexText.number? [hi, lo] else none with
    | some byte => UInt8.ofNat byte :: decodeBytes rest
    | none => literal c ++ decodeBytes (hi :: lo :: rest)
  | c :: rest => literal c ++ decodeBytes rest

/-- What is no UTF-8 stays as it is written. -/
def decode (text : List Char) : String :=
  (String.fromUTF8? ⟨(decodeBytes text).toArray⟩).getD (String.ofList text)

theorem decodeBytes_cons {c : Char} (h : c ≠ '%') (rest : List Char) :
    decodeBytes (c :: rest) = literal c ++ decodeBytes rest := by
  match rest with
  | [] => rfl
  | [_] => rfl
  | hi :: lo :: rest => rw [decodeBytes, if_neg h]

/-- The two digits of a byte are read as that byte. -/
theorem number?_escape (byte : UInt8) :
    HexText.number? [(HexText.digit (byte.toNat / 16)).toUpper,
      (HexText.digit (byte.toNat % 16)).toUpper] = some byte.toNat := by
  have hall : ∀ n : Fin 256, HexText.number? [(HexText.digit (n.val / 16)).toUpper,
      (HexText.digit (n.val % 16)).toUpper] = some n.val := by decide +kernel
  exact hall ⟨byte.toNat, byte.toNat_lt⟩

theorem unreserved_literal {byte : UInt8} (h : isUnreserved byte = true) :
    Char.ofNat byte.toNat ≠ '%' ∧ literal (Char.ofNat byte.toNat) = [byte] := by
  have hall : ∀ n : Fin 256, isUnreserved (UInt8.ofNat n.val) = true →
      Char.ofNat n.val ≠ '%' ∧ literal (Char.ofNat n.val) = [UInt8.ofNat n.val] := by
    decide +kernel
  have hbyte := hall ⟨byte.toNat, byte.toNat_lt⟩
  rw [UInt8.ofNat_toNat] at hbyte
  exact hbyte h

theorem decodeBytes_encodeByte (byte : UInt8) (rest : List Char) :
    decodeBytes (encodeByte byte ++ rest) = byte :: decodeBytes rest := by
  unfold encodeByte
  split
  · rename_i hplain
    have ⟨hne, hliteral⟩ := unreserved_literal hplain
    rw [List.singleton_append, decodeBytes_cons hne, hliteral]
    rfl
  · simp only [List.cons_append, List.nil_append]
    rw [decodeBytes, if_pos rfl, number?_escape]
    dsimp only
    rw [UInt8.ofNat_toNat]

theorem decodeBytes_encode (list : List UInt8) :
    decodeBytes (list.flatMap encodeByte) = list := by
  induction list with
  | nil => rfl
  | cons byte list ih => rw [List.flatMap_cons, decodeBytes_encodeByte, ih]

/-- A text is read back as it was. -/
theorem decode_encode (text : String) : decode (encode text) = text := by
  have hbytes : (⟨(decodeBytes (encode text)).toArray⟩ : ByteArray) = text.toByteArray := by
    rw [encode, decodeBytes_encode]
    rfl
  have htext : String.fromUTF8? text.toByteArray = some text :=
    dif_pos text.isValidUTF8
  rw [decode, hbytes, htext]
  rfl

/-- The separators of a query are escaped. -/
theorem not_mem_encode {c : Char} (h : c = '&' ∨ c = '=' ∨ c = '?' ∨ c = '#') (text : String) :
    c ∉ encode text := by
  have hall : ∀ n : Fin 256, (encodeByte (UInt8.ofNat n.val)).all
      (fun c => c ≠ '&' && c ≠ '=' && c ≠ '?' && c ≠ '#') = true := by
    decide +kernel
  intro hmem
  have ⟨byte, _, hbyte⟩ := List.mem_flatMap.mp hmem
  have hchars := hall ⟨byte.toNat, byte.toNat_lt⟩
  rw [UInt8.ofNat_toNat, List.all_eq_true] at hchars
  have hc := hchars c hbyte
  simp only [Bool.and_eq_true, decide_eq_true_eq] at hc
  grind

/-! ## Pairs -/

def writePair (pair : String × String) : List Char := encode pair.1 ++ '=' :: encode pair.2

def write (pairs : List (String × String)) : List Char :=
  ['&'].intercalate (pairs.map writePair)

/-- The name ends at the first equals sign. -/
def readPair (piece : List Char) : String × String :=
  (decode (piece.takeWhile (· ≠ '=')), decode (piece.dropWhile (· ≠ '=')).tail)

def read (query : List Char) : List (String × String) :=
  ((query.splitOn '&').filter (· ≠ [])).map readPair

theorem readPair_writePair (pair : String × String) : readPair (writePair pair) = pair := by
  have hname : ∀ c ∈ encode pair.1, decide (c ≠ '=') = true := by
    intro c hc
    have hne : c ≠ '=' := fun heq => not_mem_encode (.inr (.inl heq)) pair.1 hc
    exact decide_eq_true hne
  rw [readPair, writePair, List.takeWhile_append_of_pos hname, List.dropWhile_append_of_pos hname]
  rw [List.takeWhile_cons, List.dropWhile_cons]
  simp [decode_encode]

theorem read_write (pairs : List (String × String)) : read (write pairs) = pairs := by
  cases hpairs : pairs with
  | nil => rfl
  | cons pair rest =>
    have hne : pairs.map writePair ≠ [] := by simp [hpairs]
    have hplain : ∀ piece ∈ pairs.map writePair, '&' ∉ piece := by
      intro piece hpiece
      have ⟨pair, _, hpair⟩ := List.mem_map.mp hpiece
      rw [← hpair, writePair, List.mem_append, List.mem_cons, not_or, not_or]
      exact ⟨not_mem_encode (.inl rfl) _, by decide, not_mem_encode (.inl rfl) _⟩
    have hfilled : ∀ piece ∈ pairs.map writePair, decide (piece ≠ []) = true := by
      intro piece hpiece
      have ⟨pair, _, hpair⟩ := List.mem_map.mp hpiece
      rw [← hpair]
      simp [writePair]
    rw [← hpairs, read, write, List.splitOn_intercalate '&' hplain hne,
      List.filter_eq_self.mpr hfilled, List.map_map]
    calc
      pairs.map (readPair ∘ writePair) = pairs.map fun pair => pair :=
        List.map_congr_left fun pair _ => readPair_writePair pair
      _ = pairs := List.map_id' pairs

end QueryText
