import Wallow.Lib.SplitText

/-!
# JSON values and their text

JSON values as a program in memory has them, and the text `JSON.stringify` makes of them without
white space.  A number is the literal it is written as.
-/

inductive Json
  | null
  | bool (value : Bool)
  | number (literal : String)
  | string (value : String)
  | array (items : List Json)
  | object (fields : List (String × Json))

namespace Json

/-- The value of a key; `none` stands for `undefined`. -/
def get (value : Json) (key : String) : Option Json :=
  match value with
  | object fields => fields.lookup key
  | _ => none

def isObject : Json → Bool
  | object _ => true
  | _ => false

/-! ## Text -/

def hexDigit (n : Nat) : Char := "0123456789abcdef".toList.getD n '0'

/-- The quotation of one character. -/
def quoteChar (c : Char) : String :=
  if c.toNat = 0x22 then "\\\""
  else if c.toNat = 0x5C then "\\\\"
  else if c.toNat = 8 then "\\b"
  else if c.toNat = 9 then "\\t"
  else if c.toNat = 10 then "\\n"
  else if c.toNat = 12 then "\\f"
  else if c.toNat = 13 then "\\r"
  else if c.toNat < 0x20 then
    "\\u00" ++ String.ofList [hexDigit (c.toNat / 16), hexDigit (c.toNat % 16)]
  else String.ofList [c]

def quote (text : String) : String :=
  "\"" ++ String.join (text.toList.map quoteChar) ++ "\""

mutual

def stringify : Json → String
  | null => "null"
  | bool true => "true"
  | bool false => "false"
  | number literal => literal
  | string value => quote value
  | array items => "[" ++ stringifyItems items ++ "]"
  | object fields => "\x7b" ++ stringifyFields fields ++ "\x7d"

def stringifyItems : List Json → String
  | [] => ""
  | [value] => stringify value
  | value :: next :: rest => stringify value ++ "," ++ stringifyItems (next :: rest)

def stringifyFields : List (String × Json) → String
  | [] => ""
  | [(key, value)] => quote key ++ ":" ++ stringify value
  | (key, value) :: next :: rest =>
    quote key ++ ":" ++ stringify value ++ "," ++ stringifyFields (next :: rest)

end

/-- The length of the text in UTF-8. -/
def byteLength (value : Json) : Nat := value.stringify.utf8ByteSize

theorem utf8ByteSize_stringifyItems_replicate (value : Json) (n : Nat) :
    (stringifyItems (List.replicate (n + 1) value)).utf8ByteSize =
      (n + 1) * value.byteLength + n := by
  induction n with
  | zero => simp [stringifyItems, byteLength]
  | succ n ih =>
    rw [List.replicate_succ, List.replicate_succ, stringifyItems, ← List.replicate_succ,
      String.utf8ByteSize_append, String.utf8ByteSize_append, ih]
    have hcomma : (",").utf8ByteSize = 1 := by decide
    rw [hcomma, byteLength, Nat.succ_mul (n + 1)]
    omega

/-! ## Texts that can be told apart -/

/-- A character that stands for itself in a quotation. -/
def IsPlain (c : Char) : Prop := 0x20 ≤ c.toNat ∧ c.toNat ≠ 0x22 ∧ c.toNat ≠ 0x5C

theorem quoteChar_of_plain {c : Char} (h : IsPlain c) : quoteChar c = String.ofList [c] := by
  obtain ⟨hlow, hquote, hbackslash⟩ := h
  rw [quoteChar, if_neg hquote, if_neg hbackslash, if_neg (by omega), if_neg (by omega),
    if_neg (by omega), if_neg (by omega), if_neg (by omega), if_neg (by omega)]

theorem toList_quote_of_plain {text : String} (h : ∀ c ∈ text.toList, IsPlain c) :
    (quote text).toList = '"' :: (text.toList ++ ['"']) := by
  have hchars : ∀ chars : List Char, (∀ c ∈ chars, IsPlain c) →
      (String.join (chars.map quoteChar)).toList = chars := by
    intro chars hplain
    induction chars with
    | nil => rfl
    | cons c rest ih =>
      rw [List.map_cons, String.join_cons, String.toList_append,
        quoteChar_of_plain (hplain c List.mem_cons_self),
        ih fun d hd => hplain d (List.mem_cons_of_mem c hd)]
      simp
  rw [quote, String.toList_append, String.toList_append, hchars _ h]
  rfl

/-- Items whose texts have no comma can be read off the text of a list. -/
theorem stringifyItems_inj {xs ys : List Json} (hlength : xs.length = ys.length)
    (hxs : ∀ x ∈ xs, ',' ∉ x.stringify.toList) (hys : ∀ y ∈ ys, ',' ∉ y.stringify.toList)
    (h : stringifyItems xs = stringifyItems ys) : xs.map stringify = ys.map stringify := by
  induction xs generalizing ys with
  | nil =>
    rw [List.length_nil] at hlength
    rw [List.length_eq_zero_iff.mp hlength.symm]
  | cons x xs ih =>
    cases ys with
    | nil => cases hlength
    | cons y ys =>
      have hlength' : xs.length = ys.length := Nat.succ.inj hlength
      cases xs with
      | nil =>
        cases ys with
        | nil => rw [List.map_cons, List.map_cons, show stringify x = stringify y from h]
        | cons next' rest' => cases hlength'
      | cons next rest =>
        cases ys with
        | nil => cases hlength'
        | cons next' rest' =>
          -- the first comma ends the first item
          have htexts := congrArg String.toList h
          rw [stringifyItems, stringifyItems, String.toList_append, String.toList_append,
            String.toList_append, String.toList_append, List.append_assoc, List.append_assoc,
            show (",").toList = [','] from rfl, List.singleton_append,
            List.singleton_append] at htexts
          have hsplit := SplitText.append_sep_inj (hxs x List.mem_cons_self)
            (hys y List.mem_cons_self) htexts
          have hrest := ih hlength' (fun z hz => hxs z (List.mem_cons_of_mem x hz))
            (fun z hz => hys z (List.mem_cons_of_mem y hz)) (String.toList_inj.mp hsplit.2)
          rw [List.map_cons, List.map_cons (l := next' :: rest'), hrest,
            String.toList_inj.mp hsplit.1]

end Json
