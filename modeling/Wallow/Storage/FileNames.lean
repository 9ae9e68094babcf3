import Wallow.Lib.SplitText

/-!
# File names

The strings of the storage module are sequences of UTF-16 code units, which is what their length
and their slices count.  `FileNameSanitizer` makes a client's file name harmless.
-/

namespace Wallow.Storage

/-- A string: its UTF-16 code units. -/
abbrev Text := List UInt16

/-- A literal of the source; all of them are ASCII. -/
def text (literal : String) : Text :=
  literal.toList.map fun c => UInt16.ofNat c.toNat

def DOT : UInt16 := 0x2E
def SLASH : UInt16 := 0x2F
def COLON : UInt16 := 0x3A
def BACKSLASH : UInt16 := 0x5C
def UNDERSCORE : UInt16 := 0x5F

/-- `char.IsWhiteSpace`. -/
def isWhiteSpace (c : UInt16) : Bool :=
  (0x09 ≤ c && c ≤ 0x0D) || c = 0x20 || c = 0x85 || c = 0xA0 || c = 0x1680 ||
    (0x2000 ≤ c && c ≤ 0x200A) || c = 0x2028 || c = 0x2029 || c = 0x202F || c = 0x205F ||
    c = 0x3000

def isHighSurrogate (c : UInt16) : Bool := 0xD800 ≤ c && c ≤ 0xDBFF

def isLowSurrogate (c : UInt16) : Bool := 0xDC00 ≤ c && c ≤ 0xDFFF

def isNullOrWhiteSpace (name : Text) : Bool :=
  name.all isWhiteSpace

/-- `Trim` of the characters that meet a test. -/
def trimWhere (p : UInt16 → Bool) (name : Text) : Text :=
  ((name.dropWhile p).reverse.dropWhile p).reverse

def trim (name : Text) : Text :=
  trimWhere isWhiteSpace name

/-! ## `System.IO.Path`, on a host whose separator is the slash -/

def getFileName (path : Text) : Text :=
  match SplitText.splitLast SLASH path with
  | some (_, name) => name
  | none => path

/-- With its dot; a name that ends in a dot has none. -/
def getExtension (path : Text) : Text :=
  match SplitText.splitLast DOT (getFileName path) with
  | none | some (_, []) => []
  | some (_, extension) => DOT :: extension

def getFileNameWithoutExtension (path : Text) : Text :=
  match SplitText.splitLast DOT (getFileName path) with
  | some (stem, _) => stem
  | none => getFileName path

/-! ## `FileNameSanitizer` -/

namespace FileNameSanitizer

def MAX_FILE_NAME_LENGTH : Nat := 255

def defaultFileName : Text := text "unnamed"

/-- Control characters, quotes and semicolons. -/
def isDangerous (c : UInt16) : Bool :=
  c ≤ 0x1F || c = 0x7F || c = 0x22 || c = 0x3B

def isUnnamed (name : Text) : Bool :=
  isNullOrWhiteSpace name || name = [DOT] || name = [DOT, DOT]

/-- The extension is kept when it fits. -/
def shorten (name : Text) : Text :=
  let extension := getExtension name
  if MAX_FILE_NAME_LENGTH ≤ extension.length then name.take MAX_FILE_NAME_LENGTH
  else
    (getFileNameWithoutExtension name).take (MAX_FILE_NAME_LENGTH - extension.length) ++ extension

/-- `Path.GetInvalidFileNameChars` is the host's. -/
def sanitize (invalidFileNameChars : List UInt16) (fileName : Text) : Text :=
  if isNullOrWhiteSpace fileName then defaultFileName
  else
    -- names from Windows clients carry backslashes
    let name := getFileName (fileName.map fun c => if c = BACKSLASH then SLASH else c)
    if isUnnamed name then defaultFileName
    else
      -- dangerous characters go, invalid ones become underscores
      let name := trim ((name.filter fun c => !isDangerous c).map fun c =>
        if c ∈ invalidFileNameChars then UNDERSCORE else c)
      if isUnnamed name then defaultFileName
      else if MAX_FILE_NAME_LENGTH < name.length then shorten name
      else name

/-- Both separators and the characters a header could break on are gone. -/
example : sanitize [0, SLASH] (text "..\\a/b\";.txt ") = text "b.txt" := by decide

end FileNameSanitizer

end Wallow.Storage
