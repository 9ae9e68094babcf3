import Wallow.Lib.JsValues
import Wallow.Lib.Pattern
import Wallow.Lib.WebUrl

/-!
# Texts in telemetry

What `text` makes of a string before it leaves a process: addresses of people and of machines,
credentials and tokens are replaced, and of a URL the origin and the path stay.
-/

namespace Wallow.Telemetry

open Pattern

namespace LIMITS

def valueBytes : Nat := 1024
def attributes : Nat := 32
def depth : Nat := 5
def nodes : Nat := 256
def identityLength : Nat := 128

end LIMITS

namespace Privacy

/-! ## Classes of characters -/

/-- The simple case folding, as far as it leads to a letter of ASCII. -/
def fold (c : Char) : Char :=
  if c.toNat = 0x17F then 's' else if c.toNat = 0x212A then 'k' else c.toLower

def isLetter (c : Char) : Bool := 'a' ≤ c && c ≤ 'z'

def isWord (c : Char) : Bool := c.isAlphanum || c = '_'

/-- With the flag `i`. -/
def isFoldedWord (c : Char) : Bool := isWord (fold c)

/-- `\s`. -/
def isSpace (c : Char) : Bool :=
  let n := c.toNat
  (9 ≤ n && n ≤ 13) || n = 0x20 || n = 0xA0 || n = 0x1680 || (0x2000 ≤ n && n ≤ 0x200A) ||
    n = 0x2028 || n = 0x2029 || n = 0x202F || n = 0x205F || n = 0x3000 || n = 0xFEFF

def isHex (c : Char) : Bool := ('a' ≤ c && c ≤ 'f') || c.isDigit

def isMailbox (c : Char) : Bool := isFoldedWord c || c = '.' || c = '+' || c = '-'

def isMailHost (c : Char) : Bool := isFoldedWord c || c = '.' || c = '-'

def isUrlChar (c : Char) : Bool :=
  !isSpace c && c ≠ '<' && c ≠ '>' && c ≠ '"' && c ≠ '\''

def isHexPart (c : Char) : Bool := isHex (fold c) || c = ':' || c = '.'

def isWordOrColon (c : Char) : Bool := isFoldedWord c || c = ':'

def isTokenChar (c : Char) : Bool := isWord c || c = '-'

/-! ## The patterns -/

/-- The text of a pattern with the flag `i`. -/
def folded (text : String) : Pattern := literal (text.toList.map fun l c => fold c = l)

def exactly (text : String) : Pattern := literal (text.toList.map fun l c => c = l)

def emailAddress : Pattern :=
  seq (many 1 (some 64) (one isMailbox)) (seq (exactly "@")
    (seq (many 1 none (one isMailHost)) (seq (exactly ".")
      (many 2 none (one fun c => isLetter (fold c))))))

def webAddress : Pattern :=
  seq (folded "http") (seq (many 0 (some 1) (folded "s"))
    (seq (exactly "://") (many 1 none (one isUrlChar))))

def ipv4Address : Pattern :=
  seq (boundary isWord) (seq (many 3 (some 3) (seq (many 1 (some 3) (one Char.isDigit))
    (exactly "."))) (seq (many 1 (some 3) (one Char.isDigit)) (boundary isWord)))

def ipv6Address : Pattern :=
  seq (notBehind isWordOrColon)
    (seq (many 2 none (seq (many 0 (some 4) (one fun c => isHex (fold c))) (exactly ":")))
      (seq (many 0 (some 39) (one isHexPart)) (notAhead isWordOrColon)))

def bearerCredential : Pattern :=
  seq (boundary isFoldedWord) (seq (alt (folded "bearer") (folded "basic"))
    (seq (many 1 none (one isSpace)) (many 1 none (one fun c => !isSpace c))))

def jsonWebToken : Pattern :=
  seq (boundary isWord) (seq (exactly "eyJ") (seq (many 1 none (one isTokenChar))
    (seq (exactly ".") (seq (many 1 none (one isTokenChar)) (seq (exactly ".")
      (seq (many 1 none (one isTokenChar)) (boundary isWord)))))))

/-! ## Rewriting -/

def redacted (_ : List Char) : List Char := "[redacted]".toList

/-- The host is an IPv6 address, or what the pattern of IPv4 addresses takes for one. -/
def isAddress (hostname : List Char) : Bool :=
  hostname.contains ':' ||
    (ends (seq (many 3 (some 3) (seq (many 1 (some 3) (one Char.isDigit)) (exactly ".")))
      (many 1 (some 3) (one Char.isDigit))) none hostname).any (·.2.isEmpty)

/-- Remove URL credentials, query strings and fragments; retain an HTTP origin and path. -/
def sanitizeUrl (hosts : WebUrl.HostParser) (value : List Char) : List Char :=
  match WebUrl.parse hosts value none with
  | some url =>
    (if isAddress url.host then url.scheme.text ++ "://[redacted]".toList else url.originText) ++
      url.pathname
  | none => "[redacted]".toList

def byteLength (text : List Char) : Nat := (String.ofList text).utf8ByteSize

section

variable (hosts : WebUrl.HostParser)

/-- The passes over the text, one after the other. -/
def scrub (value : List Char) : List Char :=
  let withoutEmail :=
    if value.contains '@' then replaceAll emailAddress redacted value else value
  let withoutUrl := replaceAll webAddress (sanitizeUrl hosts) withoutEmail
  let withoutIpv4 := replaceAll ipv4Address redacted withoutUrl
  let withoutIpv6 := replaceAll ipv6Address redacted withoutIpv4
  let withoutBearer := replaceAll bearerCredential redacted withoutIpv6
  replaceAll jsonWebToken redacted withoutBearer

def text (value : List Char) : List Char :=
  if LIMITS.valueBytes < Js.length value || LIMITS.valueBytes < byteLength value then
    "[oversize]".toList
  else
    let scrubbed := scrub hosts value
    if byteLength scrubbed ≤ LIMITS.valueBytes then scrubbed else "[oversize]".toList

end

/-! ## What stays -/

/-- A text of known characters that no pass finds anything in. -/
theorem text_eq_self (hosts : WebUrl.HostParser) {value : List Char}
    (hlength : Js.length value ≤ LIMITS.valueBytes) (hbytes : byteLength value ≤ LIMITS.valueBytes)
    (hemail : replaceAll emailAddress redacted value = value)
    (hurl : pieces webAddress value.length none value = value.map .kept)
    (hipv4 : replaceAll ipv4Address redacted value = value)
    (hipv6 : replaceAll ipv6Address redacted value = value)
    (hbearer : replaceAll bearerCredential redacted value = value)
    (htoken : replaceAll jsonWebToken redacted value = value) : text hosts value = value := by
  have hscrub : scrub hosts value = value := by
    rw [scrub, hemail, ite_self, replaceAll_eq_self _ hurl, hipv4, hipv6, hbearer, htoken]
  have hshort : ¬ (LIMITS.valueBytes < Js.length value || LIMITS.valueBytes < byteLength value) =
      true := by
    simp only [Bool.or_eq_true, decide_eq_true_iff]
    omega
  rw [text, if_neg hshort, hscrub, if_pos hbytes]

theorem text_redacted (hosts : WebUrl.HostParser) :
    text hosts "[redacted]".toList = "[redacted]".toList := by
  refine text_eq_self hosts ?_ ?_ ?_ ?_ ?_ ?_ ?_ ?_ <;> decide +kernel

theorem byteLength_text_le (hosts : WebUrl.HostParser) (value : List Char) :
    byteLength (text hosts value) ≤ LIMITS.valueBytes := by
  have hoversize : byteLength "[oversize]".toList ≤ LIMITS.valueBytes := by decide
  rw [text]
  split
  · exact hoversize
  · dsimp only
    split
    · rename_i hshort
      exact hshort
    · exact hoversize

/-! ## Names -/

def anyOf : List Pattern → Pattern
  | [] => literal []
  | [p] => p
  | p :: q :: rest => alt p (anyOf (q :: rest))

def excluded : Pattern :=
  anyOf [folded "name", folded "email", seq (folded "ip") (many 0 (some 1) (folded "address")),
    folded "body", folded "form", folded "cookie", folded "token", folded "secret",
    folded "password", folded "authorization", folded "baggage", folded "session", folded "user",
    folded "organization"]

/-- At the start of a key. -/
def identity : Pattern :=
  seq (anyOf [exactly "service", exactly "deployment", exactly "wallow"])
    (one fun c => c = '.' || c = '_')

def isExcluded (key : List Char) : Bool := test excluded key || !(ends identity none key).isEmpty

end Privacy

end Wallow.Telemetry
