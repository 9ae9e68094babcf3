import Wallow.Lib.SplitText
import Mathlib.Data.List.Infix

/-!
# Web URLs

The URL standard's parser, as far as it yields URLs of the schemes `http` and `https`.  Hosts are
kept as they are serialized, and the parser of hosts, with its tables, is a parameter.
-/

namespace WebUrl

open SplitText

/-! ## URLs -/

inductive Scheme
  | http
  | https
  deriving DecidableEq

def Scheme.text : Scheme → List Char
  | http => "http".toList
  | https => "https".toList

def Scheme.defaultPort : Scheme → Nat
  | http => 80
  | https => 443

/-- `port` is `none` for the default one. -/
structure Url where
  scheme : Scheme
  username : List Char
  password : List Char
  host : List Char
  port : Option Nat
  path : List (List Char)
  query : Option (List Char)
  fragment : Option (List Char)
  deriving DecidableEq

namespace Url

def origin (url : Url) : Scheme × List Char × Option Nat := (url.scheme, url.host, url.port)

def portText (url : Url) : List Char :=
  match url.port with
  | none => []
  | some port => ':' :: Nat.toDigits 10 port

/-- The serialization of the origin. -/
def originText (url : Url) : List Char :=
  url.scheme.text ++ "://".toList ++ url.host ++ url.portText

def pathname (url : Url) : List Char := url.path.flatMap ('/' :: ·)

/-- `""` for an empty query as well. -/
def search (url : Url) : List Char :=
  match url.query with
  | none => []
  | some query => if query = [] then [] else '?' :: query

def credentialsText (url : Url) : List Char :=
  if url.username = [] ∧ url.password = [] then []
  else url.username ++ (if url.password = [] then [] else ':' :: url.password) ++ ['@']

def href (url : Url) : List Char :=
  url.scheme.text ++ "://".toList ++ url.credentialsText ++ url.host ++ url.portText ++
    url.pathname ++ (url.query.elim [] ('?' :: ·)) ++ (url.fragment.elim [] ('#' :: ·))

end Url

/-! ## Percent-encoding -/

/-- One byte, in upper-case hexadecimal. -/
def percentByte (byte : UInt8) : List Char :=
  ['%', (Nat.digitChar (byte.toNat / 16)).toUpper, (Nat.digitChar (byte.toNat % 16)).toUpper]

def encode (set : Char → Bool) (c : Char) : List Char :=
  if set c then (String.utf8EncodeChar c).flatMap percentByte else [c]

/-- Controls, and what is not ASCII. -/
def controlSet (c : Char) : Bool := c.toNat < 0x20 || 0x7E < c.toNat

def fragmentSet (c : Char) : Bool := controlSet c || " \"<>`".toList.contains c

def querySet (c : Char) : Bool := controlSet c || " \"#<>".toList.contains c

/-- The set of queries in the schemes here. -/
def specialQuerySet (c : Char) : Bool := querySet c || c = '\''

def pathSet (c : Char) : Bool := querySet c || "?^`\x7b\x7d".toList.contains c

def userinfoSet (c : Char) : Bool := pathSet c || "/:;=@[\\]|".toList.contains c

/-! ## Paths -/

def isSlash (c : Char) : Bool := c = '/' || c = '\\'

/-- `.`, also encoded. -/
def isSingleDot (segment : List Char) : Bool :=
  let lower := segment.map Char.toLower
  lower = ".".toList || lower = "%2e".toList

/-- `..`, also encoded. -/
def isDoubleDot (segment : List Char) : Bool :=
  let lower := segment.map Char.toLower
  lower = "..".toList || lower = ".%2e".toList || lower = "%2e.".toList || lower = "%2e%2e".toList

/-- The end of a segment, at a slash or at the end of the path. -/
def endSegment (path : List (List Char)) (segment : List Char) (slash : Bool) :
    List (List Char) :=
  if isDoubleDot segment then path.dropLast ++ (if slash then [] else [[]])
  else if isSingleDot segment then path ++ (if slash then [] else [[]])
  else path ++ [segment]

/-- The query and the fragment after a question mark. -/
def queryState (text : List Char) : Option (List Char) × Option (List Char) :=
  (some ((text.takeWhile (· ≠ '#')).flatMap (encode specialQuerySet)),
    match text.dropWhile (· ≠ '#') with
    | [] => none
    | _ :: fragment => some (fragment.flatMap (encode fragmentSet)))

def pathState (path : List (List Char)) (segment : List Char) :
    List Char → List (List Char) × Option (List Char) × Option (List Char)
  | [] => (endSegment path segment false, none, none)
  | c :: rest =>
    if isSlash c then pathState (endSegment path segment true) [] rest
    else if c = '?' then (endSegment path segment false, queryState rest)
    else if c = '#' then
      (endSegment path segment false, none, some (rest.flatMap (encode fragmentSet)))
    else pathState path (segment ++ encode pathSet c) rest

/-! ## Hosts -/

/-- What no domain and no IPv4 address contains. -/
def isForbidden (c : Char) : Bool :=
  c.toNat ≤ 0x20 || c.toNat = 0x7F || "#/:<>?@[\\]^|%".toList.contains c

/-- A host as it is serialized. -/
inductive IsHost : List Char → Prop
  | name {host : List Char} (hne : host ≠ []) (h : ∀ c ∈ host, isForbidden c = false) : IsHost host
  | ipv6 {pieces : List Char} (h : ∀ c ∈ pieces, c = ':' ∨ isForbidden c = false) :
      IsHost ('[' :: (pieces ++ [']']))

/-- The parser of hosts, together with their serializer: what it yields is a host, and is parsed
as itself. -/
structure HostParser where
  parse : List Char → Option (List Char)
  isHost : ∀ text host, parse text = some host → IsHost host
  idempotent : ∀ text host, parse text = some host → parse host = some host

/-- The host, and what stands after a colon outside of brackets. -/
def splitPort (inside : Bool) : List Char → List Char × Option (List Char)
  | [] => ([], none)
  | c :: rest =>
    if c = ':' ∧ inside = false then ([], some rest)
    else
      let inside := if c = '[' then true else if c = ']' then false else inside
      let (host, port) := splitPort inside rest
      (c :: host, port)

def decimal (text : List Char) : Nat := Nat.ofDigitChars 10 text 0

/-- The port after the host; `none` where it is no port. -/
def portState (scheme : Scheme) : Option (List Char) → Option (Option Nat)
  | none => some none
  | some text =>
    if !text.all Char.isDigit then none
    else if text = [] then some none
    else if decimal text > 65535 then none
    else if decimal text = scheme.defaultPort then some none
    else some (some (decimal text))

/-! ## The parser -/

def endsAuthority (c : Char) : Bool := isSlash c || c = '?' || c = '#'

def pathStart (text : List Char) :
    List (List Char) × Option (List Char) × Option (List Char) :=
  match text with
  | [] => pathState [] [] []
  | c :: rest => if isSlash c then pathState [] [] rest else pathState [] [] (c :: rest)

/-- What follows the scheme, or the two slashes of a relative reference. -/
def authorityState (hosts : HostParser) (scheme : Scheme) (text : List Char) : Option Url :=
  let text := text.dropWhile isSlash
  let authority := text.takeWhile fun c => !endsAuthority c
  let rest := text.dropWhile fun c => !endsAuthority c
  let (credentials, hostPort) := (splitLast '@' authority).getD ([], authority)
  let (host, port) := splitPort false hostPort
  if host = [] then none
  else do
    let host ← hosts.parse host
    let port ← portState scheme port
    let (path, query, fragment) := pathStart rest
    some
      { scheme
        username := (credentials.takeWhile (· ≠ ':')).flatMap (encode userinfoSet)
        password := ((credentials.dropWhile (· ≠ ':')).drop 1).flatMap (encode userinfoSet)
        host, port, path, query, fragment }

/-- A reference without a scheme, against a base. -/
def relativeState (hosts : HostParser) (base : Url) (text : List Char) : Option Url :=
  match text with
  | [] => some { base with fragment := none }
  | c :: rest =>
    if isSlash c then
      match rest with
      | [] =>
        let (path, query, fragment) := pathState [] [] []
        some { base with path, query, fragment }
      | d :: rest' =>
        if isSlash d then authorityState hosts base.scheme rest'
        else
          let (path, query, fragment) := pathState [] [] (d :: rest')
          some { base with path, query, fragment }
    else if c = '?' then
      let (query, fragment) := queryState rest
      some { base with query, fragment }
    else if c = '#' then some { base with fragment := some (rest.flatMap (encode fragmentSet)) }
    else
      let (path, query, fragment) := pathState base.path.dropLast [] (c :: rest)
      some { base with path, query, fragment }

/-- Controls and spaces at the ends, and tabs and line ends everywhere, are dropped first. -/
def isControlOrSpace (c : Char) : Bool := c.toNat ≤ 0x20

def isTabOrNewline (c : Char) : Bool := c = '\t' || c = '\n' || c = '\r'

theorem isControl_of_isTabOrNewline {c : Char} (h : isTabOrNewline c = true) :
    isControlOrSpace c = true := by
  unfold isTabOrNewline at h
  rw [Bool.or_eq_true, Bool.or_eq_true, decide_eq_true_iff, decide_eq_true_iff,
    decide_eq_true_iff] at h
  rcases h with (rfl | rfl) | rfl <;> rfl

def strip (text : List Char) : List Char :=
  (((text.dropWhile isControlOrSpace).reverse.dropWhile isControlOrSpace).reverse).filter
    fun c => !isTabOrNewline c

def isSchemeChar (c : Char) : Bool := c.isAlphanum || c = '+' || c = '-' || c = '.'

/-- The scheme in front of a colon, in lower case, and what stands after it. -/
def scheme? (text : List Char) : Option (List Char × List Char) :=
  match text.head?, text.dropWhile isSchemeChar with
  | some c, ':' :: rest =>
    if c.isAlpha then some ((text.takeWhile isSchemeChar).map Char.toLower, rest) else none
  | _, _ => none

/-- The URL with a scheme of the two; `none` for every other text. -/
def schemeState (hosts : HostParser) (base : Option Url) (scheme : Scheme) (rest : List Char) :
    Option Url :=
  match base with
  | some url =>
    -- without both slashes, a reference in the base's own scheme is relative
    if url.scheme = scheme ∧ ¬"//".toList <+: rest then relativeState hosts url rest
    else authorityState hosts scheme rest
  | none => authorityState hosts scheme rest

/-- `new URL(text, base)`; `none` where it throws, or yields a URL of another scheme. -/
def parse (hosts : HostParser) (text : List Char) (base : Option Url) : Option Url :=
  let text := strip text
  match scheme? text with
  | some (scheme, rest) =>
    if scheme = "http".toList then schemeState hosts base .http rest
    else if scheme = "https".toList then schemeState hosts base .https rest
    else none
  | none => base.bind fun url => relativeState hosts url text

end WebUrl
