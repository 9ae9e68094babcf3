import Wallow.Lib.HexText
import Wallow.Lib.SplitText
import Mathlib.Data.String.Basic

/-!
# The client address

`client-address.ts`: the parsers of addresses and of trusted ranges, and the walk over the
`X-Forwarded-For` chain.  Text is a list of characters between the functions.
-/

namespace Wallow.Bff

open HexText SplitText

def IPV4_WIDTH : Nat := 32
def IPV6_WIDTH : Nat := 128
def IPV4_OCTETS : Nat := 4
def IPV6_GROUPS : Nat := 8
def IPV6_GROUP_DIGITS : Nat := 4
def OCTET_MAX : Nat := 255
def GROUP_MAX : Nat := 65535
def MAX_ELISION_HALVES : Nat := 2
def MIN_ELIDED_GROUPS : Nat := 1

/-- A parsed address. -/
structure Address where
  value : Nat
  width : Nat
  /-- The canonical text. -/
  text : String
  deriving DecidableEq

/-- One entry of the trusted-proxy list. -/
structure CidrBlock where
  network : Nat
  mask : Nat
  width : Nat
  deriving DecidableEq

abbrev TrustedProxies := List CidrBlock

def TRUST_NO_PROXIES : TrustedProxies := []

/-! ## Text -/

/-- White space and line terminators, as `trim` and `\s` take them. -/
def isSpace (c : Char) : Bool :=
  let n := c.toNat
  (9 ≤ n && n ≤ 13) || n = 0x20 || n = 0xA0 || n = 0x1680 || (0x2000 ≤ n && n ≤ 0x200A) ||
    n = 0x2028 || n = 0x2029 || n = 0x202F || n = 0x205F || n = 0x3000 || n = 0xFEFF

def trimSpace (text : List Char) : List Char :=
  ((text.dropWhile isSpace).reverse.dropWhile isSpace).reverse

def isDigits (text : List Char) : Bool :=
  text ≠ [] && text.all fun c => '0' ≤ c && c ≤ '9'

/-- `Number` of digits. -/
def decimal (text : List Char) : Nat :=
  text.foldl (fun value c => 10 * value + (c.toNat - '0'.toNat)) 0

/-- `text.split("::")`. -/
def splitElision : List Char → List (List Char)
  | [] => [[]]
  | ':' :: ':' :: rest => [] :: splitElision rest
  | c :: rest => consHead c (splitElision rest)

/-! ## Addresses -/

def parseIpv4 (text : List Char) : Option Nat :=
  let parts := split '.' text
  if parts.length ≠ IPV4_OCTETS then none
  else parts.foldlM (fun value part =>
    if !isDigits part || (part.length > 1 && part.head? = some '0') then none
    else
      let octet := decimal part
      if octet > OCTET_MAX then none else some (value <<< 8 ||| octet)) 0

def splitGroups (half : List Char) : List (List Char) :=
  if half = [] then [] else split ':' half

def expandGroups (text : List Char) : Option (List (List Char)) :=
  let halves := splitElision text
  if halves.length > MAX_ELISION_HALVES then none
  else if halves.length < MAX_ELISION_HALVES then
    let groups := splitGroups text
    if groups.length = IPV6_GROUPS then some groups else none
  else
    let leading := splitGroups (halves.getD 0 [])
    let trailing := splitGroups (halves.getD 1 [])
    -- a negative difference is below the minimum as well
    let missing := IPV6_GROUPS - leading.length - trailing.length
    if missing < MIN_ELIDED_GROUPS then none
    else some (leading ++ List.replicate missing ['0'] ++ trailing)

/-- The groups' value, sixteen bits each. -/
def groupsValue (groups : List (List Char)) : Option Nat :=
  groups.foldlM (fun value group =>
    if group = [] ∨ group.length > IPV6_GROUP_DIGITS then none
    else (number? group).bind fun parsed =>
      if parsed > GROUP_MAX then none else some (value <<< 16 ||| parsed)) 0

def parseIpv6 (text : List Char) : Option Nat :=
  match splitLast ':' text with
  | some (before, after) =>
    if '.' ∈ after then do
      -- the dotted tail stands for the last two groups
      let tail ← parseIpv4 after
      let groups ← expandGroups (before ++ ':' :: "0:0".toList)
      let value ← groupsValue groups
      some ((value >>> 32) <<< 32 ||| tail)
    else (expandGroups text).bind groupsValue
  | none => (expandGroups text).bind groupsValue

def formatIpv4 (value : Nat) : String :=
  String.ofList (List.intercalate ['.'] ((List.range IPV4_OCTETS).map fun index =>
    Nat.toDigits 10 (value >>> ((IPV4_OCTETS - 1 - index) * 8) % 256)))

def formatIpv6 (value : Nat) : String :=
  String.ofList (List.intercalate [':'] ((List.range IPV6_GROUPS).map fun index =>
    Nat.toDigits 16 (value >>> ((IPV6_GROUPS - 1 - index) * 16) % 65536)))

/-- Strips brackets, a port and a zone. -/
def undecorate (raw : List Char) : List Char :=
  let text := trimSpace raw
  let text :=
    match text.head?, splitLast ']' text with
    | some '[', some (before, _) => before.drop 1
    | _, _ =>
      if text.count ':' = 1 ∧ '.' ∈ text then text.takeWhile (· ≠ ':') else text
  text.takeWhile (· ≠ '%')

def parseAddress (raw : List Char) : Option Address :=
  let text := undecorate raw
  if text = [] then none
  else if ':' ∉ text then
    (parseIpv4 text).map fun value => ⟨value, IPV4_WIDTH, formatIpv4 value⟩
  else (parseIpv6 text).map fun value =>
    if value >>> 32 = GROUP_MAX then
      let mapped := value % 2 ^ 32
      ⟨mapped, IPV4_WIDTH, formatIpv4 mapped⟩
    else ⟨value, IPV6_WIDTH, formatIpv6 value⟩

/-! ## Trusted ranges -/

def parseCidr (entry : List Char) : Option CidrBlock := do
  let (addressText, prefixText) := match splitLast '/' entry with
    | none => (entry, none)
    | some (before, after) => (before, some (trimSpace after))
  let address ← parseAddress addressText
  let length ← match prefixText with
    | none => some address.width
    | some digits =>
      if !isDigits digits then none
      else if decimal digits > address.width then none else some (decimal digits)
  let hostBits := address.width - length
  -- all ones but for the host bits
  let mask := 2 ^ address.width - 2 ^ hostBits
  some ⟨address.value &&& mask, mask, address.width⟩

def LOOPBACK : List String := ["127.0.0.0/8", "::1/128"]

def LINK_LOCAL : List String := ["169.254.0.0/16", "fe80::/10"]

def UNIQUE_LOCAL : List String := ["10.0.0.0/8", "172.16.0.0/12", "192.168.0.0/16", "fc00::/7"]

def PRESETS (name : List Char) : Option (List String) :=
  if name = "loopback".toList then some LOOPBACK
  else if name = "linklocal".toList then some LINK_LOCAL
  else if name = "uniquelocal".toList then some UNIQUE_LOCAL
  else if name = "private".toList then some (LOOPBACK ++ LINK_LOCAL ++ UNIQUE_LOCAL)
  else none

/-- `toLowerCase`, as far as it can yield an ASCII letter: the Kelvin sign is a `k`. -/
def lowerCase (c : Char) : Char :=
  if c.toNat = 0x212A then 'k' else c.toLower

/-- `split(/[\s,]+/u)`. -/
def splitEntries : List Char → List (List Char)
  | [] => [[]]
  | c :: rest =>
    if isSpace c || c = ',' then
      match rest with
      | [] => [[], []]
      | next :: _ =>
        if isSpace next || next = ',' then splitEntries rest else [] :: splitEntries rest
    else consHead c (splitEntries rest)

def parseTrustedProxies (spec : Option String) : TrustedProxies :=
  match spec with
  | none => TRUST_NO_PROXIES
  | some spec => (splitEntries spec.toList).flatMap fun entry =>
    match PRESETS (entry.map lowerCase) with
    | some ranges => ranges.filterMap fun range => parseCidr range.toList
    | none => (parseCidr entry).toList

def isTrusted (address : Address) (trusted : TrustedProxies) : Bool :=
  trusted.any fun block =>
    block.width = address.width && address.value &&& block.mask = block.network

def isTrustedPeer (peer : Option String) (trusted : TrustedProxies) : Bool :=
  let raw := trimSpace (peer.getD "").toList
  if raw = [] || trusted.isEmpty then false
  else (parseAddress raw).any fun address => isTrusted address trusted

/-! ## The caller -/

/-- The walk from the last entry: the first untrusted address, else the leftmost parsed so far. -/
def walk (trusted : TrustedProxies) : List (List Char) → Option String → Option String
  | [], leftmost => leftmost
  | entry :: earlier, leftmost =>
    match parseAddress entry with
    | none => walk trusted earlier leftmost
    | some candidate =>
      if !isTrusted candidate trusted then some candidate.text
      else walk trusted earlier (some candidate.text)

/-- `headers.get("x-forwarded-for")`, `null` as `none`, is all that is read of the request. -/
def resolveClientAddress (forwardedFor : Option String) (peer : Option String)
    (trusted : TrustedProxies) : Option String :=
  let rawPeer := trimSpace (peer.getD "").toList
  if rawPeer = [] then none
  else
    let peerAddress := parseAddress rawPeer
    let peerText := (peerAddress.map (·.text)).getD (String.ofList rawPeer)
    match peerAddress with
    | none => some peerText
    | some address =>
      if trusted.isEmpty || !isTrusted address trusted then some peerText
      else match forwardedFor with
        | none => some peerText
        | some chain =>
          some ((walk trusted (split ',' chain.toList).reverse none).getD peerText)

/-! ## What the chain can change -/

/-- The peer as it is answered: normalized, or its trimmed text. -/
def peerText (peer : Option String) : Option String :=
  let raw := trimSpace (peer.getD "").toList
  if raw = [] then none
  else some (((parseAddress raw).map (·.text)).getD (String.ofList raw))

/-- The entry holds an address outside the trusted ranges. -/
def Untrusted (trusted : TrustedProxies) (entry : List Char) (address : Address) : Prop :=
  parseAddress entry = some address ∧ isTrusted address trusted = false

/-- The last of the entries to hold an address outside the trusted ranges. -/
def RightmostUntrusted (trusted : TrustedProxies) (entries : List (List Char))
    (address : Address) : Prop :=
  ∃ before entry after, entries = before ++ entry :: after ∧ Untrusted trusted entry address ∧
    ∀ later ∈ after, ∀ other, ¬ Untrusted trusted later other

variable {trusted : TrustedProxies}

theorem walk_cons_of_untrusted {entry : List Char} {address : Address}
    (h : Untrusted trusted entry address) (earlier : List (List Char))
    (leftmost : Option String) :
    walk trusted (entry :: earlier) leftmost = some address.text := by
  rw [walk, h.1]
  simp only [h.2, Bool.not_false, if_true]

/-- Entries without an untrusted address are walked past. -/
theorem walk_append {later : List (List Char)}
    (h : ∀ entry ∈ later, ∀ address, ¬ Untrusted trusted entry address)
    (earlier : List (List Char)) (leftmost : Option String) :
    ∃ leftmost', walk trusted (later ++ earlier) leftmost = walk trusted earlier leftmost' := by
  induction later generalizing leftmost with
  | nil => exact ⟨leftmost, rfl⟩
  | cons entry rest ih =>
    have hrest : ∀ entry ∈ rest, ∀ address, ¬ Untrusted trusted entry address :=
      fun entry hmem => h entry (List.mem_cons_of_mem _ hmem)
    rw [List.cons_append, walk]
    cases hparse : parseAddress entry with
    | none => exact ih hrest leftmost
    | some candidate =>
      have htrusted : isTrusted candidate trusted = true := by
        cases hcandidate : isTrusted candidate trusted with
        | true => rfl
        | false => exact absurd ⟨hparse, hcandidate⟩ (h entry List.mem_cons_self candidate)
      simp only [htrusted, Bool.not_true, Bool.false_eq_true, if_false]
      exact ih hrest (some candidate.text)

/-- Some entry is the rightmost untrusted one, where there is one. -/
theorem exists_rightmostUntrusted {entries : List (List Char)}
    (h : ∃ entry ∈ entries, ∃ address, Untrusted trusted entry address) :
    ∃ address, RightmostUntrusted trusted entries address := by
  induction entries with
  | nil =>
    obtain ⟨entry, hmem, -⟩ := h
    cases hmem
  | cons first rest ih =>
    by_cases hrest : ∃ entry ∈ rest, ∃ address, Untrusted trusted entry address
    · obtain ⟨address, before, entry, after, rfl, huntrusted, hafter⟩ := ih hrest
      exact ⟨address, first :: before, entry, after, rfl, huntrusted, hafter⟩
    · obtain ⟨entry, hmem, address, huntrusted⟩ := h
      cases List.mem_cons.mp hmem with
      | inl heq =>
        subst heq
        exact ⟨address, [], entry, rest, rfl, huntrusted, fun later hlater other hother =>
          hrest ⟨later, hlater, other, hother⟩⟩
      | inr htail => exact absurd ⟨entry, htail, address, huntrusted⟩ hrest

/-- What comes before the rightmost untrusted entry is never looked at. -/
theorem walk_of_suffix {entries shared : List (List Char)} {address : Address}
    (hsuffix : shared <:+ entries) (h : RightmostUntrusted trusted shared address) :
    walk trusted entries.reverse none = some address.text := by
  obtain ⟨front, rfl⟩ := hsuffix
  obtain ⟨before, entry, after, rfl, huntrusted, hafter⟩ := h
  have hreverse : (front ++ (before ++ entry :: after)).reverse =
      after.reverse ++ (entry :: (before.reverse ++ front.reverse)) := by
    simp only [List.reverse_append, List.reverse_cons, List.append_assoc, List.cons_append,
      List.nil_append]
  have hpast : ∀ later ∈ after.reverse, ∀ other, ¬ Untrusted trusted later other :=
    fun later hlater => hafter later (List.mem_reverse.mp hlater)
  obtain ⟨leftmost, hwalk⟩ := walk_append hpast (entry :: (before.reverse ++ front.reverse)) none
  rw [hreverse, hwalk, walk_cons_of_untrusted huntrusted]

theorem resolveClientAddress_of_trusted {peer : Option String}
    (h : isTrustedPeer peer trusted = true) (chain : String) :
    ∃ fallback, resolveClientAddress (some chain) peer trusted =
      some ((walk trusted (split ',' chain.toList).reverse none).getD fallback) := by
  unfold isTrustedPeer at h
  dsimp only at h
  split at h
  · cases h
  · rename_i hraw
    rw [Bool.or_eq_true, decide_eq_true_eq, not_or] at hraw
    unfold resolveClientAddress
    dsimp only
    rw [if_neg hraw.1]
    cases hpeer : parseAddress (trimSpace (peer.getD "").toList) with
    | none =>
      rw [hpeer] at h
      cases h
    | some address =>
      rw [hpeer, Option.any_some] at h
      have hempty : trusted.isEmpty = false := by simpa using hraw.2
      simp only [hempty, h, Bool.not_true, Bool.or_false, Bool.false_eq_true, if_false]
      exact ⟨_, rfl⟩

/-- An untrusted peer is the answer, whatever the header says. -/
theorem resolveClientAddress_of_untrusted {peer : Option String}
    (h : isTrustedPeer peer trusted = false) (forwardedFor : Option String) :
    resolveClientAddress forwardedFor peer trusted = peerText peer := by
  unfold isTrustedPeer at h
  unfold resolveClientAddress peerText
  dsimp only at h ⊢
  by_cases hraw : trimSpace (peer.getD "").toList = []
  · rw [if_pos hraw, if_pos hraw]
  · rw [if_neg hraw, if_neg hraw]
    cases hpeer : parseAddress (trimSpace (peer.getD "").toList) with
    | none => rfl
    | some address =>
      have huntrusted : (trusted.isEmpty || !isTrusted address trusted) = true := by
        cases hempty : trusted.isEmpty with
        | true => rfl
        | false => simpa [hraw, hempty, hpeer] using h
      simp only [huntrusted, if_true]

/-- For every trusted list and peer.  Behind a trusted peer, all chains whose entries end alike,
with an untrusted address among the shared ones, resolve to the rightmost such address; an
untrusted peer is the answer for every header; and text put in front of a chain that has an
untrusted address changes nothing. -/
theorem resolveClientAddress_ignores_prepended (trusted : TrustedProxies) (peer : Option String) :
    (isTrustedPeer peer trusted = true → ∀ shared : List (List Char),
      (∃ entry ∈ shared, ∃ address, Untrusted trusted entry address) →
      ∃ address, RightmostUntrusted trusted shared address ∧
        ∀ chain : String, shared <:+ split ',' chain.toList →
          resolveClientAddress (some chain) peer trusted = some address.text) ∧
    (isTrustedPeer peer trusted = false → ∀ forwardedFor,
      resolveClientAddress forwardedFor peer trusted = peerText peer) ∧
    ∀ text chain : String,
      (∃ entry ∈ split ',' chain.toList, ∃ address, Untrusted trusted entry address) →
      resolveClientAddress (some (text ++ "," ++ chain)) peer trusted =
        resolveClientAddress (some chain) peer trusted := by
  have hshared : isTrustedPeer peer trusted = true → ∀ shared : List (List Char),
      (∃ entry ∈ shared, ∃ address, Untrusted trusted entry address) →
      ∃ address, RightmostUntrusted trusted shared address ∧
        ∀ chain : String, shared <:+ split ',' chain.toList →
          resolveClientAddress (some chain) peer trusted = some address.text := by
    intro hpeer shared huntrusted
    obtain ⟨address, hrightmost⟩ := exists_rightmostUntrusted huntrusted
    refine ⟨address, hrightmost, fun chain hsuffix => ?_⟩
    obtain ⟨fallback, hresolve⟩ := resolveClientAddress_of_trusted hpeer chain
    rw [hresolve, walk_of_suffix hsuffix hrightmost, Option.getD_some]
  refine ⟨hshared, fun hpeer forwardedFor => resolveClientAddress_of_untrusted hpeer forwardedFor,
    fun text chain huntrusted => ?_⟩
  cases hpeer : isTrustedPeer peer trusted with
  | false =>
    rw [resolveClientAddress_of_untrusted hpeer, resolveClientAddress_of_untrusted hpeer]
  | true =>
    have hsplit : split ',' (text ++ "," ++ chain).toList =
        split ',' text.toList ++ split ',' chain.toList := by
      rw [String.toList_append, String.toList_append, ← split_append, List.append_assoc]
      rfl
    obtain ⟨address, -, hresolve⟩ := hshared hpeer (split ',' chain.toList) huntrusted
    rw [hresolve chain List.suffix_rfl, hresolve (text ++ "," ++ chain)]
    rw [hsplit]
    exact List.suffix_append _ _

/-- One proxy network, and an address outside it. -/
def privateNetwork : TrustedProxies := parseTrustedProxies (some "10.0.0.0/8, ::1/128")

/-- What a caller writes in front of the address that the proxy saw. -/
theorem resolveClientAddress_ignores_prepended_example :
    resolveClientAddress (some "192.0.2.66, [::1]:80 , evil,203.0.113.9, 10.0.0.5")
        (some "::ffff:10.0.0.1") privateNetwork =
      resolveClientAddress (some "203.0.113.9, 10.0.0.5") (some "::ffff:10.0.0.1")
        privateNetwork ∧
    resolveClientAddress (some "192.0.2.66") (some "198.51.100.7") privateNetwork =
      some "198.51.100.7" := by
  constructor
  · exact (resolveClientAddress_ignores_prepended privateNetwork (some "::ffff:10.0.0.1")).2.2
      "192.0.2.66, [::1]:80 , evil" "203.0.113.9, 10.0.0.5"
      ⟨"203.0.113.9".toList, by decide +kernel, ⟨3405803785, 32, "203.0.113.9"⟩,
        by decide +kernel, by decide +kernel⟩
  · exact ((resolveClientAddress_ignores_prepended privateNetwork (some "198.51.100.7")).2.1
      (by decide +kernel) (some "192.0.2.66")).trans (by decide +kernel)

end Wallow.Bff
