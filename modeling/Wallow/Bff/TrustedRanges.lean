import Wallow.Bff.AddressLiterals
import Mathlib.Data.Nat.Bitwise

/-!
# Trusted ranges

What an entry of the trusted-proxy list says, and that `isTrusted` compares the bits in front.
-/

namespace Wallow.Bff

open HexText SplitText

/-! ## Masks -/

/-- The bits of a mask. -/
theorem testBit_mask {width host : Nat} (h : host ≤ width) (i : Nat) :
    (2 ^ width - 2 ^ host).testBit i = (decide (host ≤ i) && decide (i < width)) := by
  have hsplit : 2 ^ width - 2 ^ host = 2 ^ host * (2 ^ (width - host) - 1) := by
    rw [Nat.mul_sub, Nat.mul_one, ← Nat.pow_add, Nat.add_sub_cancel' h]
  rw [hsplit, Nat.testBit_two_pow_mul, Nat.testBit_two_pow_sub_one]
  by_cases hhost : host ≤ i
  · have hiff : i - host < width - host ↔ i < width := by omega
    simp only [ge_iff_le, hhost, decide_true, Bool.true_and, hiff]
  · simp only [ge_iff_le, hhost, decide_false, Bool.false_and]

/-- Two numbers under one mask. -/
theorem and_mask_inj_iff {width host : Nat} (h : host ≤ width) (x y : Nat) :
    x &&& (2 ^ width - 2 ^ host) = y &&& (2 ^ width - 2 ^ host) ↔
      ∀ i, host ≤ i → i < width → x.testBit i = y.testBit i := by
  constructor
  · intro heq i hhost hwidth
    have hbit := congrArg (fun n => Nat.testBit n i) heq
    rw [Nat.testBit_and, Nat.testBit_and, testBit_mask h, decide_eq_true hhost,
      decide_eq_true hwidth, Bool.and_true, Bool.and_true, Bool.and_true] at hbit
    exact hbit
  · intro hbits
    apply Nat.eq_of_testBit_eq
    intro i
    rw [Nat.testBit_and, Nat.testBit_and, testBit_mask h]
    by_cases hrange : host ≤ i ∧ i < width
    · rw [hbits i hrange.1 hrange.2]
    · have hfalse : (decide (host ≤ i) && decide (i < width)) = false := by
        rw [Bool.and_eq_false_iff, decide_eq_false_iff_not, decide_eq_false_iff_not]
        exact not_and_or.mp hrange
      rw [hfalse, Bool.and_false, Bool.and_false]

/-! ## Entries -/

/-- The text holds the address, with nothing but decorations around its literal. -/
def Holds (raw : List Char) (address : Address) : Prop :=
  ∃ literal, Wears (trimSpace raw) literal ∧ Denotes literal address

theorem parseAddress_eq_some_iff {raw : List Char} {address : Address} :
    parseAddress raw = some address ↔ Holds raw address :=
  (parseAddress_reads_literals raw).1 address

/-- A single address, or a network and the length of its prefix, at most its family's width. -/
inductive IsEntry : List Char → Address → Nat → Prop
  | single {range : List Char} {network : Address} (hslash : '/' ∉ range)
      (hnetwork : Holds range network) : IsEntry range network network.width
  | cidr {before after : List Char} {network : Address} (hslash : '/' ∉ after)
      (hnetwork : Holds before network) (hdigits : isDigits (trimSpace after) = true)
      (hwidth : decimal (trimSpace after) ≤ network.width) :
      IsEntry (before ++ '/' :: after) network (decimal (trimSpace after))

/-- The block an entry is kept as. -/
def blockOf (network : Address) (p : Nat) : CidrBlock :=
  ⟨network.value &&& (2 ^ network.width - 2 ^ (network.width - p)),
    2 ^ network.width - 2 ^ (network.width - p), network.width⟩

theorem IsEntry.le_width {range : List Char} {network : Address} {p : Nat}
    (h : IsEntry range network p) : p ≤ network.width := by
  cases h with
  | single hslash hnetwork => exact Nat.le_refl _
  | cidr hslash hnetwork hdigits hwidth => exact hwidth

theorem parseCidr_of_single {range : List Char} (h : '/' ∉ range) :
    parseCidr range = (parseAddress range).map fun network => blockOf network network.width := by
  unfold parseCidr
  rw [splitLast_of_not_mem h]
  cases hnetwork : parseAddress range with
  | none => simp [hnetwork]
  | some network => simp [hnetwork, blockOf]

theorem parseCidr_of_slash {after : List Char} (h : '/' ∉ after) (before : List Char) :
    parseCidr (before ++ '/' :: after) = (parseAddress before).bind fun network =>
      if isDigits (trimSpace after) = true ∧ decimal (trimSpace after) ≤ network.width then
        some (blockOf network (decimal (trimSpace after)))
      else none := by
  unfold parseCidr
  rw [splitLast_append h before]
  cases hnetwork : parseAddress before with
  | none => simp [hnetwork]
  | some network =>
    by_cases hdigits : isDigits (trimSpace after) = true
    · by_cases hwidth : decimal (trimSpace after) ≤ network.width
      · simp [hnetwork, hdigits, hwidth, Nat.not_lt.mpr hwidth, blockOf]
      · simp [hnetwork, hdigits, hwidth, Nat.not_le.mp hwidth]
    · simp [hnetwork, hdigits]

/-- The entries are what `parseCidr` accepts. -/
theorem parseCidr_eq_some_iff {range : List Char} {block : CidrBlock} :
    parseCidr range = some block ↔
      ∃ network p, IsEntry range network p ∧ block = blockOf network p := by
  constructor
  · intro h
    cases hsplit : splitLast '/' range with
    | none =>
      have hslash := splitLast_eq_none hsplit
      rw [parseCidr_of_single hslash, Option.map_eq_some_iff] at h
      obtain ⟨network, hnetwork, rfl⟩ := h
      exact ⟨network, _, .single hslash (parseAddress_eq_some_iff.mp hnetwork), rfl⟩
    | some halves =>
      obtain ⟨before, after⟩ := halves
      obtain ⟨hslash, rfl⟩ := splitLast_eq_some hsplit
      rw [parseCidr_of_slash hslash, Option.bind_eq_some_iff] at h
      obtain ⟨network, hnetwork, h⟩ := h
      rw [Option.ite_none_right_eq_some, Option.some.injEq] at h
      obtain ⟨⟨hdigits, hwidth⟩, rfl⟩ := h
      exact ⟨network, _, .cidr hslash (parseAddress_eq_some_iff.mp hnetwork) hdigits hwidth, rfl⟩
  · rintro ⟨network, p, hentry, rfl⟩
    cases hentry with
    | single hslash hnetwork =>
      rw [parseCidr_of_single hslash, parseAddress_eq_some_iff.mpr hnetwork]
      rfl
    | cidr hslash hnetwork hdigits hwidth =>
      rw [parseCidr_of_slash hslash, parseAddress_eq_some_iff.mpr hnetwork, Option.bind_some,
        if_pos ⟨hdigits, hwidth⟩]

/-! ## Membership -/

/-- The bits of an address, from the first. -/
def Address.bit (address : Address) (i : Nat) : Bool :=
  address.value.testBit (address.width - 1 - i)

/-- One family, and the first `p` bits the same. -/
def AgreesOn (p : Nat) (a b : Address) : Prop :=
  a.width = b.width ∧ ∀ i < p, a.bit i = b.bit i

/-- Bits counted from the first are bits counted from the last. -/
theorem forall_bit_iff {width p : Nat} (h : p ≤ width) {P : Nat → Prop} :
    (∀ i, width - p ≤ i → i < width → P i) ↔ ∀ i < p, P (width - 1 - i) := by
  constructor
  · intro hbits i hi
    exact hbits (width - 1 - i) (by omega) (by omega)
  · intro hbits i hlow hhigh
    have hback : width - 1 - (width - 1 - i) = i := by omega
    rw [← hback]
    exact hbits (width - 1 - i) (by omega)

theorem isTrusted_blockOf {address network : Address} {p : Nat} (h : p ≤ network.width) :
    isTrusted address [blockOf network p] = true ↔ AgreesOn p address network := by
  unfold isTrusted blockOf AgreesOn Address.bit
  rw [List.any_cons, List.any_nil, Bool.or_false, Bool.and_eq_true, decide_eq_true_iff,
    decide_eq_true_iff, and_mask_inj_iff (Nat.sub_le _ _), forall_bit_iff h]
  constructor
  · rintro ⟨hwidth, hbits⟩
    exact ⟨hwidth.symm, by rw [← hwidth]; exact hbits⟩
  · rintro ⟨hwidth, hbits⟩
    refine ⟨hwidth.symm, ?_⟩
    rw [hwidth] at hbits
    exact hbits

theorem isTrusted_iff {address : Address} {trusted : TrustedProxies} :
    isTrusted address trusted = true ↔ ∃ block ∈ trusted, isTrusted address [block] = true := by
  unfold isTrusted
  simp only [List.any_cons, List.any_nil, Bool.or_false, List.any_eq_true]

/-- A range of the list: one that a preset names, or an entry itself. -/
def Lists (spec : String) (range : List Char) : Prop :=
  ∃ entry ∈ splitEntries spec.toList,
    (∃ ranges, PRESETS (entry.map lowerCase) = some ranges ∧ ∃ text ∈ ranges, range = text.toList) ∨
      (PRESETS (entry.map lowerCase) = none ∧ range = entry)

theorem mem_parseTrustedProxies {spec : String} {block : CidrBlock} :
    block ∈ parseTrustedProxies (some spec) ↔
      ∃ range, Lists spec range ∧ parseCidr range = some block := by
  unfold parseTrustedProxies Lists
  simp only [List.mem_flatMap]
  constructor
  · rintro ⟨entry, hentry, hmem⟩
    cases hpreset : PRESETS (entry.map lowerCase) with
    | none =>
      rw [hpreset, Option.mem_toList] at hmem
      exact ⟨entry, ⟨entry, hentry, .inr ⟨hpreset, rfl⟩⟩, hmem⟩
    | some ranges =>
      rw [hpreset, List.mem_filterMap] at hmem
      obtain ⟨text, htext, hblock⟩ := hmem
      exact ⟨text.toList, ⟨entry, hentry, .inl ⟨ranges, hpreset, text, htext, rfl⟩⟩, hblock⟩
  · rintro ⟨range, ⟨entry, hentry, ⟨ranges, hpreset, text, htext, rfl⟩ | ⟨hpreset, rfl⟩⟩, hblock⟩
    · refine ⟨entry, hentry, ?_⟩
      rw [hpreset, List.mem_filterMap]
      exact ⟨text, htext, hblock⟩
    · refine ⟨range, hentry, ?_⟩
      rw [hpreset, Option.mem_toList]
      exact hblock

/-- Every length of a prefix is one an entry can have. -/
theorem isEntry_of_le {literal : List Char} {network : Address} (h : Denotes literal network)
    {p : Nat} (hp : p ≤ network.width) :
    IsEntry (literal ++ '/' :: Nat.toDigits 10 p) network p := by
  have ⟨hdigits, hdecimal⟩ := isDigits_toDigits p
  have hchars : ∀ c ∈ Nat.toDigits 10 p, 48 ≤ c.toNat ∧ c.toNat ≤ 57 := by
    intro c hc
    rw [isDigits, Bool.and_eq_true] at hdigits
    exact digit_iff.mp (List.all_eq_true.mp hdigits.2 c hc)
  have hslash : '/' ∉ Nat.toDigits 10 p := fun hmem => absurd (hchars '/' hmem) (by decide)
  have htrim : trimSpace (Nat.toDigits 10 p) = Nat.toDigits 10 p := by
    refine trimSpace_of_all fun c hc => isSpace_of_digit ?_
    have hrange : '0' ≤ c ∧ c ≤ '9' := hchars c hc
    rw [value?, if_pos hrange]
    rfl
  have hentry := IsEntry.cidr hslash ⟨literal, h.wears, h⟩ (by rw [htrim]; exact hdigits)
    (by rw [htrim, hdecimal]; exact hp)
  rw [htrim, hdecimal] at hentry
  exact hentry

/-- A mapped network is read as the IPv4 network it maps, before its prefix is. -/
theorem IsEntry.of_mapped {literal after : List Char} {groups : List Nat} {network : Address}
    {p : Nat} (hliteral : Ipv6Literal literal groups) (hmapped : IsMapped (groupsNumber groups))
    (hslash : '/' ∉ after) (h : IsEntry (literal ++ '/' :: after) network p) :
    network.width = 32 ∧ network.value = groupsNumber groups % 2 ^ 32 ∧ p ≤ 32 := by
  have hdenotes := Denotes.mapped hliteral hmapped
  have hnetwork : network =
      ⟨groupsNumber groups % 2 ^ 32, 32, formatIpv4 (groupsNumber groups % 2 ^ 32)⟩ := by
    generalize hrange : literal ++ '/' :: after = range at h
    cases h with
    | single hnone hholds =>
      rw [← hrange] at hnone
      exact absurd (List.mem_append_right _ List.mem_cons_self) hnone
    | cidr hafter hholds hdigits hwidth =>
      have hsplit := splitLast_append hslash literal
      rw [hrange, splitLast_append hafter] at hsplit
      obtain ⟨rfl, -⟩ := Prod.mk.inj (Option.some.inj hsplit)
      have hparse := parseAddress_eq_some_iff.mpr hholds
      rw [parseAddress_of_wears hdenotes.wears hdenotes] at hparse
      exact (Option.some.inj hparse).symm
  have hwidth : network.width = 32 := by rw [hnetwork]
  exact ⟨hwidth, by rw [hnetwork], hwidth ▸ h.le_width⟩

theorem isTrustedPeer_iff (spec peer : String) :
    isTrustedPeer (some peer) (parseTrustedProxies (some spec)) = true ↔
      ∃ address range network p, Holds (trimSpace peer.toList) address ∧ Lists spec range ∧
        IsEntry range network p ∧ AgreesOn p address network := by
  unfold isTrustedPeer
  dsimp only [Option.getD_some]
  constructor
  · intro h
    rw [Bool.if_false_left, Bool.and_eq_true] at h
    obtain ⟨address, haddress, htrusted⟩ := (Option.any_eq_true _ _).mp h.2
    obtain ⟨block, hblock, hone⟩ := isTrusted_iff.mp htrusted
    obtain ⟨range, hlists, hparse⟩ := mem_parseTrustedProxies.mp hblock
    obtain ⟨network, p, hentry, rfl⟩ := parseCidr_eq_some_iff.mp hparse
    exact ⟨address, range, network, p, parseAddress_eq_some_iff.mp haddress, hlists, hentry,
      (isTrusted_blockOf hentry.le_width).mp hone⟩
  · rintro ⟨address, range, network, p, hholds, hlists, hentry, hagrees⟩
    have hparse := parseAddress_eq_some_iff.mpr hholds
    have hblock : blockOf network p ∈ parseTrustedProxies (some spec) :=
      mem_parseTrustedProxies.mpr ⟨range, hlists, parseCidr_eq_some_iff.mpr ⟨_, _, hentry, rfl⟩⟩
    have hraw : trimSpace peer.toList ≠ [] := by
      intro hnil
      rw [hnil] at hparse
      cases hparse
    have hempty : (parseTrustedProxies (some spec)).isEmpty = false :=
      List.isEmpty_eq_false_iff_exists_mem.mpr ⟨_, hblock⟩
    rw [if_neg (by simp only [hraw, hempty]; decide), hparse, Option.any_some]
    exact isTrusted_iff.mpr ⟨_, hblock, (isTrusted_blockOf hentry.le_width).mpr hagrees⟩

/-- An address is trusted by an entry exactly when it is of its family and the bits of the prefix
agree.  The entries are the addresses and the networks with a prefix of any length up to the
family's width; a mapped address, in the list or of a peer, is the IPv4 address it maps. -/
theorem isTrusted_iff_agreesOn :
    (∀ range, (parseCidr range).isSome = true ↔ ∃ network p, IsEntry range network p) ∧
    (∀ range network p, IsEntry range network p → p ≤ network.width ∧
      ∀ block, parseCidr range = some block → ∀ address,
        (isTrusted address [block] = true ↔ AgreesOn p address network)) ∧
    (∀ literal network, Denotes literal network → ∀ p, p ≤ network.width →
      IsEntry (literal ++ '/' :: Nat.toDigits 10 p) network p) ∧
    (∀ literal after groups network p, Ipv6Literal literal groups →
      IsMapped (groupsNumber groups) → '/' ∉ after →
      IsEntry (literal ++ '/' :: after) network p →
        network.width = 32 ∧ network.value = groupsNumber groups % 2 ^ 32 ∧ p ≤ 32) ∧
    ∀ spec peer, isTrustedPeer (some peer) (parseTrustedProxies (some spec)) = true ↔
      ∃ address range network p, Holds (trimSpace peer.toList) address ∧ Lists spec range ∧
        IsEntry range network p ∧ AgreesOn p address network := by
  refine ⟨?_, ?_, ?_, ?_, isTrustedPeer_iff⟩
  · intro range
    constructor
    · intro hsome
      obtain ⟨block, hparse⟩ := Option.isSome_iff_exists.mp hsome
      obtain ⟨network, p, hentry, -⟩ := parseCidr_eq_some_iff.mp hparse
      exact ⟨network, p, hentry⟩
    · rintro ⟨network, p, hentry⟩
      rw [parseCidr_eq_some_iff.mpr ⟨network, p, hentry, rfl⟩]
      rfl
  · intro range network p hentry
    refine ⟨hentry.le_width, fun block hparse address => ?_⟩
    rw [parseCidr_eq_some_iff.mpr ⟨network, p, hentry, rfl⟩] at hparse
    cases hparse
    exact isTrusted_blockOf hentry.le_width
  · exact fun literal network hliteral p hp => isEntry_of_le hliteral hp
  · exact fun literal after groups network p hliteral hmapped hslash hentry =>
      hentry.of_mapped hliteral hmapped hslash

/-- An IPv4 network and a prefix within an octet. -/
theorem isTrusted_iff_agreesOn_example :
    Denotes "10.0.0.0".toList ⟨167772160, 32, formatIpv4 167772160⟩ ∧
      (∀ block, parseCidr "10.0.0.0/12".toList = some block → ∀ address,
        (isTrusted address [block] = true ↔
          AgreesOn 12 address ⟨167772160, 32, formatIpv4 167772160⟩)) := by
  have hnetwork : Denotes "10.0.0.0".toList ⟨167772160, 32, formatIpv4 167772160⟩ :=
    .ipv4 (parseIpv4_eq_some_iff.mp (by decide +kernel))
  have hentry := isTrusted_iff_agreesOn.2.2.1 _ _ hnetwork 12 (by decide)
  exact ⟨hnetwork, (isTrusted_iff_agreesOn.2.1 _ _ _ hentry).2⟩

/-- A network written as a mapped one: its prefix counts from the IPv4 address, so that it trusts
less than the prefix of the 128 bits would, and a prefix over 32 is no entry. -/
theorem mapped_prefix_counts_from_ipv4 :
    ∃ block address network other,
      parseCidr "::ffff:10.0.0.0/8".toList = some block ∧
      parseAddress "::ffff:11.0.0.1".toList = some address ∧
      parseIpv6 "::ffff:10.0.0.0".toList = some network ∧
      parseIpv6 "::ffff:11.0.0.1".toList = some other ∧
      (∀ i < 8, other.testBit (127 - i) = network.testBit (127 - i)) ∧
      isTrusted address [block] = false ∧
      parseCidr "::ffff:10.0.0.0/104".toList = none :=
  ⟨⟨167772160, 4278190080, 32⟩, ⟨184549377, 32, "11.0.0.1"⟩, 281470849515520, 281470866292737,
    by decide +kernel, by decide +kernel, by decide +kernel, by decide +kernel, by decide +kernel,
    by decide +kernel, by decide +kernel⟩

end Wallow.Bff
