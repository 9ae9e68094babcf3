import Mathlib.Data.Nat.Bitwise
import Mathlib.Tactic.NormNum

/-!
# Addresses that requests may go to

`BackchannelLogoutNotifier` and `WebPushTransport` each decide which addresses they send requests
to.  Both decide on the bytes of an address, after an IPv4 address is taken out of its IPv6 form.
-/

namespace Wallow.Shared

/-! ## Addresses -/

inductive IPAddress
  | v4 (b0 b1 b2 b3 : UInt8)
  | v6 (bytes : Vector UInt8 16) (scopeId : Nat)
  deriving DecidableEq

namespace IPAddress

def zeros (n : Nat) : List UInt8 := List.replicate n 0

def isIPv4MappedToIPv6 : IPAddress → Bool
  | v4 .. => false
  | v6 bytes _ => bytes.toList.take 12 = zeros 10 ++ [0xff, 0xff]

/-- The last four bytes. -/
def mapToIPv4 : IPAddress → IPAddress
  | v4 b0 b1 b2 b3 => v4 b0 b1 b2 b3
  | v6 bytes _ => v4 bytes[12] bytes[13] bytes[14] bytes[15]

/-- `IPAddress.IPv6Any` and `IPAddress.IPv6Loopback`, which have no scope. -/
def ipv6Any : Vector UInt8 16 := .replicate 16 0
def ipv6Loopback : Vector UInt8 16 := ipv6Any.set 15 1

def isLoopback : IPAddress → Bool
  | v4 b0 _ _ _ => b0 = 127
  | v6 bytes scopeId =>
    scopeId = 0 && (bytes = ipv6Loopback ||
      bytes.toList = zeros 10 ++ [0xff, 0xff, 127, 0, 0, 1])

/-- The first of the eight numbers of an IPv6 address. -/
def firstNumber (bytes : Vector UInt8 16) : Nat := 256 * bytes[0].toNat + bytes[1].toNat

def isIPv6LinkLocal : IPAddress → Bool
  | v4 .. => false
  | v6 bytes _ => firstNumber bytes &&& 0xFFC0 = 0xFE80

def isIPv6SiteLocal : IPAddress → Bool
  | v4 .. => false
  | v6 bytes _ => firstNumber bytes &&& 0xFFC0 = 0xFEC0

def isIPv6UniqueLocal : IPAddress → Bool
  | v4 .. => false
  | v6 bytes _ => firstNumber bytes &&& 0xFE00 = 0xFC00

end IPAddress

/-! ## The two filters -/

namespace BackchannelLogoutNotifier

open IPAddress

def isPrivateOrLocal (address : IPAddress) : Bool :=
  let ip := if address.isIPv4MappedToIPv6 then address.mapToIPv4 else address
  if ip.isLoopback || ip = .v4 0 0 0 0 || ip = .v6 ipv6Any 0 then true
  else
    match ip with
    | .v4 b0 b1 _ _ =>
      b0 = 10 || (b0 = 172 && b1 &&& 0xF0 = 16) || (b0 = 192 && b1 = 168) ||
        (b0 = 169 && b1 = 254)
    | ip => ip.isIPv6LinkLocal || ip.isIPv6UniqueLocal || ip.isIPv6SiteLocal

/-- `IsAllowedTargetAsync` for the addresses that the host stands for or is resolved to; `none` is a
host that is not resolved. -/
def isAllowedTarget (allowPrivateNetworkHosts : Bool) (addresses : Option (List IPAddress)) :
    Bool :=
  allowPrivateNetworkHosts ||
    addresses.any fun addresses =>
      addresses.length > 0 && addresses.all fun address => !isPrivateOrLocal address

end BackchannelLogoutNotifier

def WebPushTransport.isPublicAddress (address : IPAddress) : Bool :=
  match if address.isIPv4MappedToIPv6 then address.mapToIPv4 else address with
  | .v4 b0 b1 b2 _ =>
    !(b0 = 0 || b0 = 10 || b0 = 127) && b0 < 224 &&
      !(b0 = 100 && 64 ≤ b1 && b1 ≤ 127) &&
      !(b0 = 169 && b1 = 254) &&
      !(b0 = 172 && 16 ≤ b1 && b1 ≤ 31) &&
      !(b0 = 192 && (b1 = 0 || b1 = 168 || (b1 = 88 && b2 = 99))) &&
      !(b0 = 198 && (b1 = 18 || b1 = 19 || (b1 = 51 && b2 = 100))) &&
      !(b0 = 203 && b1 = 0 && b2 = 113)
  | .v6 bytes _ =>
    bytes[0] &&& 0xe0 = 0x20 &&
      !(bytes[0] = 0x20 && bytes[1] = 0x01 && bytes[2] ≤ 1) &&
      !(bytes[0] = 0x20 && bytes[1] = 0x01 && bytes[2] = 0x0d && bytes[3] = 0xb8) &&
      !(bytes[0] = 0x20 && bytes[1] = 0x02) &&
      !(bytes[0] = 0x3f && bytes[1] = 0xff && bytes[2] &&& 0xf0 = 0)

/-! ## Embedded addresses -/

namespace IPAddress

/-- The IPv4 addresses that an IPv6 address stands for: mapped, compatible, 6to4 and NAT64. -/
def embedded : IPAddress → List IPAddress
  | v4 .. => []
  | v6 bytes scopeId =>
    let last := (v6 bytes scopeId).mapToIPv4
    (if bytes.toList.take 12 = zeros 10 ++ [0xff, 0xff] then [last] else []) ++
    (if bytes.toList.take 12 = zeros 12 then [last] else []) ++
    (if bytes.toList.take 2 = [0x20, 0x02] then [v4 bytes[2] bytes[3] bytes[4] bytes[5]] else []) ++
    (if bytes.toList.take 12 = [0x00, 0x64, 0xff, 0x9b] ++ zeros 8 then [last] else [])

end IPAddress

/-- What the one filter lets through, the other does, and no refused address is embedded in it. -/
def FiltersAgree (address : IPAddress) : Prop :=
  BackchannelLogoutNotifier.isAllowedTarget false (some [address]) = true →
    WebPushTransport.isPublicAddress address = true ∧
    ∀ embedded ∈ address.embedded,
      BackchannelLogoutNotifier.isAllowedTarget false (some [embedded]) = true

/-! ## Blocks of addresses -/

/-- The addresses that begin with the first `length` bits of `base`. -/
structure AddressBlock where
  base : List UInt8
  length : Nat

/-- The first `length` bits are the same. -/
def sameBits : Nat → List UInt8 → List UInt8 → Bool
  | length, p :: ps, b :: bs =>
    if 8 ≤ length then b = p && sameBits (length - 8) ps bs
    else b.toNat / 2 ^ (8 - length) = p.toNat / 2 ^ (8 - length)
  | _, _, _ => true

def AddressBlock.contains (block : AddressBlock) (bytes : List UInt8) : Bool :=
  sameBits block.length block.base bytes

/-- Blocks of IPv4 that the notifier takes for public. -/
def missedIPv4 : List AddressBlock :=
  [⟨[0], 8⟩, ⟨[100, 64], 10⟩, ⟨[192, 0], 16⟩, ⟨[192, 88, 99], 24⟩, ⟨[198, 18], 15⟩,
    ⟨[198, 51, 100], 24⟩, ⟨[203, 0, 113], 24⟩, ⟨[224], 3⟩]

/-- Link-local, unique local and site-local addresses. -/
def localIPv6 : List AddressBlock := [⟨[0xfe, 0x80], 10⟩, ⟨[0xfc], 7⟩, ⟨[0xfe, 0xc0], 10⟩]

def globalIPv6 : AddressBlock := ⟨[0x20], 3⟩

/-- The blocks of global unicast addresses with a purpose of their own. -/
def specialIPv6 : List AddressBlock :=
  [⟨[0x20, 0x01, 0x00], 23⟩, ⟨[0x20, 0x01, 0x0d, 0xb8], 32⟩, ⟨[0x20, 0x02], 16⟩,
    ⟨[0x3f, 0xff, 0x00], 20⟩]

/-- The notifier sends requests there, and they are not public. -/
def IPAddress.isMissed (address : IPAddress) : Bool :=
  match if address.isIPv4MappedToIPv6 then address.mapToIPv4 else address with
  | .v4 b0 b1 b2 b3 =>
    !([b0, b1, b2, b3] = zeros 4) && missedIPv4.any (·.contains [b0, b1, b2, b3])
  | .v6 bytes scopeId =>
    !(localIPv6.any (·.contains bytes.toList)) &&
      !(scopeId = 0 && (bytes = ipv6Any || bytes = ipv6Loopback)) &&
      (!globalIPv6.contains bytes.toList || specialIPv6.any (·.contains bytes.toList))

/-! ## Bytes -/

open BackchannelLogoutNotifier WebPushTransport IPAddress

theorem sameBits_cons (length : Nat) (p b : UInt8) (ps bs : List UInt8) :
    sameBits length (p :: ps) (b :: bs) =
      if 8 ≤ length then b = p && sameBits (length - 8) ps bs
      else b.toNat / 2 ^ (8 - length) = p.toNat / 2 ^ (8 - length) := by
  rw [sameBits]

theorem sameBits_nil (length : Nat) (bs : List UInt8) : sameBits length [] bs = true := by
  cases bs <;> rfl

theorem forall_byte {p : Nat → Prop} (h : ∀ n : Fin 256, p n.val) (b : UInt8) : p b.toNat :=
  h ⟨b.toNat, b.toNat_lt⟩

/-- The bits under a mask are those of a range of bytes. -/
theorem byte_masks (b : UInt8) :
    (b.toNat &&& 0xF0 = 16 ↔ 16 ≤ b.toNat ∧ b.toNat ≤ 31) ∧
    (b.toNat &&& 0xe0 = 0x20 ↔ b.toNat / 32 = 1) ∧ (b.toNat &&& 0xf0 = 0 ↔ b.toNat / 16 = 0) :=
  forall_byte (p := fun n => (n &&& 0xF0 = 16 ↔ 16 ≤ n ∧ n ≤ 31) ∧
    (n &&& 0xe0 = 0x20 ↔ n / 32 = 1) ∧ (n &&& 0xf0 = 0 ↔ n / 16 = 0)) (by decide +kernel) b

/-- The number without its last `k` bits. -/
theorem and_high {k m n : Nat} (h : n < 2 ^ (k + m)) :
    n &&& (2 ^ m - 1) * 2 ^ k = n / 2 ^ k * 2 ^ k := by
  apply Nat.eq_of_testBit_eq
  intro i
  rw [Nat.testBit_and, Nat.testBit_mul_two_pow, Nat.testBit_mul_two_pow,
    Nat.testBit_two_pow_sub_one, Nat.testBit_div_two_pow]
  by_cases hi : k ≤ i
  · rw [show i - k + k = i by omega]
    by_cases hm : i - k < m
    · simp [hi, hm]
    · have hbit : n.testBit i = false :=
        Nat.testBit_lt_two_pow (Nat.lt_of_lt_of_le h (Nat.pow_le_pow_right (by decide) (by omega)))
      simp [hbit]
  · simp [hi]

/-- The bits under a mask on the first number are those of its two bytes. -/
theorem number_masks (b0 b1 : UInt8) :
    (256 * b0.toNat + b1.toNat &&& 0xFFC0 = 0xFE80 ↔ b0.toNat = 0xfe ∧ b1.toNat / 64 = 2) ∧
    (256 * b0.toNat + b1.toNat &&& 0xFFC0 = 0xFEC0 ↔ b0.toNat = 0xfe ∧ b1.toNat / 64 = 3) ∧
    (256 * b0.toNat + b1.toNat &&& 0xFE00 = 0xFC00 ↔ b0.toNat / 2 = 0x7e) := by
  have h0 := b0.toNat_lt
  have h1 := b1.toNat_lt
  have h64 := and_high (k := 6) (m := 10) (n := 256 * b0.toNat + b1.toNat) (by omega)
  have h512 := and_high (k := 9) (m := 7) (n := 256 * b0.toNat + b1.toNat) (by omega)
  norm_num at h64 h512
  rw [h64, h512]
  omega

/-- Loopback, private and link-local addresses, by their first two bytes. -/
def PrivateRange (b0 b1 : UInt8) : Prop :=
  b0.toNat = 10 ∨ b0.toNat = 127 ∨ (b0.toNat = 172 ∧ 16 ≤ b1.toNat ∧ b1.toNat ≤ 31) ∨
    (b0.toNat = 192 ∧ b1.toNat = 168) ∨ (b0.toNat = 169 ∧ b1.toNat = 254)

def MissedRange (b0 b1 b2 : UInt8) : Prop :=
  b0.toNat = 0 ∨ (b0.toNat = 100 ∧ 64 ≤ b1.toNat ∧ b1.toNat ≤ 127) ∨
    (b0.toNat = 192 ∧ b1.toNat = 0) ∨ (b0.toNat = 192 ∧ b1.toNat = 88 ∧ b2.toNat = 99) ∨
    (b0.toNat = 198 ∧ 18 ≤ b1.toNat ∧ b1.toNat ≤ 19) ∨
    (b0.toNat = 198 ∧ b1.toNat = 51 ∧ b2.toNat = 100) ∨
    (b0.toNat = 203 ∧ b1.toNat = 0 ∧ b2.toNat = 113) ∨ 224 ≤ b0.toNat

theorem isPrivateOrLocal_v4 (b0 b1 b2 b3 : UInt8) :
    isPrivateOrLocal (.v4 b0 b1 b2 b3) = true ↔
      PrivateRange b0 b1 ∨ [b0, b1, b2, b3] = zeros 4 := by
  have ⟨hmask, _, _⟩ := byte_masks b1
  simp only [isPrivateOrLocal, isIPv4MappedToIPv6, isLoopback, zeros, PrivateRange]
  simp [← UInt8.toNat_inj, hmask]
  grind

theorem isPublicAddress_v4 (b0 b1 b2 b3 : UInt8) :
    isPublicAddress (.v4 b0 b1 b2 b3) = true ↔ ¬PrivateRange b0 b1 ∧ ¬MissedRange b0 b1 b2 := by
  simp only [isPublicAddress, isIPv4MappedToIPv6, PrivateRange, MissedRange]
  simp [← UInt8.toNat_inj, UInt8.le_iff_toNat_le, UInt8.lt_iff_toNat_lt]
  grind

theorem contains_missedIPv4 (b0 b1 b2 b3 : UInt8) :
    missedIPv4.any (·.contains [b0, b1, b2, b3]) = true ↔ MissedRange b0 b1 b2 := by
  have h0 := b0.toNat_lt
  have h32 : b0.toNat / 32 = 7 ↔ 224 ≤ b0.toNat := by omega
  have h64 : b1.toNat / 64 = 1 ↔ 64 ≤ b1.toNat ∧ b1.toNat ≤ 127 := by omega
  have h2 : b1.toNat / 2 = 9 ↔ 18 ≤ b1.toNat ∧ b1.toNat ≤ 19 := by omega
  simp [missedIPv4, AddressBlock.contains, sameBits_cons, sameBits_nil, MissedRange,
    ← UInt8.toNat_inj, h32, h64, h2]

theorem not_missedRange {b0 b1 : UInt8} (h : PrivateRange b0 b1) (b2 : UInt8) :
    ¬MissedRange b0 b1 b2 := by
  unfold PrivateRange at h
  unfold MissedRange
  omega

/-! ## IPv6 -/

theorem exists_bytes (bytes : Vector UInt8 16) :
    ∃ b0 b1 b2 b3 b4 b5 b6 b7 b8 b9 b10 b11 b12 b13 b14 b15 : UInt8,
      bytes = #v[b0, b1, b2, b3, b4, b5, b6, b7, b8, b9, b10, b11, b12, b13, b14, b15] := by
  match bytes with
  | ⟨⟨[b0, b1, b2, b3, b4, b5, b6, b7, b8, b9, b10, b11, b12, b13, b14, b15]⟩, _⟩ =>
    exact ⟨b0, b1, b2, b3, b4, b5, b6, b7, b8, b9, b10, b11, b12, b13, b14, b15, rfl⟩

theorem isLocal_v6 (bytes : Vector UInt8 16) (scopeId : Nat) :
    ((v6 bytes scopeId).isIPv6LinkLocal || (v6 bytes scopeId).isIPv6UniqueLocal ||
      (v6 bytes scopeId).isIPv6SiteLocal) = localIPv6.any (·.contains bytes.toList) := by
  have ⟨b0, b1, b2, b3, b4, b5, b6, b7, b8, b9, b10, b11, b12, b13, b14, b15, hbytes⟩ :=
    exists_bytes bytes
  have ⟨hlink, hsite, hunique⟩ := number_masks b0 b1
  rw [hbytes, Bool.eq_iff_iff]
  simp [isIPv6LinkLocal, isIPv6UniqueLocal, isIPv6SiteLocal, firstNumber, localIPv6,
    AddressBlock.contains, sameBits_cons, hlink, hsite, hunique, ← UInt8.toNat_inj, or_assoc]

section V6

variable {bytes : Vector UInt8 16} {scopeId : Nat}
  (hmapped : (v6 bytes scopeId).isIPv4MappedToIPv6 = false)

include hmapped

theorem isPrivateOrLocal_v6 :
    isPrivateOrLocal (v6 bytes scopeId) =
      (scopeId = 0 && (bytes = ipv6Any || bytes = ipv6Loopback) ||
        localIPv6.any (·.contains bytes.toList)) := by
  have hnot : bytes.toList ≠ zeros 10 ++ [0xff, 0xff, 127, 0, 0, 1] := by
    intro heq
    rw [isIPv4MappedToIPv6, heq] at hmapped
    revert hmapped
    decide
  rw [isPrivateOrLocal, hmapped, if_neg Bool.false_ne_true, ← isLocal_v6 bytes scopeId]
  simp only [isLoopback, hnot, decide_false, Bool.or_false, reduceCtorEq, v6.injEq]
  by_cases hany : bytes = ipv6Any
  · by_cases hscope : scopeId = 0
    · simp [hany, hscope]
    · simp [hscope]
  · simp [hany]

theorem isPublicAddress_v6 :
    isPublicAddress (v6 bytes scopeId) =
      (globalIPv6.contains bytes.toList && !specialIPv6.any (·.contains bytes.toList)) := by
  rw [isPublicAddress, hmapped, if_neg Bool.false_ne_true]
  have ⟨b0, b1, b2, b3, b4, b5, b6, b7, b8, b9, b10, b11, b12, b13, b14, b15, hbytes⟩ :=
    exists_bytes bytes
  have ⟨_, hglobal, _⟩ := byte_masks b0
  have ⟨_, _, hspecial⟩ := byte_masks b2
  rw [hbytes, Bool.eq_iff_iff]
  simp [globalIPv6, specialIPv6, AddressBlock.contains, sameBits_cons, sameBits_nil, hglobal,
    hspecial, ← UInt8.toNat_inj, UInt8.le_iff_toNat_le, and_assoc]
  grind

/-- The forms that embed an address begin with bytes that are not public. -/
theorem embedded_of_isPublicAddress (h : isPublicAddress (v6 bytes scopeId) = true) :
    (v6 bytes scopeId).embedded = [] := by
  rw [isPublicAddress_v6 hmapped] at h
  have ⟨b0, b1, b2, b3, b4, b5, b6, b7, b8, b9, b10, b11, b12, b13, b14, b15, hbytes⟩ :=
    exists_bytes bytes
  rw [hbytes] at h ⊢
  simp [globalIPv6, specialIPv6, AddressBlock.contains, sameBits_cons, sameBits_nil,
    ← UInt8.toNat_inj] at h
  have hzero : b0 ≠ 0 := by
    intro heq
    rw [heq] at h
    exact absurd h.1 (by decide)
  have h6to4 : ¬(b0 = 0x20 ∧ b1 = 0x02) := by
    intro heq
    simp [heq.1, heq.2] at h
  simp [embedded, zeros, List.replicate, hzero]
  exact fun h0 h1 => h6to4 ⟨h0, h1⟩

end V6

/-! ## Where the filters agree -/

theorem isAllowedTarget_one (address : IPAddress) :
    isAllowedTarget false (some [address]) = !isPrivateOrLocal address := by
  simp [isAllowedTarget]

theorem filtersAgree_v4 (b0 b1 b2 b3 : UInt8) :
    FiltersAgree (v4 b0 b1 b2 b3) ↔ (v4 b0 b1 b2 b3).isMissed = false := by
  have hmissed : (v4 b0 b1 b2 b3).isMissed = false ↔
      [b0, b1, b2, b3] = zeros 4 ∨ ¬MissedRange b0 b1 b2 := by
    rw [← contains_missedIPv4 b0 b1 b2 b3, isMissed, isIPv4MappedToIPv6,
      if_neg Bool.false_ne_true]
    simp only [Bool.and_eq_false_iff, Bool.not_eq_false', decide_eq_true_eq, Bool.not_eq_true]
  rw [FiltersAgree, isAllowedTarget_one, Bool.not_eq_true', ← Bool.not_eq_true,
    isPrivateOrLocal_v4, isPublicAddress_v4, hmissed]
  have hnone : ∀ e ∈ (v4 b0 b1 b2 b3).embedded, isAllowedTarget false (some [e]) = true := nofun
  constructor
  · intro h
    by_cases hzero : [b0, b1, b2, b3] = zeros 4
    · exact .inl hzero
    · right
      by_cases hprivate : PrivateRange b0 b1
      · exact not_missedRange hprivate b2
      · exact (h (not_or.mpr ⟨hprivate, hzero⟩)).1.2
  · intro h haccepted
    have ⟨hprivate, hzero⟩ := not_or.mp haccepted
    exact ⟨⟨hprivate, h.resolve_left hzero⟩, hnone⟩

/-- A mapped address is decided as the address it stands for. -/
theorem filtersAgree_mapped {bytes : Vector UInt8 16} {scopeId : Nat}
    (hmapped : (v6 bytes scopeId).isIPv4MappedToIPv6 = true) :
    FiltersAgree (v6 bytes scopeId) ↔ FiltersAgree (v6 bytes scopeId).mapToIPv4 := by
  have hfirst : bytes.toList.take 12 = zeros 10 ++ [0xff, 0xff] := of_decide_eq_true hmapped
  have hfirst2 : bytes.toList.take 2 = [0, 0] := by
    have htake := congrArg (List.take 2) hfirst
    rwa [List.take_take] at htake
  have hprivate : isPrivateOrLocal (v6 bytes scopeId) =
      isPrivateOrLocal (v6 bytes scopeId).mapToIPv4 := by
    rw [isPrivateOrLocal, hmapped]
    rfl
  have hpublic : isPublicAddress (v6 bytes scopeId) =
      isPublicAddress (v6 bytes scopeId).mapToIPv4 := by
    rw [isPublicAddress, hmapped]
    rfl
  have hembedded : (v6 bytes scopeId).embedded = [(v6 bytes scopeId).mapToIPv4] := by
    rw [embedded, hfirst, hfirst2, if_pos rfl, if_neg (by decide), if_neg (by decide),
      if_neg (by decide)]
    rfl
  have hnone : (v6 bytes scopeId).mapToIPv4.embedded = [] := rfl
  rw [FiltersAgree, FiltersAgree, isAllowedTarget_one, isAllowedTarget_one, hprivate, hpublic,
    hembedded, hnone]
  simp only [List.mem_singleton, forall_eq, isAllowedTarget_one, List.not_mem_nil, false_imp_iff,
    implies_true, and_true]
  exact ⟨fun h haccepted => (h haccepted).1, fun h haccepted => ⟨h haccepted, haccepted⟩⟩

theorem filtersAgree_v6 {bytes : Vector UInt8 16} {scopeId : Nat}
    (hmapped : (v6 bytes scopeId).isIPv4MappedToIPv6 = false) :
    FiltersAgree (v6 bytes scopeId) ↔ (v6 bytes scopeId).isMissed = false := by
  have hmissed : (v6 bytes scopeId).isMissed =
      (!isPrivateOrLocal (v6 bytes scopeId) && !isPublicAddress (v6 bytes scopeId)) := by
    rw [isPrivateOrLocal_v6 hmapped, isPublicAddress_v6 hmapped, isMissed, hmapped,
      if_neg Bool.false_ne_true]
    dsimp only
    generalize localIPv6.any _ = islocal
    generalize (decide (scopeId = 0) && _) = unscoped
    generalize globalIPv6.contains _ = isglobal
    generalize specialIPv6.any _ = special
    revert islocal unscoped isglobal special
    decide
  rw [FiltersAgree, isAllowedTarget_one, hmissed]
  constructor
  · intro h
    cases hprivate : isPrivateOrLocal (v6 bytes scopeId) with
    | true => rfl
    | false => rw [(h (by rw [hprivate]; rfl)).1, Bool.not_true, Bool.and_false]
  · intro h haccepted
    have hpublic : isPublicAddress (v6 bytes scopeId) = true := by
      rw [haccepted, Bool.true_and, Bool.not_eq_false'] at h
      exact h
    refine ⟨hpublic, ?_⟩
    rw [embedded_of_isPublicAddress hmapped hpublic]
    exact nofun

/-- The filters agree on an address exactly when it is in none of the blocks that the notifier's
misses. -/
theorem filtersAgree_iff (address : IPAddress) :
    FiltersAgree address ↔ address.isMissed = false := by
  cases address with
  | v4 b0 b1 b2 b3 => exact filtersAgree_v4 b0 b1 b2 b3
  | v6 bytes scopeId =>
    cases hmapped : (v6 bytes scopeId).isIPv4MappedToIPv6 with
    | false => exact filtersAgree_v6 hmapped
    | true =>
      have hsame : (v6 bytes scopeId).isMissed = (v6 bytes scopeId).mapToIPv4.isMissed := by
        rw [isMissed, hmapped]
        rfl
      rw [filtersAgree_mapped hmapped, hsame]
      exact filtersAgree_v4 ..

/-- `100.64.0.1`, in the space that carriers share. -/
def sharedAddress : IPAddress := v4 100 64 0 1

/-- `64:ff9b::a00:1`, which is translated to `10.0.0.1`. -/
def translatedAddress : IPAddress :=
  v6 #v[0x00, 0x64, 0xff, 0x9b, 0, 0, 0, 0, 0, 0, 0, 0, 10, 0, 0, 1] 0

/-- The notifier sends requests to both. -/
theorem filters_disagree : ¬FiltersAgree sharedAddress ∧ ¬FiltersAgree translatedAddress := by
  constructor
  · intro h
    have hpublic := (h (by decide)).1
    revert hpublic
    decide
  · intro h
    have hembedded := (h (by decide)).2 (v4 10 0 0 1) (by decide)
    revert hembedded
    decide

end Wallow.Shared
