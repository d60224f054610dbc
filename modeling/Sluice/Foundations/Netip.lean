import Mathlib.Algebra.Group.Nat.Defs
import Mathlib.Data.List.Basic

/-
  Internet addresses, as package `net/netip` has them.

  An address is 32 bits, or 128 bits and a zone. The zone of
  an address without one is the empty string. The predicates
  of the package look at the bits only, with two exceptions:
  no prefix contains an address with a zone, and the
  unspecified address has none.

  Key definitions include:
    * `Addr`
    * `Addr.unmap`
    * `Addr.isLoopback`, `Addr.isPrivate` and so on
    * `Prefix` and `Prefix.contains`
    * `Addr.carried?`

  Key theorems include:
    * `octet_and_eq_iff`
    * `toNat_octet`
    * `Prefix.contains_v4_iff`
    * `Prefix.contains_v6_iff`
-/

------------------------------------------------------------
-- Addresses
------------------------------------------------------------

namespace Foundations

namespace Netip

inductive Addr
| v4 (bits : BitVec 32)
| v6 (bits : BitVec 128) (zone : String)
deriving DecidableEq, Repr

/- The octet number `i` of an IPv4 address. -/
def octet (bits : BitVec 32) (i : Nat) : BitVec 8 :=
  (bits >>> ((3 - i) * 8)).setWidth 8

/- The first 16 bits of an IPv6 address. -/
def firstWord (bits : BitVec 128) : BitVec 16 :=
  (bits >>> 112).setWidth 16

namespace Addr

def withoutZone : Addr → Addr
| .v4 bits => .v4 bits
| .v6 bits _ => .v6 bits ""

/- An IPv4-mapped address becomes the IPv4 address. -/
def unmap : Addr → Addr
| .v4 bits => .v4 bits
| .v6 bits zone =>
    if bits >>> 32 = 0xffff#128 then .v4 (bits.setWidth 32)
    else .v6 bits zone

/- 127.0.0.0/8, and ::1. -/
def isLoopback : Addr → Bool
| .v4 bits => octet bits 0 = 127#8
| .v6 bits _ => bits = 1#128

/- 10.0.0.0/8, 172.16.0.0/12, 192.168.0.0/16; fc00::/7. -/
def isPrivate : Addr → Bool
| .v4 bits =>
    octet bits 0 = 10#8 ||
      (octet bits 0 = 172#8 &&
        octet bits 1 &&& 0xf0#8 = 16#8) ||
        (octet bits 0 = 192#8 && octet bits 1 = 168#8)
| .v6 bits _ => firstWord bits &&& 0xfe00#16 = 0xfc00#16

/- 169.254.0.0/16, and fe80::/10. -/
def isLinkLocalUnicast : Addr → Bool
| .v4 bits => octet bits 0 = 169#8 && octet bits 1 = 254#8
| .v6 bits _ => firstWord bits &&& 0xffc0#16 = 0xfe80#16

/- 224.0.0.0/24, and ff02::/16 with any flags. -/
def isLinkLocalMulticast : Addr → Bool
| .v4 bits =>
    octet bits 0 = 224#8 && octet bits 1 = 0#8 &&
      octet bits 2 = 0#8
| .v6 bits _ => firstWord bits &&& 0xff0f#16 = 0xff02#16

/- ff01::/16 with any flags. -/
def isInterfaceLocalMulticast : Addr → Bool
| .v4 _ => false
| .v6 bits _ => firstWord bits &&& 0xff0f#16 = 0xff01#16

/- 224.0.0.0/4, and ff00::/8. -/
def isMulticast : Addr → Bool
| .v4 bits => octet bits 0 &&& 0xf0#8 = 0xe0#8
| .v6 bits _ => firstWord bits &&& 0xff00#16 = 0xff00#16

/- An equality of addresses, so that the zone counts. -/
def isUnspecified (a : Addr) : Bool :=
  a = .v4 0#32 || a = .v6 0#128 ""

end Addr

------------------------------------------------------------
-- Prefixes
------------------------------------------------------------

structure Prefix where
  ip : Addr
  bits : Nat
deriving DecidableEq, Repr

/-
  No address with a zone is in a prefix, and no address of
  the other family.
-/
def Prefix.contains (p : Prefix) (a : Addr) : Bool :=
  match p.ip, a with
  | .v4 base, .v4 bits =>
      bits >>> (32 - p.bits) = base >>> (32 - p.bits)
  | .v6 base _, .v6 bits zone =>
      zone = "" &&
        bits >>> (128 - p.bits) = base >>> (128 - p.bits)
  | _, _ => false

/- IPv4-mapped addresses, ::ffff:0:0/96. -/
def mapped : Prefix where
  ip := .v6 0xffff00000000#128 ""
  bits := 96

/- IPv4-compatible addresses, ::/96. -/
def compatible : Prefix where
  ip := .v6 0#128 ""
  bits := 96

/- The well-known prefix of NAT64, 64:ff9b::/96. -/
def nat64 : Prefix where
  ip := .v6 0x0064ff9b000000000000000000000000#128 ""
  bits := 96

/- 6to4, 2002::/16. -/
def sixToFour : Prefix where
  ip := .v6 0x20020000000000000000000000000000#128 ""
  bits := 16

/-
  The IPv4 address that an address carries. It is read from
  the bits, whatever the zone.
-/
def Addr.carried? : Addr → Option (BitVec 32)
| .v4 _ => none
| .v6 bits _ =>
    if mapped.contains (.v6 bits "") ||
        compatible.contains (.v6 bits "") ||
          nat64.contains (.v6 bits "") then
      some (bits.setWidth 32)
    else if sixToFour.contains (.v6 bits "") then
      some ((bits >>> 80).setWidth 32)
    else none

------------------------------------------------------------
-- Bits As Numbers
------------------------------------------------------------

theorem toNat_octet
    (bits : BitVec 32)
    (i : Nat) :
    (octet bits i).toNat =
      bits.toNat / 2 ^ ((3 - i) * 8) % 256 := by
  unfold octet
  rw [BitVec.toNat_setWidth, BitVec.toNat_ushiftRight,
    Nat.shiftRight_eq_div_pow]

theorem octet_eq_iff
    (bits : BitVec 32)
    (i : Nat)
    (v : BitVec 8) :
    octet bits i = v ↔
      bits.toNat / 2 ^ ((3 - i) * 8) % 256 = v.toNat := by
  rw [← toNat_octet, BitVec.toNat_inj]

/- The high half of an octet. -/
theorem octet_and_eq_iff
    (v : BitVec 8)
    (high : BitVec 4) :
    v &&& 0xf0#8 = high.setWidth 8 <<< 4 ↔
      v.toNat / 16 = high.toNat := by
  have hMask :
      (v &&& 0xf0#8).toNat = v.toNat / 16 * 16 := by
    revert v
    decide +kernel
  have hShift :
      (high.setWidth 8 <<< 4).toNat = high.toNat * 16 := by
    revert high
    decide +kernel
  rw [← BitVec.toNat_inj, hMask, hShift]
  omega

theorem Prefix.contains_v4_iff
    (base bits : BitVec 32)
    (n : Nat) :
    (Prefix.mk (.v4 base) n).contains (.v4 bits) = true ↔
      bits.toNat / 2 ^ (32 - n) =
        base.toNat / 2 ^ (32 - n) := by
  simp only [Prefix.contains, decide_eq_true_eq]
  rw [← BitVec.toNat_inj, BitVec.toNat_ushiftRight,
    BitVec.toNat_ushiftRight, Nat.shiftRight_eq_div_pow,
    Nat.shiftRight_eq_div_pow]

theorem Prefix.contains_v6_iff
    (base bits : BitVec 128)
    (zone zone' : String)
    (n : Nat) :
    (Prefix.mk (.v6 base zone') n).contains
          (.v6 bits zone) =
        true ↔
      zone = "" ∧
        bits.toNat / 2 ^ (128 - n) =
          base.toNat / 2 ^ (128 - n) := by
  simp only [Prefix.contains, Bool.and_eq_true,
    decide_eq_true_eq]
  rw [← BitVec.toNat_inj (x := bits >>> (128 - n)),
    BitVec.toNat_ushiftRight, BitVec.toNat_ushiftRight,
    Nat.shiftRight_eq_div_pow, Nat.shiftRight_eq_div_pow]

------------------------------------------------------------
-- The IPv4 Ranges
------------------------------------------------------------

namespace Addr

variable (bits : BitVec 32)

theorem isLoopback_v4_iff :
    (Addr.v4 bits).isLoopback = true ↔
      bits.toNat / 2 ^ 24 = 127 := by
  have hLess := bits.isLt
  simp only [isLoopback, decide_eq_true_eq, octet_eq_iff]
  change bits.toNat / 2 ^ 24 % 256 = 127 ↔ _
  omega

theorem isPrivate_v4_iff :
    (Addr.v4 bits).isPrivate = true ↔
      bits.toNat / 2 ^ 24 = 10 ∨
        bits.toNat / 2 ^ 20 = 172 * 2 ^ 4 + 1 ∨
          bits.toNat / 2 ^ 16 = 192 * 2 ^ 8 + 168 := by
  have hLess := bits.isLt
  have hHigh :
      octet bits 1 &&& 0xf0#8 = 16#8 ↔
        (octet bits 1).toNat / 16 = 1 :=
    octet_and_eq_iff (octet bits 1) 1#4
  simp only [isPrivate, Bool.or_eq_true, Bool.and_eq_true,
    decide_eq_true_eq, hHigh, octet_eq_iff, toNat_octet]
  change
    (bits.toNat / 2 ^ 24 % 256 = 10 ∨
        bits.toNat / 2 ^ 24 % 256 = 172 ∧
          bits.toNat / 2 ^ 16 % 256 / 16 = 1) ∨
          bits.toNat / 2 ^ 24 % 256 = 192 ∧
            bits.toNat / 2 ^ 16 % 256 = 168 ↔
      _
  omega

theorem isLinkLocalUnicast_v4_iff :
    (Addr.v4 bits).isLinkLocalUnicast = true ↔
      bits.toNat / 2 ^ 16 = 169 * 2 ^ 8 + 254 := by
  have hLess := bits.isLt
  simp only [isLinkLocalUnicast, Bool.and_eq_true,
    decide_eq_true_eq, octet_eq_iff]
  change
    bits.toNat / 2 ^ 24 % 256 = 169 ∧
        bits.toNat / 2 ^ 16 % 256 = 254 ↔
      _
  omega

theorem isLinkLocalMulticast_v4_iff :
    (Addr.v4 bits).isLinkLocalMulticast = true ↔
      bits.toNat / 2 ^ 8 = 224 * 2 ^ 16 := by
  have hLess := bits.isLt
  simp only [isLinkLocalMulticast, Bool.and_eq_true,
    decide_eq_true_eq, octet_eq_iff]
  change
    (bits.toNat / 2 ^ 24 % 256 = 224 ∧
        bits.toNat / 2 ^ 16 % 256 = 0) ∧
        bits.toNat / 2 ^ 8 % 256 = 0 ↔
      _
  omega

theorem isMulticast_v4_iff :
    (Addr.v4 bits).isMulticast = true ↔
      bits.toNat / 2 ^ 28 = 14 := by
  have hLess := bits.isLt
  have hHigh :
      octet bits 0 &&& 0xf0#8 = 0xe0#8 ↔
        (octet bits 0).toNat / 16 = 14 :=
    octet_and_eq_iff (octet bits 0) 14#4
  simp only [isMulticast, decide_eq_true_eq, hHigh,
    toNat_octet]
  change bits.toNat / 2 ^ 24 % 256 / 16 = 14 ↔ _
  omega

theorem isUnspecified_v4_iff :
    (Addr.v4 bits).isUnspecified = true ↔
      bits.toNat = 0 := by
  simp [isUnspecified, ← BitVec.toNat_inj]

end Addr

------------------------------------------------------------
-- The IPv6 Ranges
------------------------------------------------------------

section V6

variable {bits : BitVec 128}

theorem firstWord_eq_iff
    (v : BitVec 16) :
    firstWord bits = v ↔
      bits.toNat / 2 ^ 112 = v.toNat := by
  have hLess := bits.isLt
  unfold firstWord
  rw [← BitVec.toNat_inj, BitVec.toNat_setWidth,
    BitVec.toNat_ushiftRight, Nat.shiftRight_eq_div_pow]
  omega

theorem mapped_iff :
    bits >>> 32 = 0xffff#128 ↔
      bits.toNat / 2 ^ 32 = 0xffff := by
  rw [← BitVec.toNat_inj, BitVec.toNat_ushiftRight,
    Nat.shiftRight_eq_div_pow]
  rfl

theorem Addr.unmap_of_mapped
    {zone : String}
    (hMapped : bits.toNat / 2 ^ 32 = 0xffff) :
    (Addr.v6 bits zone).unmap =
      .v4 (bits.setWidth 32) :=
  if_pos (mapped_iff.mpr hMapped)

theorem Addr.unmap_of_not_mapped
    {zone : String}
    (hMapped : bits.toNat / 2 ^ 32 ≠ 0xffff) :
    (Addr.v6 bits zone).unmap = .v6 bits zone :=
  if_neg (mapped_iff.not.mpr hMapped)

/- The carried address, by the range of the bits. -/
theorem Addr.carried?_eq_some_iff
    {zone : String}
    {c : BitVec 32} :
    (Addr.v6 bits zone).carried? = some c ↔
      ((bits.toNat / 2 ^ 32 = 0xffff ∨
            bits.toNat / 2 ^ 32 = 0 ∨
              bits.toNat / 2 ^ 32 = 0x64ff9b * 2 ^ 64) ∧
          c = bits.setWidth 32) ∨
        (bits.toNat / 2 ^ 112 = 0x2002 ∧
          c = (bits >>> 80).setWidth 32) := by
  have hLow :
      (mapped.contains (.v6 bits "") ||
          compatible.contains (.v6 bits "") ||
            nat64.contains (.v6 bits "")) =
          true ↔
        bits.toNat / 2 ^ 32 = 0xffff ∨
          bits.toNat / 2 ^ 32 = 0 ∨
            bits.toNat / 2 ^ 32 = 0x64ff9b * 2 ^ 64 := by
    simp [mapped, compatible, nat64, Prefix.contains_v6_iff,
      or_assoc]
  have hHigh :
      sixToFour.contains (.v6 bits "") = true ↔
        bits.toNat / 2 ^ 112 = 0x2002 := by
    simp [sixToFour, Prefix.contains_v6_iff]
  simp only [carried?]
  by_cases hRange :
      bits.toNat / 2 ^ 32 = 0xffff ∨
        bits.toNat / 2 ^ 32 = 0 ∨
          bits.toNat / 2 ^ 32 = 0x64ff9b * 2 ^ 64
  · have hNot : bits.toNat / 2 ^ 112 ≠ 0x2002 := by
      omega
    rw [if_pos (hLow.mpr hRange), Option.some.injEq]
    constructor
    · rintro rfl
      exact .inl ⟨hRange, rfl⟩
    · rintro (⟨_, rfl⟩ | ⟨hSix, _⟩)
      · rfl
      · exact absurd hSix hNot
  · rw [if_neg (hLow.not.mpr hRange)]
    by_cases hSix : bits.toNat / 2 ^ 112 = 0x2002
    · rw [if_pos (hHigh.mpr hSix), Option.some.injEq]
      constructor
      · rintro rfl
        exact .inr ⟨hSix, rfl⟩
      · rintro (⟨hLower, _⟩ | ⟨_, rfl⟩)
        · exact absurd hLower hRange
        · rfl
    · rw [if_neg (hHigh.not.mpr hSix)]
      constructor
      · intro hNone
        cases hNone
      · rintro (⟨hLower, _⟩ | ⟨hUpper, _⟩)
        · exact absurd hLower hRange
        · exact absurd hUpper hSix

end V6

end Netip

end Foundations
