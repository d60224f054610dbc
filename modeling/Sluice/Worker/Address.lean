import Sluice.Foundations.Netip

/-
  The addresses that a webhook may be sent to.

  Key definitions include:
    * `isPublicAddr`
    * `Reserved`
    * `ClosedUnderReencoding`
    * `Undisguised`

  Key theorems include:
    * `isPublicAddr_v4_iff`
    * `isPublicAddr_v6_iff`
    * `closed_under_reencoding_iff`
-/

------------------------------------------------------------
-- The Dial Check
------------------------------------------------------------

namespace Sluice

namespace Worker

open Foundations.Netip

/-
  0.0.0.0/8, 100.64.0.0/10, 192.0.0.0/24, 198.18.0.0/15,
  240.0.0.0/4 and 64:ff9b::/96.
-/
def blockedPrefixes : List Prefix :=
  [⟨.v4 0x00000000#32, 8⟩, ⟨.v4 0x64400000#32, 10⟩,
    ⟨.v4 0xc0000000#32, 24⟩, ⟨.v4 0xc6120000#32, 15⟩,
    ⟨.v4 0xf0000000#32, 4⟩,
    ⟨.v6 0x0064ff9b000000000000000000000000#128 "", 96⟩]

def isPublicAddr (a : Addr) : Bool :=
  let a := a.unmap
  if a.isLoopback || a.isPrivate || a.isLinkLocalUnicast ||
      a.isLinkLocalMulticast ||
        a.isInterfaceLocalMulticast || a.isMulticast ||
          a.isUnspecified then
    false
  else !blockedPrefixes.any (fun p => p.contains a)

/-
  The IPv4 addresses that are not public, by their bits:
  0.0.0.0/8, 10.0.0.0/8, 100.64.0.0/10, 127.0.0.0/8,
  169.254.0.0/16, 172.16.0.0/12, 192.0.0.0/24,
  192.168.0.0/16, 198.18.0.0/15 and 224.0.0.0/3.
-/
def Reserved (bits : BitVec 32) : Prop :=
  bits.toNat / 2 ^ 24 = 0 ∨ bits.toNat / 2 ^ 24 = 10 ∨
    bits.toNat / 2 ^ 22 = 100 * 2 ^ 2 + 1 ∨
    bits.toNat / 2 ^ 24 = 127 ∨
    bits.toNat / 2 ^ 16 = 169 * 2 ^ 8 + 254 ∨
    bits.toNat / 2 ^ 20 = 172 * 2 ^ 4 + 1 ∨
    bits.toNat / 2 ^ 8 = 192 * 2 ^ 16 ∨
    bits.toNat / 2 ^ 16 = 192 * 2 ^ 8 + 168 ∨
    bits.toNat / 2 ^ 17 = 198 * 2 ^ 7 + 9 ∨
    bits.toNat / 2 ^ 29 = 7

/-
  Neither the removal of a zone nor the extraction of a
  carried address turns a public address into one that is
  not.
-/
def ClosedUnderReencoding (a : Addr) : Prop :=
  isPublicAddr a = true →
    isPublicAddr a.withoutZone = true ∧
      ∀ bits, a.carried? = some bits →
        isPublicAddr (.v4 bits) = true

------------------------------------------------------------
-- IPv4
------------------------------------------------------------

theorem isPublicAddr_iff
    (a : Addr) :
    isPublicAddr a = true ↔
      ¬(a.unmap.isLoopback = true ∨
          a.unmap.isPrivate = true ∨
          a.unmap.isLinkLocalUnicast = true ∨
          a.unmap.isLinkLocalMulticast = true ∨
          a.unmap.isInterfaceLocalMulticast = true ∨
          a.unmap.isMulticast = true ∨
          a.unmap.isUnspecified = true ∨
          blockedPrefixes.any
              (fun p => p.contains a.unmap) =
            true) := by
  unfold isPublicAddr
  simp only [Bool.if_false_left, Bool.and_eq_true,
    Bool.not_eq_true', ← Bool.not_eq_true, Bool.or_eq_true,
    decide_eq_true_eq, ← not_or, or_assoc]

theorem blockedPrefixes_v4_iff
    (bits : BitVec 32) :
    blockedPrefixes.any (fun p => p.contains (.v4 bits)) =
        true ↔
      bits.toNat / 2 ^ 24 = 0 ∨
        bits.toNat / 2 ^ 22 = 100 * 2 ^ 2 + 1 ∨
        bits.toNat / 2 ^ 8 = 192 * 2 ^ 16 ∨
        bits.toNat / 2 ^ 17 = 198 * 2 ^ 7 + 9 ∨
        bits.toNat / 2 ^ 28 = 15 := by
  simp only [blockedPrefixes, List.any_cons, List.any_nil,
    Bool.or_eq_true, Prefix.contains_v4_iff]
  simp [Prefix.contains]

theorem isPublicAddr_v4_iff
    (bits : BitVec 32) :
    isPublicAddr (.v4 bits) = true ↔ ¬Reserved bits := by
  have hInterface :
      (Addr.v4 bits).isInterfaceLocalMulticast = false :=
    rfl
  -- Some checks are covered by the ranges of others.
  have hUpper :
      bits.toNat / 2 ^ 28 = 14 ∨ bits.toNat / 2 ^ 28 = 15 ↔
        bits.toNat / 2 ^ 29 = 7 := by
    omega
  have hLocal :
      bits.toNat / 2 ^ 8 = 224 * 2 ^ 16 →
        bits.toNat / 2 ^ 28 = 14 := by
    omega
  have hZero :
      bits.toNat = 0 → bits.toNat / 2 ^ 24 = 0 := by
    omega
  rw [isPublicAddr_iff]
  simp only [Addr.unmap, Addr.isLoopback_v4_iff,
    Addr.isPrivate_v4_iff, Addr.isLinkLocalUnicast_v4_iff,
    Addr.isLinkLocalMulticast_v4_iff, hInterface,
    Addr.isMulticast_v4_iff, Addr.isUnspecified_v4_iff,
    blockedPrefixes_v4_iff, Bool.false_eq_true, false_or]
  unfold Reserved
  rw [← hUpper]
  grind

------------------------------------------------------------
-- IPv6
------------------------------------------------------------

section V6

variable {bits : BitVec 128}
variable {zone : String}

/- The spelling of a mapped address does not matter. -/
theorem isPublicAddr_mapped
    (hMapped : bits.toNat / 2 ^ 32 = 0xffff) :
    isPublicAddr (.v6 bits zone) =
      isPublicAddr (.v4 (bits.setWidth 32)) := by
  unfold isPublicAddr
  rw [Addr.unmap_of_mapped hMapped]
  rfl

/- The helpers that do not look at the zone. -/
def Local (bits : BitVec 128) : Prop :=
  bits = 1#128 ∨
    firstWord bits &&& 0xfe00#16 = 0xfc00#16 ∨
    firstWord bits &&& 0xffc0#16 = 0xfe80#16 ∨
    firstWord bits &&& 0xff0f#16 = 0xff02#16 ∨
    firstWord bits &&& 0xff0f#16 = 0xff01#16 ∨
    firstWord bits &&& 0xff00#16 = 0xff00#16

theorem isPublicAddr_v6_iff
    (hMapped : bits.toNat / 2 ^ 32 ≠ 0xffff) :
    isPublicAddr (.v6 bits zone) = true ↔
      ¬Local bits ∧
        ¬(zone = "" ∧
          (bits.toNat = 0 ∨
            bits.toNat / 2 ^ 32 = 0x64ff9b * 2 ^ 64)) := by
  have hBlocked :
      blockedPrefixes.any
            (fun p => p.contains (.v6 bits zone)) =
          true ↔
        zone = "" ∧
          bits.toNat / 2 ^ 32 = 0x64ff9b * 2 ^ 64 := by
    have hNat64 :=
      Prefix.contains_v6_iff
        0x0064ff9b000000000000000000000000#128 bits zone ""
        96
    simp only [blockedPrefixes, List.any_cons, List.any_nil,
      Bool.or_eq_true, hNat64]
    simp [Prefix.contains]
  have hUnspecified :
      (Addr.v6 bits zone).isUnspecified = true ↔
        zone = "" ∧ bits.toNat = 0 := by
    simp [Addr.isUnspecified, ← BitVec.toNat_inj, and_comm]
  rw [isPublicAddr_iff, Addr.unmap_of_not_mapped hMapped,
    hBlocked, hUnspecified]
  simp only [Addr.isLoopback, Addr.isPrivate,
    Addr.isLinkLocalUnicast, Addr.isLinkLocalMulticast,
    Addr.isInterfaceLocalMulticast, Addr.isMulticast,
    decide_eq_true_eq]
  unfold Local
  simp only [not_or, and_or_left, and_assoc]

/- In the ranges at issue, only ::1 is caught by a helper. -/
theorem local_iff_of_range
    (hRange :
      bits.toNat / 2 ^ 112 = 0 ∨
        bits.toNat / 2 ^ 112 = 0x64 ∨
          bits.toNat / 2 ^ 112 = 0x2002) :
    Local bits ↔ bits.toNat = 1 := by
  have hOne : bits = 1#128 ↔ bits.toNat = 1 := by
    rw [← BitVec.toNat_inj]
    rfl
  unfold Local
  rw [hOne]
  rcases hRange with hWord | hWord | hWord
  · rw [(firstWord_eq_iff 0#16).mpr hWord]
    simp
  · rw [(firstWord_eq_iff 0x64#16).mpr hWord]
    simp
  · rw [(firstWord_eq_iff 0x2002#16).mpr hWord]
    simp

end V6

------------------------------------------------------------
-- Disguised Addresses
------------------------------------------------------------

/-
  No zone hides the unspecified address or a NAT64 address,
  and no IPv4-compatible address (other than :: and ::1) and
  no 6to4 address carries a reserved IPv4 address.
-/
def Undisguised : Addr → Prop
| .v4 _ => True
| .v6 bits zone =>
    (zone = "" ∨
        (bits.toNat ≠ 0 ∧
          bits.toNat / 2 ^ 32 ≠ 0x64ff9b * 2 ^ 64)) ∧
      (bits.toNat / 2 ^ 32 = 0 →
        bits.toNat ≤ 1 ∨ ¬Reserved (bits.setWidth 32)) ∧
        (bits.toNat / 2 ^ 112 = 0x2002 →
          ¬Reserved ((bits >>> 80).setWidth 32))

section V6

variable {bits : BitVec 128}
variable {zone : String}

/- A mapped address is checked as what it carries. -/
theorem closed_of_mapped
    (hMapped : bits.toNat / 2 ^ 32 = 0xffff) :
    ClosedUnderReencoding (.v6 bits zone) := by
  intro hPublic
  rw [isPublicAddr_mapped hMapped] at hPublic
  refine ⟨?_, ?_⟩
  · simp only [Addr.withoutZone]
    rw [isPublicAddr_mapped hMapped]
    exact hPublic
  · intro c hCarried
    rcases Addr.carried?_eq_some_iff.mp hCarried with
      ⟨_, rfl⟩ | ⟨hSix, _⟩
    · exact hPublic
    · omega

/- Removing the zone hides nothing. -/
theorem zone_of_closed
    (hMapped : bits.toNat / 2 ^ 32 ≠ 0xffff)
    (hClosed : ClosedUnderReencoding (.v6 bits zone)) :
    zone = "" ∨
      (bits.toNat ≠ 0 ∧
        bits.toNat / 2 ^ 32 ≠ 0x64ff9b * 2 ^ 64) := by
  by_contra hHidden
  push Not at hHidden
  rcases hHidden with ⟨hZone, hBits⟩
  have hRange :
      bits.toNat = 0 ∨
        bits.toNat / 2 ^ 32 = 0x64ff9b * 2 ^ 64 := by
    by_cases hZero : bits.toNat = 0
    · exact .inl hZero
    · exact .inr (hBits hZero)
  have hLocal : ¬Local bits := by
    rw [local_iff_of_range (by omega)]
    omega
  have hPublic :
      isPublicAddr (.v6 bits zone) = true :=
    (isPublicAddr_v6_iff hMapped).mpr
      ⟨hLocal, fun hBare => hZone hBare.1⟩
  have hBare := (hClosed hPublic).1
  exact ((isPublicAddr_v6_iff hMapped).mp hBare).2
    ⟨rfl, hRange⟩

/- What is carried by a public address is not reserved. -/
theorem not_reserved_of_closed
    {c : BitVec 32}
    (hClosed : ClosedUnderReencoding (.v6 bits zone))
    (hMapped : bits.toNat / 2 ^ 32 ≠ 0xffff)
    (hRange :
      bits.toNat / 2 ^ 112 = 0 ∨
        bits.toNat / 2 ^ 112 = 0x2002)
    (hBits :
      1 < bits.toNat ∧
        bits.toNat / 2 ^ 32 ≠ 0x64ff9b * 2 ^ 64)
    (hCarried :
      (Addr.v6 bits zone).carried? = some c) :
    ¬Reserved c := by
  have hLocal : ¬Local bits := by
    rw [local_iff_of_range (by omega)]
    omega
  have hPublic :
      isPublicAddr (.v6 bits zone) = true := by
    apply (isPublicAddr_v6_iff hMapped).mpr
    refine ⟨hLocal, ?_⟩
    rintro ⟨_, hZero | hNat64⟩
    · omega
    · exact hBits.2 hNat64
  exact (isPublicAddr_v4_iff c).mp
    ((hClosed hPublic).2 c hCarried)

theorem closed_of_undisguised
    (hMapped : bits.toNat / 2 ^ 32 ≠ 0xffff)
    (hUndisguised : Undisguised (.v6 bits zone)) :
    ClosedUnderReencoding (.v6 bits zone) := by
  rcases hUndisguised with ⟨hZone, hCompatible, hSix⟩
  intro hPublic
  rcases (isPublicAddr_v6_iff hMapped).mp hPublic with
    ⟨hLocal, hBare⟩
  have hBits :
      ¬(bits.toNat = 0 ∨
        bits.toNat / 2 ^ 32 = 0x64ff9b * 2 ^ 64) := by
    rcases hZone with hNone | ⟨hZero, hNat64⟩
    · exact fun hBits => hBare ⟨hNone, hBits⟩
    · exact fun hBits => hBits.elim hZero hNat64
  refine ⟨?_, ?_⟩
  · apply (isPublicAddr_v6_iff hMapped).mpr
    exact ⟨hLocal, fun hAgain => hBits hAgain.2⟩
  · intro c hCarried
    apply (isPublicAddr_v4_iff c).mpr
    rcases Addr.carried?_eq_some_iff.mp hCarried with
      ⟨hRange, rfl⟩ | ⟨hRange, rfl⟩
    · have hZero : bits.toNat / 2 ^ 32 = 0 := by
        omega
      rcases hCompatible hZero with hSmall | hFree
      · -- :: is excluded above, and ::1 is a loopback address
        have hLoopback : bits.toNat = 1 := by
          omega
        exact absurd
          ((local_iff_of_range (by omega)).mpr hLoopback)
          hLocal
      · exact hFree
    · exact hSix hRange

end V6

/-
  Every spelling of an address is judged alike, exactly for
  the addresses that are not disguised.
-/
theorem closed_under_reencoding_iff
    (a : Addr) :
    ClosedUnderReencoding a ↔ Undisguised a := by
  cases a with
  | v4 bits =>
      have hNone : (Addr.v4 bits).carried? = none := rfl
      constructor
      · intro _
        trivial
      · intro _ hPublic
        refine ⟨hPublic, ?_⟩
        intro c hCarried
        rw [hNone] at hCarried
        cases hCarried
  | v6 bits zone =>
      by_cases hMapped : bits.toNat / 2 ^ 32 = 0xffff
      · constructor
        · intro _
          refine ⟨.inr ?_, ?_, ?_⟩
          · omega
          · omega
          · omega
        · intro _
          exact closed_of_mapped hMapped
      · constructor
        · intro hClosed
          refine ⟨zone_of_closed hMapped hClosed, ?_, ?_⟩
          · intro hCompatible
            by_cases hSmall : bits.toNat ≤ 1
            · exact .inl hSmall
            · right
              apply not_reserved_of_closed hClosed hMapped
              · omega
              · omega
              · apply Addr.carried?_eq_some_iff.mpr
                exact .inl ⟨.inr (.inl hCompatible), rfl⟩
          · intro hSix
            apply not_reserved_of_closed hClosed hMapped
            · exact .inr hSix
            · omega
            · apply Addr.carried?_eq_some_iff.mpr
              exact .inr ⟨hSix, rfl⟩
        · exact closed_of_undisguised hMapped

/-
  Public by the check: a NAT64 address of 127.0.0.1 with a
  zone, :: with a zone, ::127.0.0.1, and the 6to4 address of
  169.254.169.254. Without the zone or by what they carry
  they are not.
-/
theorem disguised_addresses_are_public :
    (isPublicAddr
          (.v6 0x0064ff9b00000000000000007f000001#128
            "eth0") =
        true ∧
      isPublicAddr
          (.v6 0x0064ff9b00000000000000007f000001#128 "") =
        false) ∧
      (isPublicAddr (.v6 0#128 "eth0") = true ∧
        isPublicAddr (.v6 0#128 "") = false) ∧
      (isPublicAddr (.v6 0x7f000001#128 "") = true ∧
        (Addr.v6 0x7f000001#128 "").carried? =
          some 0x7f000001#32 ∧
        isPublicAddr (.v4 0x7f000001#32) = false) ∧
      (isPublicAddr
            (.v6 0x2002a9fea9fe00000000000000000001#128
              "") =
          true ∧
        (Addr.v6 0x2002a9fea9fe00000000000000000001#128
            "").carried? =
          some 0xa9fea9fe#32 ∧
        isPublicAddr (.v4 0xa9fea9fe#32) = false) := by
  decide +kernel

end Worker

end Sluice
