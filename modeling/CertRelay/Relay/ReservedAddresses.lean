import CertRelay.Relay.AddressPolicy

/-!
# Reserved addresses

The networks that are not part of the public internet, among them those of IPv6 that embed
an address of IPv4, and those of them that the test for public addresses does not know.

**Results.**
* `ipv4IsPublic_iff`, `ipIsPublic_iff_of_unmapped`: the networks that the test knows;
* `reservedIpv4_iff`: the reserved networks are those and the missed ones;
* `keptOut_reserved_iff`: the reserved addresses that are kept out.
-/

namespace CertRelay
namespace AddressPolicy

section Ipv4

/-- The network `a.b.c.d/length`. -/
def net4 (a b c d : BitVec 8) (length : ℕ) : Cidr 32 :=
  ⟨a ++ b ++ c ++ d, length⟩

/-- The reserved networks of IPv4. -/
def reservedNets4 : List (Cidr 32) :=
  [net4 0 0 0 0 8, net4 10 0 0 0 8, net4 100 64 0 0 10, net4 127 0 0 0 8, net4 169 254 0 0 16,
    net4 172 16 0 0 12, net4 192 0 0 0 24, net4 192 0 2 0 24, net4 192 168 0 0 16,
    net4 198 18 0 0 15, net4 198 51 100 0 24, net4 203 0 113 0 24, net4 224 0 0 0 4,
    net4 240 0 0 0 4]

/-- Those that the test knows; of `240.0.0.0/4` it knows the broadcast address. -/
def knownNets4 : List (Cidr 32) :=
  [net4 10 0 0 0 8, net4 172 16 0 0 12, net4 192 168 0 0 16, net4 127 0 0 0 8,
    net4 169 254 0 0 16, net4 255 255 255 255 32, net4 192 0 2 0 24, net4 198 51 100 0 24,
    net4 203 0 113 0 24, net4 0 0 0 0 8, net4 100 64 0 0 10]

/-- Those that it does not know at all. -/
def missedNets4 : List (Cidr 32) :=
  [net4 192 0 0 0 24, net4 198 18 0 0 15, net4 224 0 0 0 4]

def ReservedIpv4 (v4 : BitVec 32) : Prop :=
  ∃ p ∈ reservedNets4, p.Contains v4

/-- A reserved address of IPv4 that passes for public. -/
def MissedIpv4 (v4 : BitVec 32) : Prop :=
  (∃ p ∈ missedNets4, p.Contains v4) ∨ ((net4 240 0 0 0 4).Contains v4 ∧ v4 ≠ 0xFFFFFFFF)

variable {v4 : BitVec 32}

theorem toNat_octet
    (v4 : BitVec 32)
    (i : ℕ) :
    (octet v4 i).toNat = v4.toNat / 2 ^ (8 * (3 - i)) % 256 := by
  unfold octet
  rw [BitVec.extractLsb'_toNat, Nat.shiftRight_eq_div_pow]

theorem isPrivate_iff :
    isPrivate v4 = true ↔ (net4 10 0 0 0 8).Contains v4 ∨ (net4 172 16 0 0 12).Contains v4 ∨
      (net4 192 168 0 0 16).Contains v4 := by
  have hlt := v4.isLt
  simp only [Cidr.contains_iff, net4]
  simp [isPrivate, ← BitVec.toNat_inj, BitVec.le_def, toNat_octet]
  omega

theorem isLoopback_iff :
    isLoopback v4 = true ↔ (net4 127 0 0 0 8).Contains v4 := by
  have hlt := v4.isLt
  simp only [Cidr.contains_iff, net4]
  simp [isLoopback, ← BitVec.toNat_inj, toNat_octet]
  omega

theorem isLinkLocal_iff :
    isLinkLocal v4 = true ↔ (net4 169 254 0 0 16).Contains v4 := by
  have hlt := v4.isLt
  simp only [Cidr.contains_iff, net4]
  simp [isLinkLocal, ← BitVec.toNat_inj, toNat_octet]
  omega

theorem contains_broadcast_iff :
    (net4 255 255 255 255 32).Contains v4 ↔ v4 = 0xFFFFFFFF := by
  simp only [Cidr.contains_iff, net4]
  simp [← BitVec.toNat_inj]

theorem isBroadcast_iff :
    isBroadcast v4 = true ↔ (net4 255 255 255 255 32).Contains v4 := by
  rw [contains_broadcast_iff]
  exact beq_iff_eq

theorem isDocumentation_iff :
    isDocumentation v4 = true ↔ (net4 192 0 2 0 24).Contains v4 ∨
      (net4 198 51 100 0 24).Contains v4 ∨ (net4 203 0 113 0 24).Contains v4 := by
  have hlt := v4.isLt
  simp only [Cidr.contains_iff, net4]
  simp [isDocumentation, ← BitVec.toNat_inj, toNat_octet]
  omega

/-- The unspecified address lies in the network of the next test. -/
theorem isUnspecified_or_iff :
    ((IpAddr.v4 v4).isUnspecified || octet v4 0 == 0) = true ↔
      (net4 0 0 0 0 8).Contains v4 := by
  have hlt := v4.isLt
  simp only [Cidr.contains_iff, net4]
  simp [IpAddr.isUnspecified, ← BitVec.toNat_inj, toNat_octet]
  omega

theorem isCarrierGrade_iff :
    (octet v4 0 == 100 && (octet v4 1 &&& 0xC0) == 64) = true ↔
      (net4 100 64 0 0 10).Contains v4 := by
  have hlt := v4.isLt
  have hmask : (octet v4 1 &&& 0xC0).toNat = v4.toNat / 65536 % 256 / 64 * 64 := by
    rw [show (0xC0 : BitVec 8) = BitVec.allOnes 8 <<< 6 by decide, Cidr.toNat_and_highMask,
      toNat_octet]
    rfl
  have hsame : ((octet v4 1 &&& 0xC0) == 64) = decide (v4.toNat / 65536 % 256 / 64 * 64 = 64) := by
    rw [Bool.eq_iff_iff, beq_iff_eq, decide_eq_true_iff, ← BitVec.toNat_inj, hmask]
    rfl
  rw [hsame]
  simp only [Cidr.contains_iff, net4]
  simp [← BitVec.toNat_inj, toNat_octet]
  omega

/-- **The networks of IPv4 that the test knows.** -/
theorem ipv4IsPublic_iff :
    ipv4IsPublic v4 = false ↔ ∃ p ∈ knownNets4, p.Contains v4 := by
  have htests : ipv4IsPublic v4 = false ↔ isPrivate v4 = true ∨ isLoopback v4 = true ∨
      isLinkLocal v4 = true ∨ isBroadcast v4 = true ∨ isDocumentation v4 = true ∨
      ((IpAddr.v4 v4).isUnspecified || octet v4 0 == 0) = true ∨
      (octet v4 0 == 100 && (octet v4 1 &&& 0xC0) == 64) = true := by
    unfold ipv4IsPublic
    simp only [Bool.not_eq_false', Bool.or_eq_true, or_assoc]
  rw [htests, isPrivate_iff, isLoopback_iff, isLinkLocal_iff, isBroadcast_iff,
    isDocumentation_iff, isUnspecified_or_iff, isCarrierGrade_iff]
  simp only [knownNets4, List.exists_mem_cons_iff, List.not_mem_nil, false_and, exists_false,
    or_false, or_assoc]

/-- The reserved networks are those that the test knows and the missed ones. -/
theorem reservedIpv4_iff :
    ReservedIpv4 v4 ↔ (∃ p ∈ knownNets4, p.Contains v4) ∨ MissedIpv4 v4 := by
  have hwide : net4 240 0 0 0 4 ∈ reservedNets4 := by decide
  have hsplit : ∀ p ∈ reservedNets4, p ∈ knownNets4 ∨ p ∈ missedNets4 ∨ p = net4 240 0 0 0 4 := by
    decide
  have hknown : ∀ p ∈ knownNets4, p ∈ reservedNets4 ∨ p = net4 255 255 255 255 32 := by decide
  have hmissed : ∀ p ∈ missedNets4, p ∈ reservedNets4 := by decide
  have hlast : (net4 255 255 255 255 32).Contains v4 → (net4 240 0 0 0 4).Contains v4 := by
    rw [contains_broadcast_iff]
    rintro rfl
    decide
  constructor
  · rintro ⟨p, hp, hcontains⟩
    rcases hsplit p hp with hp | hp | rfl
    · exact .inl ⟨p, hp, hcontains⟩
    · exact .inr (.inl ⟨p, hp, hcontains⟩)
    · by_cases hv4 : v4 = 0xFFFFFFFF
      · exact .inl ⟨net4 255 255 255 255 32, by decide, contains_broadcast_iff.2 hv4⟩
      · exact .inr (.inr ⟨hcontains, hv4⟩)
  · rintro (⟨p, hp, hcontains⟩ | ⟨p, hp, hcontains⟩ | ⟨hcontains, _⟩)
    · rcases hknown p hp with hp | rfl
      · exact ⟨p, hp, hcontains⟩
      · exact ⟨_, hwide, hlast hcontains⟩
    · exact ⟨p, hmissed p hp, hcontains⟩
    · exact ⟨_, hwide, hcontains⟩

/-- What the test misses it does not know. -/
theorem not_known_of_missed
    (h : MissedIpv4 v4) :
    ¬ ∃ p ∈ knownNets4, p.Contains v4 := by
  rintro ⟨p, hp, hcontains⟩
  have happart : ∀ q ∈ missedNets4, ∀ p ∈ knownNets4, q.Apart p := by decide
  have hrest : ∀ p ∈ knownNets4, p = net4 255 255 255 255 32 ∨ (net4 240 0 0 0 4).Apart p := by
    decide
  rcases h with ⟨q, hq, hmissed⟩ | ⟨hmissed, hne⟩
  · exact (happart q hq p hp).not_contains hmissed hcontains
  · rcases hrest p hp with rfl | hp
    · exact hne (contains_broadcast_iff.1 hcontains)
    · exact hp.not_contains hmissed hcontains

theorem reservedIpv4_imp_iff :
    (ReservedIpv4 v4 → ipv4IsPublic v4 = false) ↔ ¬ MissedIpv4 v4 := by
  rw [ipv4IsPublic_iff, reservedIpv4_iff]
  constructor
  · exact fun h hmissed => not_known_of_missed hmissed (h (.inr hmissed))
  · exact fun hnot h => h.resolve_right hnot

end Ipv4

section Ipv6

/-- The network of IPv6 with some leading segments. -/
def net6 (leading : List ℕ) (length : ℕ) : Cidr 128 :=
  ⟨BitVec.ofNat 128 (leading.foldl (fun n s => n * 2 ^ 16 + s) 0 * 2 ^ (16 * (8 - leading.length))),
    length⟩

/-- A network whose addresses embed one of IPv4, and the place of its last bit. -/
structure Embedding where
  net : Cidr 128
  place : ℕ

/-- The address of IPv4 in one of IPv6. -/
def Embedding.embedded (e : Embedding) (v6 : BitVec 128) : BitVec 32 :=
  v6.extractLsb' e.place 32

def mapped : Embedding :=
  ⟨net6 [0, 0, 0, 0, 0, 0xFFFF] 96, 0⟩

/-- IPv4-compatible addresses, those of NAT64, and those of 6to4. -/
def unmapped : List Embedding :=
  [⟨net6 [] 96, 0⟩, ⟨net6 [0x64, 0xFF9B] 96, 0⟩, ⟨net6 [0x2002] 16, 80⟩]

/-- The networks of IPv6 that the test knows. -/
def knownNets6 : List (Cidr 128) :=
  [net6 [0xFC00] 7, net6 [0xFE80] 10, net6 [0x2001, 0xDB8] 32]

def multicast6 : Cidr 128 :=
  net6 [0xFF00] 8

def ReservedIpv6 (v6 : BitVec 128) : Prop :=
  v6 = 0 ∨ v6 = 1 ∨ (∃ p ∈ multicast6 :: knownNets6, p.Contains v6) ∨
    ∃ e ∈ mapped :: unmapped, e.net.Contains v6 ∧ ReservedIpv4 (e.embedded v6)

/-- A reserved address of IPv6 that passes for public. -/
def MissedIpv6 (v6 : BitVec 128) : Prop :=
  multicast6.Contains v6 ∨ (mapped.net.Contains v6 ∧ MissedIpv4 (mapped.embedded v6)) ∨
    ∃ e ∈ unmapped, e.net.Contains v6 ∧ ReservedIpv4 (e.embedded v6) ∧ v6 ≠ 0 ∧ v6 ≠ 1

variable {v6 : BitVec 128}

theorem toNat_segment
    (v6 : BitVec 128)
    (i : ℕ) :
    (segment v6 i).toNat = v6.toNat / 2 ^ (16 * (7 - i)) % 65536 := by
  unfold segment
  rw [BitVec.extractLsb'_toNat, Nat.shiftRight_eq_div_pow]

theorem segment_masked_iff
    (k : ℕ)
    (n : BitVec 16) :
    ((segment v6 0 &&& (BitVec.allOnes 16 <<< k)) == n) = true ↔
      v6.toNat / 2 ^ 112 % 65536 / 2 ^ k * 2 ^ k = n.toNat := by
  rw [beq_iff_eq, ← BitVec.toNat_inj, Cidr.toNat_and_highMask, toNat_segment]

theorem isUniqueLocal_iff :
    ((segment v6 0 &&& 0xFE00) == 0xFC00) = true ↔ (net6 [0xFC00] 7).Contains v6 := by
  have hlt := v6.isLt
  rw [show (0xFE00 : BitVec 16) = BitVec.allOnes 16 <<< 9 by decide, segment_masked_iff,
    Cidr.contains_iff]
  simp [net6]
  omega

theorem isUnicastLinkLocal_iff :
    ((segment v6 0 &&& 0xFFC0) == 0xFE80) = true ↔ (net6 [0xFE80] 10).Contains v6 := by
  have hlt := v6.isLt
  rw [show (0xFFC0 : BitVec 16) = BitVec.allOnes 16 <<< 6 by decide, segment_masked_iff,
    Cidr.contains_iff]
  simp [net6]
  omega

theorem isDocumentation6_iff :
    (segment v6 0 == 0x2001 && segment v6 1 == 0xDB8) = true ↔
      (net6 [0x2001, 0xDB8] 32).Contains v6 := by
  have hlt := v6.isLt
  rw [Cidr.contains_iff]
  simp [net6, ← BitVec.toNat_inj, toNat_segment]
  omega

/-- Mapped addresses are tested as the address that they embed. -/
theorem toIpv4Mapped_eq :
    toIpv4Mapped v6 = if mapped.net.Contains v6 then some (mapped.embedded v6) else none := by
  have hlt := v6.isLt
  have hsame : ((List.range 5).all (fun i => segment v6 i == 0) && segment v6 5 == 0xFFFF) =
      decide (mapped.net.Contains v6) := by
    rw [Bool.eq_iff_iff, decide_eq_true_iff, Cidr.contains_iff]
    simp [mapped, net6, ← BitVec.toNat_inj, toNat_segment, List.range, List.range.loop]
    omega
  unfold toIpv4Mapped
  rw [hsame]
  simp only [decide_eq_true_eq]
  rfl

theorem ipIsPublic_of_mapped
    (h : mapped.net.Contains v6) :
    ipIsPublic (.v6 v6) = ipv4IsPublic (mapped.embedded v6) := by
  unfold ipIsPublic
  dsimp only
  rw [toIpv4Mapped_eq, if_pos h]

/-- **The networks of IPv6 that the test knows.** -/
theorem ipIsPublic_iff_of_unmapped
    (h : ¬ mapped.net.Contains v6) :
    ipIsPublic (.v6 v6) = false ↔ v6 = 0 ∨ v6 = 1 ∨ ∃ p ∈ knownNets6, p.Contains v6 := by
  have htests : ipIsPublic (.v6 v6) = false ↔ v6 = 1 ∨ v6 = 0 ∨
      ((segment v6 0 &&& 0xFE00) == 0xFC00) = true ∨
      ((segment v6 0 &&& 0xFFC0) == 0xFE80) = true ∨
      (segment v6 0 == 0x2001 && segment v6 1 == 0xDB8) = true := by
    unfold ipIsPublic
    dsimp only
    rw [toIpv4Mapped_eq, if_neg h]
    simp only [IpAddr.isUnspecified, Bool.not_eq_false', Bool.or_eq_true, beq_iff_eq, or_assoc]
  rw [htests, isUniqueLocal_iff, isUnicastLinkLocal_iff, isDocumentation6_iff, or_left_comm]
  simp only [knownNets6, List.exists_mem_cons_iff, List.not_mem_nil, false_and, exists_false,
    or_false]

/-- A mapped address is reserved only for the address that it embeds. -/
theorem reservedIpv6_of_mapped
    (h : mapped.net.Contains v6) :
    ReservedIpv6 v6 ↔ ReservedIpv4 (mapped.embedded v6) := by
  have hzero : ¬ mapped.net.Contains 0 := by decide
  have hone : ¬ mapped.net.Contains 1 := by decide
  have happart : ∀ p ∈ multicast6 :: knownNets6, mapped.net.Apart p := by decide
  have hunmapped : ∀ e ∈ unmapped, mapped.net.Apart e.net := by decide
  constructor
  · rintro (rfl | rfl | ⟨p, hp, hcontains⟩ | ⟨e, he, hcontains, hreserved⟩)
    · exact absurd h hzero
    · exact absurd h hone
    · exact absurd hcontains ((happart p hp).not_contains h)
    · rcases List.mem_cons.1 he with rfl | he
      · exact hreserved
      · exact absurd hcontains ((hunmapped e he).not_contains h)
  · exact fun hreserved => .inr (.inr (.inr ⟨mapped, List.mem_cons_self, h, hreserved⟩))

theorem missedIpv6_of_mapped
    (h : mapped.net.Contains v6) :
    MissedIpv6 v6 ↔ MissedIpv4 (mapped.embedded v6) := by
  have happart : mapped.net.Apart multicast6 := by decide
  have hunmapped : ∀ e ∈ unmapped, mapped.net.Apart e.net := by decide
  constructor
  · rintro (hcontains | ⟨_, hmissed⟩ | ⟨e, he, hcontains, _⟩)
    · exact absurd hcontains (happart.not_contains h)
    · exact hmissed
    · exact absurd hcontains ((hunmapped e he).not_contains h)
  · exact fun hmissed => .inr (.inl ⟨h, hmissed⟩)

theorem reservedIpv6_imp_iff :
    (ReservedIpv6 v6 → ipIsPublic (.v6 v6) = false) ↔ ¬ MissedIpv6 v6 := by
  by_cases h : mapped.net.Contains v6
  · rw [reservedIpv6_of_mapped h, missedIpv6_of_mapped h, ipIsPublic_of_mapped h]
    exact reservedIpv4_imp_iff
  · rw [ipIsPublic_iff_of_unmapped h]
    have hmulticast : ∀ p ∈ knownNets6, multicast6.Apart p := by decide
    have hembedding : ∀ e ∈ unmapped, ∀ p ∈ knownNets6, e.net.Apart p := by decide
    have hzero : ¬ multicast6.Contains 0 := by decide
    have hone : ¬ multicast6.Contains 1 := by decide
    constructor
    · rintro hknown (hcontains | ⟨hcontains, _⟩ | ⟨e, he, hcontains, hreserved, hv0, hv1⟩)
      · rcases hknown (.inr (.inr (.inl ⟨multicast6, List.mem_cons_self, hcontains⟩))) with
          rfl | rfl | ⟨p, hp, hother⟩
        · exact hzero hcontains
        · exact hone hcontains
        · exact (hmulticast p hp).not_contains hcontains hother
      · exact h hcontains
      · have hin : ReservedIpv6 v6 :=
          .inr (.inr (.inr ⟨e, List.mem_cons_of_mem _ he, hcontains, hreserved⟩))
        rcases hknown hin with hv | hv | ⟨p, hp, hother⟩
        · exact hv0 hv
        · exact hv1 hv
        · exact (hembedding e he p hp).not_contains hcontains hother
    · rintro hnot (hv | hv | ⟨p, hp, hcontains⟩ | ⟨e, he, hcontains, hreserved⟩)
      · exact .inl hv
      · exact .inr (.inl hv)
      · rcases List.mem_cons.1 hp with rfl | hp
        · exact absurd (.inl hcontains) hnot
        · exact .inr (.inr ⟨p, hp, hcontains⟩)
      · rcases List.mem_cons.1 he with rfl | he
        · exact absurd hcontains h
        · by_cases hv0 : v6 = 0
          · exact .inl hv0
          · by_cases hv1 : v6 = 1
            · exact .inr (.inl hv1)
            · exact absurd (.inr (.inr ⟨e, he, hcontains, hreserved, hv0, hv1⟩)) hnot

end Ipv6

section Policy

/-- An address of one of the reserved networks. -/
def Reserved : IpAddr → Prop
  | .v4 v4 => ReservedIpv4 v4
  | .v6 v6 => ReservedIpv6 v6

/-- A reserved address that passes for public. -/
def Missed : IpAddr → Prop
  | .v4 v4 => MissedIpv4 v4
  | .v6 v6 => MissedIpv6 v6

/-- **Reserved addresses are kept out**, save for those that the test does not know. -/
theorem keptOut_reserved_iff
    (parse : UrlParser)
    (ip : IpAddr) :
    (Reserved ip → KeptOut parse ip) ↔ ¬ Missed ip := by
  rw [keptOut_iff]
  cases ip with
  | v4 v4 =>
      exact reservedIpv4_imp_iff
  | v6 v6 =>
      exact reservedIpv6_imp_iff

/-- `198.18.0.1` is reserved for benchmarks and passes for public. -/
theorem not_keptOut_benchmark :
    ¬ ∀ (parse : UrlParser) (ip : IpAddr), Reserved ip → KeptOut parse ip := by
  intro h
  have hreserved : Reserved (.v4 0xC6120001) :=
    ⟨net4 198 18 0 0 15, by decide, by decide⟩
  have hpublic : ipIsPublic (.v4 0xC6120001) = true := by decide
  rw [(h (fun _ => none) _ hreserved).notPublic] at hpublic
  exact Bool.false_ne_true hpublic

end Policy

end AddressPolicy
end CertRelay
