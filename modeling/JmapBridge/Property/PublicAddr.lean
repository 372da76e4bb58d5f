import JmapBridge.Model.Net
import JmapBridge.Rust.Cidr
import Mathlib.Tactic.Tauto

/-! Which addresses the check lets through. The special-purpose blocks are written down
once, as blocks of numbers, and the masks and comparisons of the code are compared with
them: an IPv6 address counts with every IPv4 address embedded in it. -/

namespace JmapBridge

open Rust

namespace Ipv4Addr

/-- The address as a number of 32 bits. -/
def value (ip : Ipv4Addr) : Nat :=
  ip.a.toNat * 2 ^ 24 + ip.b.toNat * 2 ^ 16 + ip.c.toNat * 2 ^ 8 + ip.d.toNat

end Ipv4Addr

namespace Ipv6Addr

/-- The address as a number of 128 bits. -/
def value (ip : Ipv6Addr) : Nat :=
  ip.first.toNat * 2 ^ 112 + ip.second.toNat * 2 ^ 96 + ip.third.toNat * 2 ^ 80 +
    ip.fourth.toNat * 2 ^ 64 + ip.fifth.toNat * 2 ^ 48 + ip.sixth.toNat * 2 ^ 32 +
    ip.seventh.toNat * 2 ^ 16 + ip.eighth.toNat

end Ipv6Addr

def block4 (a b c d len : Nat) : Cidr 32 := ⟨a * 2 ^ 24 + b * 2 ^ 16 + c * 2 ^ 8 + d, len⟩

/-- The block of an IPv6 network with its first two segments as given. -/
def block6 (first second len : Nat) : Cidr 128 := ⟨first * 2 ^ 112 + second * 2 ^ 96, len⟩

/-- Loopback, private, link-local, unspecified, broadcast, multicast, documentation,
carrier-grade NAT. -/
def refused4 : List (Cidr 32) :=
  [block4 127 0 0 0 8, block4 10 0 0 0 8, block4 172 16 0 0 12, block4 192 168 0 0 16,
    block4 169 254 0 0 16, block4 0 0 0 0 32, block4 255 255 255 255 32, block4 224 0 0 0 4,
    block4 192 0 2 0 24, block4 198 51 100 0 24, block4 203 0 113 0 24, block4 100 64 0 0 10]

/-- This network, benchmarking, reserved: of these blocks the check knows one address of the
first and one of the last. -/
def overlooked4 : List (Cidr 32) := [block4 0 0 0 0 8, block4 198 18 0 0 15, block4 240 0 0 0 4]

/-- A special-purpose IPv4 address. -/
def Special4 (addr : Nat) : Prop := Cidr.AnyContains (refused4 ++ overlooked4) addr

instance (addr : Nat) : Decidable (Special4 addr) :=
  inferInstanceAs (Decidable (Cidr.AnyContains _ _))

/-- Loopback, unspecified, multicast, unique-local, link-local. -/
def refused6 : List (Cidr 128) :=
  [⟨1, 128⟩, ⟨0, 128⟩, block6 0xff00 0 8, block6 0xfc00 0 7, block6 0xfe80 0 10]

def documentation6 : List (Cidr 128) := [block6 0x2001 0xdb8 32, block6 0x3fff 0 20]

/-- The IPv4 addresses an IPv6 address embeds: mapped, compatible, NAT64 and 6to4. -/
def embedded4 (addr : Nat) : List Nat :=
  (if addr / 2 ^ 32 = 0xffff then [addr % 2 ^ 32] else []) ++
  (if addr / 2 ^ 32 = 0 then [addr % 2 ^ 32] else []) ++
  (if addr / 2 ^ 32 = 0x64ff9b * 2 ^ 64 then [addr % 2 ^ 32] else []) ++
  (if addr / 2 ^ 112 = 0x2002 then [addr / 2 ^ 80 % 2 ^ 32] else [])

/-- The address, or an IPv4 address embedded in it, lies in a special-purpose range. -/
def Special : IpAddr → Prop
  | .v4 ip => Special4 ip.value
  | .v6 ip => Cidr.AnyContains (refused6 ++ documentation6) ip.value ∨
      ∃ e ∈ embedded4 ip.value, Special4 e

instance : DecidablePred Special
  | .v4 ip => inferInstanceAs (Decidable (Special4 ip.value))
  | .v6 ip => inferInstanceAs (Decidable (Cidr.AnyContains (refused6 ++ documentation6) ip.value ∨
      ∃ e ∈ embedded4 ip.value, Special4 e))

/-- In a block the check forgets, and neither the unspecified address nor broadcast. -/
def Overlooked4 (addr : Nat) : Prop :=
  Cidr.AnyContains overlooked4 addr ∧ addr ≠ 0 ∧ addr ≠ 2 ^ 32 - 1

instance (addr : Nat) : Decidable (Overlooked4 addr) := inferInstanceAs (Decidable (_ ∧ _))

/-- A special-purpose address the check does not know: of a mapped one only the IPv4 address
counts, of any other the documentation blocks and the address it embeds. -/
def Overlooked : IpAddr → Prop
  | .v4 ip => Overlooked4 ip.value
  | .v6 ip =>
    if ip.value / 2 ^ 32 = 0xffff then Overlooked4 (ip.value % 2 ^ 32)
    else ip.value ≠ 0 ∧ ip.value ≠ 1 ∧
      (Cidr.AnyContains documentation6 ip.value ∨ ∃ e ∈ embedded4 ip.value, Special4 e)

instance : DecidablePred Overlooked
  | .v4 ip => inferInstanceAs (Decidable (Overlooked4 ip.value))
  | .v6 ip => inferInstanceAs (Decidable (if ip.value / 2 ^ 32 = 0xffff then _ else _))

/-! ### IPv4 -/

theorem toNat_and_c0 (b : UInt8) : (b &&& 0xc0).toNat = 64 ↔ b.toNat / 64 = 1 := by
  have hbits : b.toNat &&& (2 ^ 8 - 2 ^ 6) = 1 * 2 ^ 6 ↔ b.toNat / 2 ^ 6 = 1 :=
    Cidr.and_high_eq_iff b.toNat_lt (by decide)
  rw [UInt8.toNat_and]
  exact hbits

section

variable (a b c d : UInt8)

theorem contains_8 (n : Nat) :
    (block4 n 0 0 0 8).Contains (Ipv4Addr.mk a b c d).value ↔ a.toNat = n := by
  have hb := b.toNat_lt
  have hc := c.toNat_lt
  have hd := d.toNat_lt
  simp only [Cidr.Contains, block4, Ipv4Addr.value]
  omega

theorem contains_16 (n m : Nat) (hm : m < 256) :
    (block4 n m 0 0 16).Contains (Ipv4Addr.mk a b c d).value ↔ a.toNat = n ∧ b.toNat = m := by
  have hb := b.toNat_lt
  have hc := c.toNat_lt
  have hd := d.toNat_lt
  simp only [Cidr.Contains, block4, Ipv4Addr.value]
  omega

theorem contains_24 (n m k : Nat) (hm : m < 256) (hk : k < 256) :
    (block4 n m k 0 24).Contains (Ipv4Addr.mk a b c d).value ↔
      a.toNat = n ∧ b.toNat = m ∧ c.toNat = k := by
  have hb := b.toNat_lt
  have hc := c.toNat_lt
  have hd := d.toNat_lt
  simp only [Cidr.Contains, block4, Ipv4Addr.value]
  omega

end

theorem isPublicV4_iff (ip : Ipv4Addr) :
    isPublicV4 ip = true ↔ ¬ Cidr.AnyContains refused4 ip.value := by
  obtain ⟨a, b, c, d⟩ := ip
  have ha := a.toNat_lt
  have hb := b.toNat_lt
  have hc := c.toNat_lt
  have hd := d.toNat_lt
  have hprivate : (block4 172 16 0 0 12).Contains (Ipv4Addr.mk a b c d).value ↔
      a.toNat = 172 ∧ 16 ≤ b.toNat ∧ b.toNat ≤ 31 := by
    simp only [Cidr.Contains, block4, Ipv4Addr.value]
    omega
  have hmulticast : (block4 224 0 0 0 4).Contains (Ipv4Addr.mk a b c d).value ↔
      224 ≤ a.toNat ∧ a.toNat ≤ 239 := by
    simp only [Cidr.Contains, block4, Ipv4Addr.value]
    omega
  have hnat : (block4 100 64 0 0 10).Contains (Ipv4Addr.mk a b c d).value ↔
      a.toNat = 100 ∧ b.toNat / 64 = 1 := by
    simp only [Cidr.Contains, block4, Ipv4Addr.value]
    omega
  have hzero : (block4 0 0 0 0 32).Contains (Ipv4Addr.mk a b c d).value ↔
      a.toNat = 0 ∧ b.toNat = 0 ∧ c.toNat = 0 ∧ d.toNat = 0 := by
    simp only [Cidr.Contains, block4, Ipv4Addr.value]
    omega
  have hones : (block4 255 255 255 255 32).Contains (Ipv4Addr.mk a b c d).value ↔
      a.toNat = 255 ∧ b.toNat = 255 ∧ c.toNat = 255 ∧ d.toNat = 255 := by
    simp only [Cidr.Contains, block4, Ipv4Addr.value]
    omega
  simp only [refused4, Cidr.anyContains_cons, Cidr.anyContains_nil, contains_8, hprivate,
    hmulticast, hnat, hzero, hones, contains_16 a b c d 192 168 (by decide),
    contains_16 a b c d 169 254 (by decide),
    contains_24 a b c d 192 0 2 (by decide) (by decide),
    contains_24 a b c d 198 51 100 (by decide) (by decide),
    contains_24 a b c d 203 0 113 (by decide) (by decide)]
  rw [isPublicV4, Bool.not_eq_true', ← Bool.not_eq_true]
  apply not_congr
  simp only [Ipv4Addr.isLoopback, Ipv4Addr.isPrivate, Ipv4Addr.isLinkLocal, Ipv4Addr.isUnspecified,
    Ipv4Addr.isBroadcast, Ipv4Addr.isMulticast, Ipv4Addr.isDocumentation, Bool.or_eq_true,
    Bool.and_eq_true, beq_iff_eq, decide_eq_true_eq, Ipv4Addr.mk.injEq, ← UInt8.toNat_inj,
    UInt8.le_iff_toNat_le, toNat_and_c0, UInt8.reduceToNat, or_assoc, and_assoc, or_false]

theorem isPublicV4_sound_iff (ip : Ipv4Addr) :
    (isPublicV4 ip = true → ¬ Special4 ip.value) ↔ ¬ Overlooked4 ip.value := by
  -- Of the overlooked blocks the code refuses the unspecified address and broadcast.
  have hrefused : Cidr.AnyContains overlooked4 ip.value →
      (Cidr.AnyContains refused4 ip.value ↔ ip.value = 0 ∨ ip.value = 2 ^ 32 - 1) := by
    simp only [overlooked4, refused4, Cidr.anyContains_cons, Cidr.anyContains_nil, Cidr.Contains,
      block4, or_false]
    rintro (h | h | h) <;> omega
  rw [isPublicV4_iff, Special4, Cidr.anyContains_append, Overlooked4]
  tauto

/-! ### IPv6 -/

namespace Ipv6Addr

theorem value_lt (ip : Ipv6Addr) : ip.value < 2 ^ 128 := by
  have h1 := ip.first.toNat_lt
  have h2 := ip.second.toNat_lt
  have h3 := ip.third.toNat_lt
  have h4 := ip.fourth.toNat_lt
  have h5 := ip.fifth.toNat_lt
  have h6 := ip.sixth.toNat_lt
  have h7 := ip.seventh.toNat_lt
  have h8 := ip.eighth.toNat_lt
  rw [value]
  omega

theorem first_eq (ip : Ipv6Addr) : ip.first.toNat = ip.value / 2 ^ 112 := by
  have h2 := ip.second.toNat_lt
  have h3 := ip.third.toNat_lt
  have h4 := ip.fourth.toNat_lt
  have h5 := ip.fifth.toNat_lt
  have h6 := ip.sixth.toNat_lt
  have h7 := ip.seventh.toNat_lt
  have h8 := ip.eighth.toNat_lt
  rw [value]
  omega

theorem high_eq (ip : Ipv6Addr) (n : UInt16) :
    (ip.first = 0 ∧ ip.second = 0 ∧ ip.third = 0 ∧ ip.fourth = 0 ∧ ip.fifth = 0 ∧ ip.sixth = n) ↔
      ip.value / 2 ^ 32 = n.toNat := by
  have h7 := ip.seventh.toNat_lt
  have h8 := ip.eighth.toNat_lt
  have hn := n.toNat_lt
  simp only [← UInt16.toNat_inj, UInt16.reduceToNat]
  rw [value]
  omega

theorem eq_low_iff (ip : Ipv6Addr) (n : UInt16) :
    ip = ⟨0, 0, 0, 0, 0, 0, 0, n⟩ ↔ ip.value = n.toNat := by
  obtain ⟨s1, s2, s3, s4, s5, s6, s7, s8⟩ := ip
  have h7 := s7.toNat_lt
  have h8 := s8.toNat_lt
  have hn := n.toNat_lt
  simp only [mk.injEq, ← UInt16.toNat_inj, UInt16.reduceToNat, value]
  omega

theorem toIpv4Mapped_some {ip : Ipv6Addr} (h : ip.value / 2 ^ 32 = 0xffff) :
    ∃ m, ip.toIpv4Mapped = some m ∧ m.value = ip.value % 2 ^ 32 := by
  obtain ⟨s1, s2, s3, s4, s5, s6, s7, s8⟩ := ip
  have heq := (high_eq _ 0xffff).mpr h
  obtain ⟨rfl, rfl, rfl, rfl, rfl, rfl⟩ := heq
  refine ⟨_, if_pos rfl, ?_⟩
  have h7 := s7.toNat_lt
  have h8 := s8.toNat_lt
  have hhigh : ∀ s : UInt16, (s >>> 8).toUInt8.toNat = s.toNat / 2 ^ 8 := by
    intro s
    have hs := s.toNat_lt
    rw [UInt16.toNat_toUInt8, UInt16.toNat_shiftRight, Nat.shiftRight_eq_div_pow]
    show s.toNat / 2 ^ 8 % 2 ^ 8 = s.toNat / 2 ^ 8
    omega
  simp only [Ipv4Addr.value, value, hhigh, UInt16.toNat_toUInt8, UInt16.reduceToNat]
  omega

theorem toIpv4Mapped_none {ip : Ipv6Addr} (h : ip.value / 2 ^ 32 ≠ 0xffff) :
    ip.toIpv4Mapped = none := by
  rw [toIpv4Mapped, if_neg]
  intro heq
  apply h
  rw [heq, value]
  have h7 := ip.seventh.toNat_lt
  have h8 := ip.eighth.toNat_lt
  simp only [UInt16.reduceToNat]
  omega

theorem refused_iff (ip : Ipv6Addr) :
    (ip.isLoopback || ip.isUnspecified || ip.isMulticast || ip.first &&& 0xfe00 == 0xfc00 ||
        ip.first &&& 0xffc0 == 0xfe80) = true ↔ Cidr.AnyContains refused6 ip.value := by
  have hlt := ip.value_lt
  have hfirst := ip.first.toNat_lt
  have hmask : ∀ k net, k ≤ 16 → (ip.first.toNat &&& (2 ^ 16 - 2 ^ k) = net * 2 ^ k ↔
      ip.value / 2 ^ (112 + k) = net) := by
    intro k net hk
    rw [Cidr.and_high_eq_iff hfirst hk, first_eq, Nat.div_div_eq_div_mul, Nat.pow_add]
  have hff : (ip.first &&& 0xff00).toNat = 0xff00 ↔ ip.value / 2 ^ 120 = 0xff := by
    rw [UInt16.toNat_and]
    exact hmask 8 0xff (by decide)
  have hfc : (ip.first &&& 0xfe00).toNat = 0xfc00 ↔ ip.value / 2 ^ 121 = 0x7e := by
    rw [UInt16.toNat_and]
    exact hmask 9 0x7e (by decide)
  have hfe : (ip.first &&& 0xffc0).toNat = 0xfe80 ↔ ip.value / 2 ^ 118 = 0x3fa := by
    rw [UInt16.toNat_and]
    exact hmask 6 0x3fa (by decide)
  have hloop : ip = ⟨0, 0, 0, 0, 0, 0, 0, 1⟩ ↔ ip.value = 1 := eq_low_iff ip 1
  have hzero : ip = ⟨0, 0, 0, 0, 0, 0, 0, 0⟩ ↔ ip.value = 0 := eq_low_iff ip 0
  simp only [isLoopback, isUnspecified, isMulticast, Bool.or_eq_true, beq_iff_eq, hloop, hzero,
    refused6, Cidr.anyContains_cons, Cidr.anyContains_nil, Cidr.Contains, block6, or_assoc,
    or_false]
  simp only [← UInt16.toNat_inj, UInt16.reduceToNat, hff, hfc, hfe]
  rw [show (0xff00 * 2 ^ 112 + 0 * 2 ^ 96) / 2 ^ (128 - 8) = 0xff by decide,
    show (0xfc00 * 2 ^ 112 + 0 * 2 ^ 96) / 2 ^ (128 - 7) = 0x7e by decide,
    show (0xfe80 * 2 ^ 112 + 0 * 2 ^ 96) / 2 ^ (128 - 10) = 0x3fa by decide]
  simp only [Nat.sub_self, Nat.pow_zero, Nat.div_one]

end Ipv6Addr

theorem mem_embedded4 {addr e : Nat} (h : e ∈ embedded4 addr) :
    addr / 2 ^ 32 = 0xffff ∨ addr / 2 ^ 32 = 0 ∨ addr / 2 ^ 32 = 0x64ff9b * 2 ^ 64 ∨
      addr / 2 ^ 112 = 0x2002 := by
  rw [embedded4] at h
  simp only [List.mem_append] at h
  have holds : ∀ {p : Prop} [Decidable p] {l : List Nat}, e ∈ (if p then l else []) → p := by
    intro p _ l hmem
    refine Decidable.byContradiction fun hne => ?_
    rw [if_neg hne] at hmem
    cases hmem
  rcases h with ((h | h) | h) | h
  · exact Or.inl (holds h)
  · exact Or.inr (Or.inl (holds h))
  · exact Or.inr (Or.inr (Or.inl (holds h)))
  · exact Or.inr (Or.inr (Or.inr (holds h)))

theorem embedded4_mapped {addr : Nat} (h : addr / 2 ^ 32 = 0xffff) :
    embedded4 addr = [addr % 2 ^ 32] := by
  rw [embedded4, if_pos h, if_neg (by omega), if_neg (by omega), if_neg (by omega)]
  rfl

theorem not_contains_of_mapped {addr : Nat} (h : addr / 2 ^ 32 = 0xffff) :
    ¬ Cidr.AnyContains (refused6 ++ documentation6) addr := by
  simp only [refused6, documentation6, List.cons_append, List.nil_append, Cidr.anyContains_cons,
    Cidr.anyContains_nil, Cidr.Contains, block6, or_false]
  rintro (h' | h' | h' | h' | h' | h' | h') <;> omega

/-- Of the documentation blocks and the addresses that embed one, the code refuses two. -/
theorem refused6_iff {addr : Nat} (hmapped : addr / 2 ^ 32 ≠ 0xffff)
    (h : Cidr.AnyContains documentation6 addr ∨ ∃ e ∈ embedded4 addr, Special4 e) :
    Cidr.AnyContains refused6 addr ↔ addr = 0 ∨ addr = 1 := by
  have hplace : addr / 2 ^ 96 = 0x20010db8 ∨ addr / 2 ^ 108 = 0x3fff0 ∨ addr / 2 ^ 32 = 0 ∨
      addr / 2 ^ 32 = 0x64ff9b * 2 ^ 64 ∨ addr / 2 ^ 112 = 0x2002 := by
    rcases h with h | ⟨e, he, -⟩
    · simp only [documentation6, Cidr.anyContains_cons, Cidr.anyContains_nil, Cidr.Contains, block6,
        or_false] at h
      rcases h with h | h
      · exact Or.inl (by omega)
      · exact Or.inr (Or.inl (by omega))
    · exact Or.inr (Or.inr ((mem_embedded4 he).resolve_left hmapped))
  simp only [refused6, Cidr.anyContains_cons, Cidr.anyContains_nil, Cidr.Contains, block6, or_false]
  rcases hplace with h | h | h | h | h <;> omega

/-- What the check calls public is free of special-purpose ranges, except for the addresses
that it overlooks, which it lets through. -/
theorem isPublic_sound_iff (ip : IpAddr) :
    (isPublic ip = true → ¬ Special ip) ↔ ¬ Overlooked ip := by
  cases ip with
  | v4 ip => exact isPublicV4_sound_iff ip
  | v6 ip =>
    by_cases hmapped : ip.value / 2 ^ 32 = 0xffff
    · obtain ⟨m, hm, hvalue⟩ := Ipv6Addr.toIpv4Mapped_some hmapped
      have hpublic : isPublic (.v6 ip) = isPublicV4 m := by rw [isPublic, hm]
      have hspecial : Special (.v6 ip) ↔ Special4 m.value := by
        rw [Special, embedded4_mapped hmapped, hvalue]
        simp [not_contains_of_mapped hmapped]
      have hover : Overlooked (.v6 ip) ↔ Overlooked4 m.value := by
        rw [Overlooked, if_pos hmapped, hvalue]
      rw [hpublic, hspecial, hover]
      exact isPublicV4_sound_iff m
    · have hpublic : isPublic (.v6 ip) = true ↔ ¬ Cidr.AnyContains refused6 ip.value := by
        rw [isPublic, Ipv6Addr.toIpv4Mapped_none hmapped, Bool.not_eq_true', ← Bool.not_eq_true]
        exact not_congr ip.refused_iff
      have hspecial : Special (.v6 ip) ↔ Cidr.AnyContains refused6 ip.value ∨
          (Cidr.AnyContains documentation6 ip.value ∨ ∃ e ∈ embedded4 ip.value, Special4 e) := by
        rw [Special, Cidr.anyContains_append, or_assoc]
      have hover : Overlooked (.v6 ip) ↔ ip.value ≠ 0 ∧ ip.value ≠ 1 ∧
          (Cidr.AnyContains documentation6 ip.value ∨ ∃ e ∈ embedded4 ip.value, Special4 e) := by
        rw [Overlooked, if_neg hmapped]
      have hrefused := refused6_iff hmapped
      rw [hpublic, hspecial, hover]
      constructor
      · rintro hsound ⟨hzero, hone, hplace⟩
        have hnot : ¬ Cidr.AnyContains refused6 ip.value := by
          rw [hrefused hplace]
          rintro (h | h)
          · exact hzero h
          · exact hone h
        exact hsound hnot (Or.inr hplace)
      · rintro hover hnot (h | hplace)
        · exact hnot h
        · rw [hrefused hplace, not_or] at hnot
          exact hover ⟨hnot.1, hnot.2, hplace⟩

/-- The loopback address written for NAT64 is let through. -/
theorem nat64_loopback_public :
    ¬ (isPublic (.v6 ⟨0x64, 0xff9b, 0, 0, 0, 0, 0x7f00, 1⟩) = true →
      ¬ Special (.v6 ⟨0x64, 0xff9b, 0, 0, 0, 0, 0x7f00, 1⟩)) := by
  decide

end JmapBridge
