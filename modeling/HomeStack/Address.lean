import HomeStack.Config
import HomeStack.Error
import HomeStack.Lib.Checked
import HomeStack.Lib.Ipv4
import HomeStack.Lib.JsonPointer

/-! The address of a workspace by its VMID (`address.rs`, `derive_ip`). VMIDs 2 to 254 follow the
prefix; from 1000 they are the last two octets under the gateway's first two. -/

namespace HomeStack.Address

def checkedShl (x : UInt32) (n : Nat) : Option UInt32 := if n < 32 then some (x <<< UInt32.ofNat n) else none

/-- `u8::try_from` -/
def octet (n : Nat) : Option (Fin 256) := if h : n < 256 then some ⟨n, h⟩ else none

def toU32 (address : Ipv4) : UInt32 := UInt32.ofNat address.toNat

def ofU32 (n : UInt32) : Ipv4 :=
  ⟨Fin.ofNat 256 (n.toNat / 2 ^ 24), Fin.ofNat 256 (n.toNat / 2 ^ 16),
    Fin.ofNat 256 (n.toNat / 2 ^ 8), Fin.ofNat 256 n.toNat⟩

def vmidOf (ip : Ipv4) : Nat := ip.third * 1000 + ip.fourth

/-- The address that the number stands for, inside the network or not. -/
def numbered (vmid : Nat) (network : Network) (gateway : Ipv4) : Option Ipv4 :=
  if 2 ≤ vmid ∧ vmid ≤ 254 then Ipv4.parse (network.addrPrefix ++ '.' :: Text.ofNat vmid)
  else
    let third := vmid / 1000
    let fourth := vmid % 1000
    if vmid < 1000 ∨ third > 255 ∨ ¬ (1 ≤ fourth ∧ fourth ≤ 254) then none
    else do some ⟨gateway.first, gateway.second, ← octet third, ← octet fourth⟩

def addressOf (vmid : Nat) (network : Network) : Option Ipv4 := do
  let gateway ← Ipv4.parse network.gateway
  let address ← numbered vmid network gateway
  let shift ← Checked.sub 32 network.cidr
  let mask := (checkedShl 0xffffffff shift).getD 0
  let start := toU32 gateway &&& mask
  let ip := toU32 address
  if ip &&& mask = start ∧ ip ≠ start ∧ ip ≠ start ||| ~~~mask then some address else none

/-- `derive_ip`. `Config::parse` admits masks of at most 32 bits only. -/
def deriveIp (cfg : Config) (vmid : Nat) : Except CoreError Text :=
  match addressOf vmid cfg.network with
  | some address => .ok address.toText
  | none =>
    let network : Text := match Ipv4.parse cfg.network.gateway with
      | some gateway =>
        let mask := (checkedShl 0xffffffff (32 - cfg.network.cidr)).getD 0
        (ofU32 (toU32 gateway &&& mask)).toText ++ "/" ++ Text.ofNat cfg.network.cidr
      | none => cfg.network.addrPrefix ++ ".0/" ++ Text.ofNat cfg.network.cidr
    .error (.invalid ("VMID " ++ Text.ofNat vmid ++ " has no address in the network " ++ network ++
      ": VMIDs 2..254 are " ++
      cfg.network.addrPrefix ++
        ".<vmid>, and from 1000 the VMID is the last two octets of the address (101010 is .101.10)."))

/-! ## Addresses by number -/

theorem octet_some {n : Nat} {o : Fin 256} (h : octet n = some o) : o.val = n := by
  unfold octet at h
  split at h
  · cases h
    rfl
  · cases h

theorem numbered_of_addressOf {vmid : Nat} {network : Network} {a : Ipv4}
    (h : addressOf vmid network = some a) :
    ∃ gateway, Ipv4.parse network.gateway = some gateway ∧ numbered vmid network gateway = some a := by
  unfold addressOf at h
  simp only [Option.bind_eq_bind, Option.bind_eq_some_iff] at h
  obtain ⟨gateway, hgateway, address, haddress, shift, -, h⟩ := h
  split at h
  · cases h
    exact ⟨gateway, hgateway, haddress⟩
  · cases h

theorem deriveIp_ok {cfg : Config} {vmid : Nat} {t : Text} (h : deriveIp cfg vmid = .ok t) :
    ∃ a, addressOf vmid cfg.network = some a ∧ t = a.toText := by
  unfold deriveIp at h
  split at h
  case h_1 a ha =>
    cases h
    exact ⟨a, ha, rfl⟩
  case h_2 => cases h

/-! ## Two numbers of one address -/

/-- The second number is from 1000, and its octets are those that the prefix and the first number spell. -/
def SameAddress (network : Network) (u v : Nat) : Prop :=
  ∃ gateway, Ipv4.parse network.gateway = some gateway ∧ u ≤ 254 ∧ 1000 ≤ v ∧ v % 1000 = u ∧
    network.addrPrefix = Text.ofNat gateway.first ++ '.' ::
      (Text.ofNat gateway.second ++ '.' :: Text.ofNat (v / 1000))

/-- The last dot separates the last octet. -/
theorem append_dot_inj {x y s t : Text} (hs : '.' ∉ s) (ht : '.' ∉ t) (h : x ++ '.' :: s = y ++ '.' :: t) :
    x = y ∧ s = t := by
  have hrev : s.reverse ++ '.' :: x.reverse = t.reverse ++ '.' :: y.reverse := by
    simpa using congrArg List.reverse h
  obtain ⟨hs', hx⟩ := Text.append_sep_inj (by simpa using hs) (by simpa using ht) hrev
  exact ⟨List.reverse_injective hx, List.reverse_injective hs'⟩

/-- The first three octets. -/
def prefixText (a : Ipv4) : Text :=
  Text.ofNat a.first ++ '.' :: (Text.ofNat a.second ++ '.' :: Text.ofNat a.third)

theorem toText_eq (a : Ipv4) : a.toText = prefixText a ++ '.' :: Text.ofNat a.fourth := by
  simp [Ipv4.toText, prefixText]

theorem prefixText_inj {a b : Ipv4} (h : prefixText a = prefixText b) :
    a.first = b.first ∧ a.second = b.second ∧ a.third = b.third := by
  have hsplit : ∀ a : Ipv4, (prefixText a).splitOn '.' = [Text.ofNat a.first, Text.ofNat a.second,
      Text.ofNat a.third] := by
    intro a
    rw [prefixText, List.splitOn_append_cons_self_of_not_mem (Ipv4.dot_not_mem _),
      List.splitOn_append_cons_self_of_not_mem (Ipv4.dot_not_mem _),
        List.splitOn_eq_singleton (Ipv4.dot_not_mem _)]
  have hlist := (hsplit a).symm.trans ((congrArg (List.splitOn '.') h).trans (hsplit b))
  simp only [List.cons.injEq, and_true] at hlist
  exact ⟨Fin.ext (Text.ofNat_inj hlist.1), Fin.ext (Text.ofNat_inj hlist.2.1),
    Fin.ext (Text.ofNat_inj hlist.2.2)⟩

/-- An old number is the last octet, under the prefix. -/
theorem numbered_old {vmid : Nat} {network : Network} {gateway a : Ipv4} (hold : vmid ≤ 254)
    (h : numbered vmid network gateway = some a) :
    a.fourth.val = vmid ∧ network.addrPrefix = prefixText a := by
  unfold numbered at h
  split at h
  case isTrue hrange =>
    have htext := Ipv4.parse_eq_some h
    rw [toText_eq] at htext
    have hdot : '.' ∉ Text.ofNat vmid := Ipv4.dot_not_mem ⟨vmid, by omega⟩
    obtain ⟨hstarts, hnumber⟩ := append_dot_inj hdot (Ipv4.dot_not_mem _) htext
    exact ⟨(Text.ofNat_inj hnumber).symm, hstarts⟩
  case isFalse hrange =>
    rw [if_pos (Or.inl (by omega))] at h
    cases h

/-- A new number is the last two octets, under the gateway's. -/
theorem numbered_new {vmid : Nat} {network : Network} {gateway a : Ipv4} (hnew : 254 < vmid)
    (h : numbered vmid network gateway = some a) :
    1000 ≤ vmid ∧ a.first = gateway.first ∧ a.second = gateway.second ∧ a.third.val = vmid / 1000 ∧
      a.fourth.val = vmid % 1000 := by
  unfold numbered at h
  rw [if_neg (by omega)] at h
  dsimp only at h
  split at h
  case isTrue => cases h
  case isFalse hrange =>
    simp only [Option.bind_eq_bind, Option.bind_eq_some_iff, Option.some.injEq] at h
    obtain ⟨third, hthird, fourth, hfourth, rfl⟩ := h
    exact ⟨by omega, rfl, rfl, octet_some hthird, octet_some hfourth⟩

theorem eq_of_octets {a b : Ipv4} (h₁ : a.first = b.first) (h₂ : a.second = b.second) (h₃ : a.third = b.third)
    (h₄ : a.fourth = b.fourth) :
    a = b := by
  cases a
  cases b
  simp_all

/-- An old and a new number have one address exactly when the prefix spells the new one's octets. -/
theorem mixed_iff {network : Network} {gateway a b : Ipv4} {u v : Nat}
    (hgateway : Ipv4.parse network.gateway = some gateway) (hold : u ≤ 254) (hnew : 254 < v)
    (hu : numbered u network gateway = some a) (hv : numbered v network gateway = some b) :
    a = b ↔ SameAddress network u v := by
  obtain ⟨hlast, hstarts⟩ := numbered_old hold hu
  obtain ⟨hfrom, hfirst, hsecond, hthird, hfourth⟩ := numbered_new hnew hv
  constructor
  · rintro rfl
    refine ⟨gateway, hgateway, hold, hfrom, hfourth.symm.trans hlast, ?_⟩
    rw [hstarts, prefixText, hfirst, hsecond, hthird]
  · rintro ⟨gateway', hgateway', -, -, hnumber, hspelled⟩
    obtain rfl : gateway = gateway' := Option.some.inj (hgateway.symm.trans hgateway')
    have hsame : prefixText a = prefixText b := by
      rw [← hstarts, hspelled, prefixText, hfirst, hsecond, hthird]
    obtain ⟨h₁, h₂, h₃⟩ := prefixText_inj hsame
    exact eq_of_octets h₁ h₂ h₃ (Fin.ext (by rw [hlast, hfourth, hnumber]))

theorem sameAddress_number {network : Network} {u v : Nat} (h : SameAddress network u v) :
    u ≤ 254 ∧ 1000 ≤ v := by
  obtain ⟨-, -, hold, hnew, -⟩ := h
  exact ⟨hold, hnew⟩

/-- Two numbers give two addresses, unless one is old and the other has its octets. -/
theorem numbered_distinct_iff {network : Network} {gateway a b : Ipv4} {u v : Nat} (hne : u ≠ v)
    (hgateway : Ipv4.parse network.gateway = some gateway) (hu : numbered u network gateway = some a)
    (hv : numbered v network gateway = some b) : a ≠ b ↔ ¬ SameAddress network u v ∧
      ¬ SameAddress network v u := by
  by_cases hold : u ≤ 254
  · by_cases hold' : v ≤ 254
    · -- both are last octets
      have hdistinct : a ≠ b := by
        rintro rfl
        exact hne ((numbered_old hold hu).1.symm.trans (numbered_old hold' hv).1)
      refine iff_of_true hdistinct ⟨fun h => ?_, fun h => ?_⟩
      · have := sameAddress_number h
        omega
      · have := sameAddress_number h
        omega
    · have hmixed := mixed_iff hgateway hold (by omega) hu hv
      have hother : ¬ SameAddress network v u := fun h => hold' (sameAddress_number h).1
      rw [ne_eq, hmixed, and_iff_left hother]
  · by_cases hold' : v ≤ 254
    · have hmixed := mixed_iff hgateway hold' (by omega) hv hu
      have hother : ¬ SameAddress network u v := fun h => hold (sameAddress_number h).1
      rw [ne_comm, ne_eq, hmixed, and_iff_right hother]
    · -- both are the last two octets
      obtain ⟨-, -, -, hthird, hfourth⟩ := numbered_new (by omega) hu
      obtain ⟨-, -, -, hthird', hfourth'⟩ := numbered_new (by omega) hv
      have hdistinct : a ≠ b := by
        rintro rfl
        have hdiv := hthird.symm.trans hthird'
        have hmod := hfourth.symm.trans hfourth'
        omega
      exact iff_of_true hdistinct ⟨fun h => hold (sameAddress_number h).1,
        fun h => hold' (sameAddress_number h).1⟩

/-- **Two workspaces have two addresses**, unless one has an old number and the other the number from
1000 whose last two octets are those of the prefix and the old number. -/
theorem addressOf_distinct_iff {network : Network} {u v : Nat} {a b : Ipv4} (hne : u ≠ v)
    (hu : addressOf u network = some a) (hv : addressOf v network = some b) :
    a ≠ b ↔ ¬ SameAddress network u v ∧ ¬ SameAddress network v u := by
  obtain ⟨gateway, hgateway, hu⟩ := numbered_of_addressOf hu
  obtain ⟨gateway', hgateway', hv⟩ := numbered_of_addressOf hv
  obtain rfl : gateway = gateway' := Option.some.inj (hgateway.symm.trans hgateway')
  exact numbered_distinct_iff hne hgateway hu hv

/-- Two numbers whose octets differ. -/
theorem addressOf_distinct_sample : (⟨10, 0, 0, 5⟩ : Ipv4) ≠ ⟨10, 0, 0, 6⟩ ↔
    ¬ SameAddress ⟨"10.0.0", 24, "10.0.0.1", []⟩ 5 6 ∧ ¬ SameAddress ⟨"10.0.0", 24, "10.0.0.1", []⟩ 6 5 :=
  addressOf_distinct_iff (by decide) (by decide +kernel) (by decide +kernel)

/-- VMID 10 and VMID 101010 both have 192.168.101.10. -/
theorem addressOf_not_distinct :
    ¬ ∀ (network : Network) (u v : Nat) (a b : Ipv4), u ≠ v → addressOf u network = some a →
    addressOf v network = some b → a ≠ b := by
  intro h
  exact h ⟨"192.168.101", 24, "192.168.101.1", []⟩ 10 101010 ⟨192, 168, 101, 10⟩ ⟨192, 168, 101, 10⟩
    (by decide) (by decide +kernel)
    (by decide +kernel) rfl

end HomeStack.Address
