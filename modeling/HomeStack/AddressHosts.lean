import HomeStack.Address

/-! A workspace's address is a host of the gateway's network: the masks of `address_of` in terms of
the number of an address. -/

namespace HomeStack.Address

/-- The mask of `address_of`. -/
def mask (shift : Nat) : UInt32 := (checkedShl 0xffffffff shift).getD 0

/-! ## Masks -/

theorem mask_toNat : ∀ shift ≤ 32, (mask shift).toNat = 2 ^ 32 - 2 ^ shift := by decide

theorem toNat_lt (a : Ipv4) : a.toNat < 2 ^ 32 := by
  have h₁ := a.first.isLt
  have h₂ := a.second.isLt
  have h₃ := a.third.isLt
  have h₄ := a.fourth.isLt
  unfold Ipv4.toNat
  omega

theorem toU32_toNat (a : Ipv4) : (toU32 a).toNat = a.toNat := UInt32.toNat_ofNat_of_lt' (toNat_lt a)

/-- A mask clears the host's bits. -/
theorem and_mask {n shift : Nat} (hn : n < 2 ^ 32) (hshift : shift ≤ 32) :
    n &&& (2 ^ 32 - 2 ^ shift) = n / 2 ^ shift * 2 ^ shift := by
  have hpow : 2 ^ 32 - 2 ^ shift = 2 ^ 32 - (2 ^ shift - 1 + 1) := by
    have := Nat.two_pow_pos shift
    omega
  have hlt : 2 ^ shift - 1 < 2 ^ 32 := by
    have := Nat.pow_le_pow_right (show 0 < 2 by decide) hshift
    have := Nat.two_pow_pos shift
    omega
  apply Nat.eq_of_testBit_eq
  intro i
  rw [Nat.testBit_and, hpow, Nat.testBit_two_pow_sub_succ hlt, Nat.testBit_two_pow_sub_one,
    Nat.testBit_mul_two_pow,
    Nat.testBit_div_two_pow]
  by_cases hlow : i < shift
  · simp [hlow]
  · rw [Nat.sub_add_cancel (by omega)]
    by_cases hhigh : i < 32
    · simp [hlow, hhigh, Nat.le_of_not_lt hlow]
    · have hbit := Nat.testBit_lt_two_pow
        (hn.trans_le (Nat.pow_le_pow_right (by decide) (Nat.le_of_not_lt hhigh)))
      simp [hbit]

/-- The network of an address. -/
theorem start_toNat (a : Ipv4) {shift : Nat} (hshift : shift ≤ 32) :
    (toU32 a &&& mask shift).toNat = a.toNat / 2 ^ shift * 2 ^ shift := by
  rw [UInt32.toNat_and, mask_toNat shift hshift, toU32_toNat, and_mask (toNat_lt a) hshift]

/-- The last address of its network. -/
theorem broadcast_toNat (a : Ipv4) {shift : Nat} (hshift : shift ≤ 32) :
    ((toU32 a &&& mask shift) ||| ~~~mask shift).toNat =
      a.toNat / 2 ^ shift * 2 ^ shift + (2 ^ shift - 1) := by
  have hpos := Nat.two_pow_pos shift
  have hle := Nat.pow_le_pow_right (show 0 < 2 by decide) hshift
  have hnot : (~~~mask shift).toNat = 2 ^ shift - 1 := by
    rw [UInt32.toNat_not, mask_toNat shift hshift]
    simp only [UInt32.size]
    omega
  rw [UInt32.toNat_or, start_toNat a hshift, hnot, Nat.mul_comm, Nat.two_pow_add_eq_or_of_lt (by omega)]

/-! ## Hosts -/

/-- The address is neither the first nor the last of a network with so many host bits. -/
def IsHost (bits : Nat) (a : Ipv4) : Prop := a.toNat % 2 ^ bits ≠ 0 ∧ a.toNat % 2 ^ bits + 1 ≠ 2 ^ bits

def SameNetwork (bits : Nat) (a b : Ipv4) : Prop := a.toNat / 2 ^ bits = b.toNat / 2 ^ bits

theorem inside_iff {gateway a : Ipv4} {shift : Nat} (hshift : shift ≤ 32) :
    (toU32 a &&& mask shift = toU32 gateway &&& mask shift ∧ toU32 a ≠ toU32 gateway &&& mask shift ∧
      toU32 a ≠ (toU32 gateway &&& mask shift) ||| ~~~mask shift) ↔
        SameNetwork shift a gateway ∧ IsHost shift a := by
  have hpos := Nat.two_pow_pos shift
  have hdiv := Nat.div_add_mod a.toNat (2 ^ shift)
  rw [Nat.mul_comm] at hdiv
  unfold SameNetwork IsHost
  simp only [ne_eq, ← UInt32.toNat_inj, start_toNat _ hshift, broadcast_toNat _ hshift, toU32_toNat,
    Nat.mul_left_inj hpos.ne']
  refine and_congr_right fun hsame => ?_
  rw [← hsame]
  constructor
  · rintro ⟨hnet, hlast⟩
    exact ⟨by omega, by omega⟩
  · rintro ⟨hnet, hlast⟩
    exact ⟨by omega, by omega⟩

/-- What `address_of` answers. -/
theorem addressOf_iff {vmid : Nat} {network : Network} {a : Ipv4} :
    addressOf vmid network = some a ↔ ∃ gateway, Ipv4.parse network.gateway = some gateway ∧
      numbered vmid network gateway = some a ∧
      network.cidr ≤ 32 ∧ SameNetwork (32 - network.cidr) a gateway ∧ IsHost (32 - network.cidr) a := by
  unfold addressOf
  simp only [Option.bind_eq_bind, Option.bind_eq_some_iff]
  constructor
  · rintro ⟨gateway, hgateway, address, haddress, shift, hshift, h⟩
    unfold Checked.sub at hshift
    rw [Option.ite_none_right_eq_some] at hshift
    obtain ⟨hcidr, heq⟩ := hshift
    cases heq
    rw [Option.ite_none_right_eq_some] at h
    obtain ⟨hinside, heq⟩ := h
    cases heq
    exact ⟨gateway, hgateway, haddress, hcidr, (inside_iff (by omega)).mp hinside⟩
  · rintro ⟨gateway, hgateway, haddress, hcidr, hinside⟩
    refine ⟨gateway, hgateway, a, haddress, 32 - network.cidr, if_pos hcidr, ?_⟩
    rw [if_pos]
    exact (inside_iff (by omega)).mpr hinside

/-! ## The gateway's own number -/

/-- The number whose address is written as the gateway's. -/
def Names (network : Network) (gateway : Ipv4) (vmid : Nat) : Prop :=
  (2 ≤ vmid ∧ vmid ≤ 254 ∧ network.addrPrefix ++ '.' :: Text.ofNat vmid = gateway.toText) ∨
    (1000 ≤ vmid ∧ vmidOf gateway = vmid ∧ 1 ≤ gateway.fourth.val ∧ gateway.fourth.val ≤ 254)

/-- The last octet of a number from 1000 is neither 0 nor 255. -/
theorem numbered_host {vmid : Nat} {network : Network} {gateway a : Ipv4} (hnew : 1000 ≤ vmid)
    (h : numbered vmid network gateway = some a) : 1 ≤ a.fourth.val ∧ a.fourth.val ≤ 254 := by
  obtain ⟨-, -, -, -, hfourth⟩ := numbered_new (by omega) h
  unfold numbered at h
  rw [if_neg (by omega)] at h
  dsimp only at h
  split at h
  · cases h
  · omega

theorem numbered_gateway {vmid : Nat} {network : Network} {gateway : Ipv4} :
    numbered vmid network gateway = some gateway ↔ Names network gateway vmid := by
  unfold Names
  by_cases hold : 2 ≤ vmid ∧ vmid ≤ 254
  · have hnumbered : numbered vmid network gateway = Ipv4.parse
      (network.addrPrefix ++ '.' :: Text.ofNat vmid) := if_pos hold
    rw [hnumbered]
    constructor
    · intro h
      exact Or.inl ⟨hold.1, hold.2, Ipv4.parse_eq_some h⟩
    · rintro (⟨-, -, htext⟩ | ⟨hnew, -⟩)
      · rw [htext, Ipv4.parse_toText]
      · omega
  · have hnot : ¬ (2 ≤ vmid ∧ vmid ≤ 254 ∧ network.addrPrefix ++ '.' :: Text.ofNat vmid = gateway.toText) :=
      fun h => hold ⟨h.1, h.2.1⟩
    rw [or_iff_right hnot]
    constructor
    · intro h
      by_cases hlow : vmid < 1000
      · unfold numbered at h
        rw [if_neg hold, if_pos (Or.inl hlow)] at h
        cases h
      · obtain ⟨hnew, -, -, hthird, hfourth⟩ := numbered_new (by omega) h
        have hrange := numbered_host hnew h
        refine ⟨hnew, ?_, hrange⟩
        unfold vmidOf
        omega
    · rintro ⟨hnew, hnumber, hfrom, hto⟩
      unfold vmidOf at hnumber
      have hthird := gateway.third.isLt
      have hdiv : vmid / 1000 = gateway.third.val := by omega
      have hmod : vmid % 1000 = gateway.fourth.val := by omega
      unfold numbered
      rw [if_neg hold, hdiv, hmod, if_neg (by omega)]
      simp [octet, gateway.third.isLt, gateway.fourth.isLt]

/-- The addresses of a number are hosts of the gateway's network, other than it, and from 1000 on give
the number back. -/
def Derived (vmid : Nat) (network : Network) : Prop :=
  ∀ a, addressOf vmid network = some a → ∃ gateway, Ipv4.parse network.gateway = some gateway ∧
    network.cidr ≤ 32 ∧
    SameNetwork (32 - network.cidr) a gateway ∧ IsHost (32 - network.cidr) a ∧ a ≠ gateway ∧
      (1000 ≤ vmid → vmidOf a = vmid)

/-- The number is not that of a gateway that is a host of its network. -/
def Apart (vmid : Nat) (network : Network) : Prop :=
  ∀ gateway, Ipv4.parse network.gateway = some gateway → network.cidr ≤ 32 →
    IsHost (32 - network.cidr) gateway →
    ¬ Names network gateway vmid

theorem derived_iff_apart (vmid : Nat) (network : Network) : Derived vmid network ↔ Apart vmid network := by
  constructor
  · intro h gateway hgateway hcidr hhost hnames
    have haddress : addressOf vmid network = some gateway :=
      addressOf_iff.2 ⟨gateway, hgateway, numbered_gateway.2 hnames, hcidr, rfl, hhost⟩
    obtain ⟨gateway', hgateway', -, -, -, hne, -⟩ := h gateway haddress
    exact hne (Option.some.inj (hgateway.symm.trans hgateway'))
  · intro h a ha
    obtain ⟨gateway, hgateway, hnumbered, hcidr, hsame, hhost⟩ := addressOf_iff.1 ha
    refine ⟨gateway, hgateway, hcidr, hsame, hhost, ?_, fun hnew => ?_⟩
    · rintro rfl
      exact h a hgateway hcidr hhost (numbered_gateway.1 hnumbered)
    · obtain ⟨-, -, -, hthird, hfourth⟩ := numbered_new (by omega) hnumbered
      unfold vmidOf
      omega

/-- **An address is a usable host and gives its number back** exactly when the number is not the
gateway's; the mask is that of the network for every length. -/
theorem derived_iff (vmid : Nat) (network : Network) : (Derived vmid network ↔ Apart vmid network) ∧
    ∀ shift, Checked.sub 32 network.cidr = some shift → (mask shift).toNat = 2 ^ 32 - 2 ^ shift := by
  refine ⟨derived_iff_apart vmid network, fun shift hshift => mask_toNat shift ?_⟩
  unfold Checked.sub at hshift
  obtain ⟨-, heq⟩ := Option.ite_none_right_eq_some.mp hshift
  have := Option.some.inj heq
  omega

/-- VMID 101001 gets the address of its gateway 192.168.101.1. -/
theorem derived_gateway : ¬ ∀ (vmid : Nat) (network : Network), Derived vmid network := by
  intro h
  obtain ⟨gateway, hgateway, -, -, -, hne, -⟩ :=
    h 101001 ⟨"192.168.101", 24, "192.168.101.1", []⟩ ⟨192, 168, 101, 1⟩ (by decide +kernel)
  have hparse : Ipv4.parse "192.168.101.1" = some ⟨192, 168, 101, 1⟩ := by decide +kernel
  exact hne (Option.some.inj (hparse.symm.trans hgateway))

end HomeStack.Address
