import MycsCommon.Network.RouteManager
import MycsCommon.Proofs.PacketVerdicts

/-! The gateway of an interface is the address after the base of its subnet. -/

namespace MycsCommon.Network
open List Library BigEndian Addr BitVec UInt8

/-! The next address. -/

theorem incIP_go (bytes : Bytes) : (incIP.go bytes).length = bytes.length ∧
    Nat.ofDigits 256 ((incIP.go bytes).map toNat) = (Nat.ofDigits 256 (bytes.map toNat) + 1) % 256 ^ bytes.length := by
  induction bytes with
  | nil => exact ⟨rfl, by simp [incIP.go]⟩
  | cons byte bytes ih =>
    have below := Nat.ofDigits_lt_base_pow_length (b := 256) (l := bytes.map toNat) (by decide) (by simpa using fun byte _ => byte.toNat_lt)
    have small := byte.toNat_lt
    have value : (byte + 1).toNat = (byte.toNat + 1) % 256 := UInt8.toNat_add byte 1
    rw [length_map] at below
    unfold incIP.go
    split
    next stops =>
      have positive : 0 < (byte + 1).toNat := lt_iff_toNat_lt.mp stops
      refine ⟨rfl, ?_⟩
      rw [map_cons, map_cons, Nat.ofDigits_cons, Nat.ofDigits_cons, Nat.mod_eq_of_lt]
      · omega
      · rw [length_cons, pow_succ]
        omega
    next wraps =>
      have zero : (byte + 1).toNat = 0 := Nat.eq_zero_of_not_pos fun positive => wraps (lt_iff_toNat_lt.mpr positive)
      have carried : byte.toNat + 256 * Nat.ofDigits 256 (bytes.map toNat) + 1 =
          256 * (Nat.ofDigits 256 (bytes.map toNat) + 1) := by omega
      refine ⟨by simp [ih.1], ?_⟩
      rw [map_cons, map_cons, Nat.ofDigits_cons, Nat.ofDigits_cons, zero, carried, ih.2, length_cons, pow_succ', Nat.mul_mod_mul_left,
        Nat.zero_add]

theorem decode_incIP (ip : Bytes) : (incIP ip).length = ip.length ∧ decode (incIP ip) = (decode ip + 1) % 256 ^ ip.length := by
  obtain ⟨length, number⟩ := incIP_go ip.reverse
  exact ⟨by simpa [incIP] using length, by simpa [incIP, decode] using number⟩

theorem decode_bigEndian {count} (bits : BitVec (8 * count)) : decode (bigEndian count bits) = bits.toNat := by
  have digits : ∀ count (bits : Nat), Nat.ofDigits 256 ((range count).map fun index => bits / 256 ^ index % 256) = bits % 256 ^ count := by
    intro count bits
    induction count with
    | zero => simp [Nat.mod_one]
    | succ count ih =>
      rw [range_succ, map_append, Nat.ofDigits_append, ih, Nat.mod_pow_succ]
      simp
  have reversed : (bigEndian count bits).reverse.map toNat = (range count).map fun index => bits.toNat / 256 ^ index % 256 := by
    apply ext_getElem (by simp)
    intro index inside _
    have place : 8 * (count - 1 - (count - 1 - index)) = 8 * index := by
      simp at inside
      omega
    simp [bigEndian, place, Nat.shiftRight_eq_div_pow, pow_mul]
  rw [decode, reversed, digits, Nat.mod_eq_of_lt]
  have bound := bits.isLt
  rwa [pow_mul] at bound

theorem masked_toNat {width} (bits : BitVec width) {low} :
    (bits &&& allOnes width <<< low).toNat = bits.toNat / 2 ^ low * 2 ^ low := by
  have shifted : bits &&& allOnes width <<< low = bits >>> low <<< low := by
    apply eq_of_getLsbD_eq
    intro place bound
    by_cases cleared : place < low
    · simp [cleared]
    · have above : low + (place - low) = place := by omega
      simp [bound, cleared, above]
  rw [shifted, toNat_shiftLeft, toNat_ushiftRight, Nat.shiftLeft_eq, Nat.shiftRight_eq_div_pow, Nat.mod_eq_of_lt]
  exact Nat.lt_of_le_of_lt (Nat.div_mul_le_self _ _) bits.isLt

/-- The address after the base of a subnet that has more than one is in the subnet. -/
theorem next_in_subnet {width} (bits : BitVec width) {low} (positive : 0 < low) (within : low ≤ width) :
    (bits &&& allOnes width <<< low).toNat + 1 < 2 ^ width ∧
      BitVec.ofNat width ((bits &&& BitVec.allOnes width <<< low).toNat + 1) &&& BitVec.allOnes width <<< low =
        bits &&& BitVec.allOnes width <<< low := by
  have bound := (bits &&& allOnes width <<< low).isLt
  obtain ⟨more, rfl⟩ : ∃ more, low = more + 1 := ⟨low - 1, by omega⟩
  obtain ⟨rest, rfl⟩ : ∃ rest, width = rest + 1 := ⟨width - 1, by omega⟩
  rw [masked_toNat] at bound ⊢
  -- the base and the number of addresses are even
  have room : bits.toNat / 2 ^ (more + 1) * 2 ^ (more + 1) + 1 < 2 ^ (rest + 1) := by
    rw [pow_succ, pow_succ, ← Nat.mul_assoc] at bound ⊢
    omega
  refine ⟨room, eq_of_toNat_eq ?_⟩
  have large : 1 < 2 ^ (more + 1) := Nat.one_lt_two_pow (by omega)
  have quotient : (bits.toNat / 2 ^ (more + 1) * 2 ^ (more + 1) + 1) / 2 ^ (more + 1) = bits.toNat / 2 ^ (more + 1) := by
    rw [Nat.mul_comm, Nat.mul_add_div (by omega), Nat.div_eq_of_lt large, Nat.add_zero]
  rw [masked_toNat, masked_toNat, BitVec.toNat_ofNat, Nat.mod_eq_of_lt room, quotient]

/-- The gateway is the next address after the base of the subnet, and in the subnet. -/
def GatewayFits (subnet : Prefix) (gateway : Option Bytes) : Prop :=
  ∃ bytes addr, gateway = some bytes ∧ addrFromSlice bytes = some addr ∧
    decode bytes = decode subnet.maskedAddr.asSlice + 1 ∧ subnet.contains addr = true

theorem gatewayFits_made {count} {make : BitVec (8 * count) → Addr} {network net}
    (slices : ∀ bits, (make bits).asSlice = bigEndian count bits)
    (masks : ∀ ones bits, (make bits).masked ones = make (bits &&& allOnes (8 * count) <<< (8 * count - ones)))
    (reads : ∀ bytes : Bytes, bytes.length = count → addrFromSlice bytes = some (make (BitVec.ofNat (8 * count) (decode bytes))))
    (kind : ∀ bits other, (make bits).is4 = (make other).is4) (own : network.addr = make net)
    (valid : network.isValid = true) (shorter : network.bitsPlusOne - 1 < 8 * count) :
    GatewayFits network (some (incIP (bigEndian count (net &&& allOnes (8 * count) <<< (8 * count - (network.bitsPlusOne - 1)))))) := by
  obtain ⟨room, contained⟩ := @next_in_subnet _ net (8 * count - (network.bitsPlusOne - 1)) (by omega) (by omega)
  obtain ⟨length, number⟩ := decode_incIP (bigEndian count (net &&& allOnes (8 * count) <<< (8 * count - (network.bitsPlusOne - 1))))
  rw [length_bigEndian] at length number
  rw [decode_bigEndian, Nat.mod_eq_of_lt (by rwa [pow_mul] at room)] at number
  refine ⟨_, _, rfl, reads _ length, ?_, ?_⟩
  · rw [number, Prefix.maskedAddr, if_pos valid, own, masks, slices, decode_bigEndian]
  · rw [Prefix.contains, Prefix.maskedAddr, if_pos valid, valid, own, masks, masks, number, contained]
    simp only [beq_self_eq_true, Bool.true_and, Bool.and_true, beq_iff_eq]
    exact kind _ _

/-- The subnet that an address stands for: an IPv4 address alone is taken to be in a /24. -/
def subnetOf (network : Prefix) : Prefix := if network.addr.is4 = true ∧ network.bits = 32 then .of network.addr 24 else network

theorem maskOnes_maskBytes {count ones} (known : count = 4 ∨ count = 16) (within : ones ≤ 8 * count) :
    maskOnes (maskBytes count ones) = ones := by
  have all : (∀ ones ≤ 32, maskOnes (maskBytes 4 ones) = ones) ∧ ∀ ones ≤ 128, maskOnes (maskBytes 16 ones) = ones := by
    decide +kernel
  rcases known with rfl | rfl
  · exact all.1 ones within
  · exact all.2 ones within

theorem ipMask_made {count ones} (known : count = 4 ∨ count = 16) (within : ones ≤ 8 * count) (lead : Bytes)
    (net : BitVec (8 * count)) (led : count = 4 ∧ lead = v4InV6Prefix ∨ count = 16 ∧ lead = []) :
    ipMask (lead ++ bigEndian count net) (maskBytes count ones) =
      some (bigEndian count (net &&& allOnes (8 * count) <<< (8 * count - ones))) := by
  rw [maskBytes_eq known within, ← bigEndian_and]
  obtain ⟨rfl, rfl⟩ | ⟨rfl, rfl⟩ := led
  · simp [ipMask, v4InV6Prefix]
  · simp [ipMask]

/-- The mask of an interface is that of its subnet, but for an IPv6 subnet of 32 bits. -/
theorem interfaceMask_eq {network count} (known : count = 4 ∨ count = 16) (length : network.addr.bitLen = count * 8)
    (valid : network.isValid = true) :
    interfaceMask network = if network.bits = 32 then maskBytes 4 24 else maskBytes count (network.bitsPlusOne - 1) := by
  have positive := of_decide_eq_true valid
  have within := (network.fits positive).2
  have mask : cidrMask network.bits network.addr.bitLen = maskBytes count (network.bitsPlusOne - 1) := by
    rw [length]
    exact_mod_cast cidrMask_eq known valid (by omega)
  have size : maskOnes (maskBytes count (network.bitsPlusOne - 1)) = network.bitsPlusOne - 1 := maskOnes_maskBytes known (by omega)
  have same : network.bitsPlusOne - 1 = 32 ↔ network.bits = 32 := by
    unfold Prefix.bits
    omega
  simp only [interfaceMask, mask, size, same]
  rfl

theorem length_ipMask {ip mask out} (short : mask.length = 4) (masked : ipMask ip mask = some out) :
    out.length = 4 := by
  have whole : (if mask.length = 16 ∧ ip.length = 4 ∧ (mask.take 12).all (· = 0xff) then mask.drop 12 else mask) = mask :=
    if_neg (by omega)
  simp only [ipMask, whole] at masked
  generalize (if mask.length = 4 ∧ ip.length = 16 ∧ ip.take 12 = v4InV6Prefix then ip.drop 12 else ip) = cut at masked
  obtain ⟨fits, rfl⟩ : cut.length = mask.length ∧ List.zipWith (· &&& ·) cut mask = out := by simpa using masked
  rw [length_zipWith, fits, short, Nat.min_self]

theorem gateway_fits_iff {Link Fault : Type} {links : Links Link Fault} {ifaceName : String} {network : Prefix}
    {itf : RoutableInterface Link} (valid : network.isValid = true) (shorter : network.bits < network.addr.bitLen ∨ network.addr.is4 = true)
    (returned : newRoutableInterface links ifaceName (.ok network) = .ok itf) :
    GatewayFits (subnetOf network) itf.gatewayAddress ↔ ¬ (network.addr.is4 = false ∧ network.bits = 32) := by
  have gateway : itf.gatewayAddress = (ipMask network.addr.as16 (interfaceMask network)).map incIP := by
    simp only [newRoutableInterface, bind, Except.bind] at returned
    split at returned
    · cases returned
    · split at returned
      · cases returned
      · split at returned
        · cases returned
        · rw [← Except.ok.inj returned]
  have positive := of_decide_eq_true valid
  obtain ⟨known, within⟩ := network.fits positive
  have size : network.bits = 32 ↔ network.bitsPlusOne = 33 := by
    unfold Prefix.bits
    omega
  rw [gateway]
  cases own : network.addr with
  | zero => exact absurd own known
  | v4 net =>
    rw [own] at within
    rw [interfaceMask_eq (.inl rfl) (by rw [own]; rfl) valid]
    refine iff_of_true ?_ (by simp [is4])
    by_cases single : network.bits = 32
    · rw [if_pos single, as16, @ipMask_made 4 24 (.inl rfl) (by decide) _ net (.inl ⟨rfl, rfl⟩), subnetOf, own, if_pos ⟨rfl, single⟩]
      exact @gatewayFits_made 4 .v4 (.of (.v4 net) 24) net (fun _ => rfl) (fun _ _ => rfl)
        (fun bytes length => by simp [addrFromSlice, length]) (fun _ _ => rfl) rfl rfl (show 24 < 32 by decide)
    · rw [if_neg single, as16, @ipMask_made 4 _ (.inl rfl) (by simp [bitLen] at within; omega) _ net (.inl ⟨rfl, rfl⟩), subnetOf,
        if_neg fun both => single both.2]
      exact @gatewayFits_made 4 .v4 network net (fun _ => rfl) (fun _ _ => rfl)
        (fun bytes length => by simp [addrFromSlice, length]) (fun _ _ => rfl) own valid (by simp [Addr.bitLen] at within; omega)
  | v6 net zone =>
    obtain rfl : "" = zone := by simpa [own, withoutZone] using network.zoneless
    rw [interfaceMask_eq (.inr rfl) (by rw [own]; rfl) valid, subnetOf, own, if_neg (by simp [is4])]
    by_cases wide : network.bits = 32
    · refine iff_of_false ?_ (by simp [is4, wide])
      rintro ⟨bytes, addr, masked, read, -, contained⟩
      rw [if_pos wide] at masked
      obtain ⟨out, cut, rfl⟩ := Option.map_eq_some_iff.mp masked
      have four := (decode_incIP out).1.trans (length_ipMask (by decide) cut)
      rw [addrFromSlice, if_pos four] at read
      obtain rfl := Option.some.inj read
      simp [Prefix.contains, own, is4] at contained
    · refine iff_of_true ?_ (by simp [wide])
      have fewer : network.bitsPlusOne - 1 < 8 * 16 := by
        have short := shorter.resolve_right (by simp [own, is4])
        simp only [own, bitLen, Prefix.bits] at short
        omega
      rw [if_neg wide]
      have masked := @ipMask_made 16 _ (.inr rfl) (Nat.le_of_lt fewer) [] net (.inr ⟨rfl, rfl⟩)
      rw [nil_append] at masked
      rw [as16, masked]
      exact @gatewayFits_made 16 (.v6 · "") network net (fun _ => rfl) (fun _ _ => rfl)
        (fun bytes length => by simp [addrFromSlice, length]) (fun _ _ => rfl) own valid fewer

def openLinks : Links Unit Unit := ⟨fun _ => .ok (), fun _ _ => .ok (), fun _ => .ok ()⟩

theorem gateway_fits_pair : GatewayFits (.of (.v4 0x0a01ff07) 31) (some [10, 1, 255, 7]) :=
  (@gateway_fits_iff Unit Unit openLinks "wg0" (.of (.v4 0x0a01ff07) 31) ⟨(), some [10, 1, 255, 7]⟩ (by decide) (.inr (by decide))
    (by rfl)).mpr (by decide)

/-- An IPv6 subnet of 32 bits has no gateway: the mask of an IPv4 /24 does not fit its addresses. -/
theorem gateway_missing :
    ∃ itf, newRoutableInterface openLinks "wg0" (.ok (.of (.v6 0x20010db8000000000000000000000007 "") 32)) = .ok itf ∧
      itf.gatewayAddress = none ∧ ¬ GatewayFits (subnetOf (.of (.v6 0x20010db8000000000000000000000007 "") 32)) itf.gatewayAddress := by
  refine ⟨⟨(), none⟩, by rfl, rfl, ?_⟩
  rintro ⟨_, _, given, -⟩
  cases given

end MycsCommon.Network
