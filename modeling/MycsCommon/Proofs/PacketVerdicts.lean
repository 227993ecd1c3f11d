import MycsCommon.Network.PacketEval
import MycsCommon.Proofs.NetipText

/-! What the expressions of a rule come to. A match lets the rest of the rule go on or
ends it, whatever the registers held before; so the matches of a rule can be taken one
by one. -/

namespace MycsCommon.Network
open Library List Registers

variable {kernel : Kernel} {packet : Packet}

/-- The expressions go on to what follows them exactly under the condition. -/
def Guards (kernel : Kernel) (packet : Packet) (exprs : List Expr) (condition : Bool) : Prop :=
  ∀ registers, ∃ changed, ∀ rest,
    (evalExprs kernel packet (exprs ++ rest) registers).2 =
      if condition then (evalExprs kernel packet rest changed).2 else none

/-- The expressions come to this, whatever the registers hold. -/
def Decides (kernel : Kernel) (packet : Packet) (exprs : List Expr) (outcome : Option Verdict) : Prop :=
  ∀ registers, (evalExprs kernel packet exprs registers).2 = outcome

theorem evalExprs_next {expr} {registers changed} (goes : expr.eval kernel packet registers = (changed, .next))
    (rest : List Expr) : evalExprs kernel packet (expr :: rest) registers = evalExprs kernel packet rest changed := by
  simp [evalExprs, goes]

theorem evalExprs_cmp (register : Nat) (data : Bytes) (rest : List Expr) (registers : File) :
    (evalExprs kernel packet (.cmp register data :: rest) registers).2 =
      if fetch registers (registerPlace register) data.length = data then
        (evalExprs kernel packet rest registers).2
      else none := by
  by_cases same : fetch registers (registerPlace register) data.length = data
  · simp [evalExprs, Expr.eval, same]
  · simp [evalExprs, Expr.eval, same]

theorem Guards.nil : Guards kernel packet [] true := fun registers => ⟨registers, fun _ => rfl⟩

theorem Guards.append {first second} {condition other} (passes : Guards kernel packet first condition)
    (continues : Guards kernel packet second other) : Guards kernel packet (first ++ second) (condition && other) := by
  intro registers
  obtain ⟨middle, passes⟩ := passes registers
  obtain ⟨changed, continues⟩ := continues middle
  refine ⟨changed, fun rest => ?_⟩
  rw [append_assoc, passes, continues]
  cases condition <;> rfl

theorem Guards.decides {exprs rest} {condition} {outcome} (passes : Guards kernel packet exprs condition)
    (decides : Decides kernel packet rest outcome) :
    Decides kernel packet (exprs ++ rest) (if condition then outcome else none) := by
  intro registers
  obtain ⟨changed, passes⟩ := passes registers
  rw [passes, decides]

theorem Guards.optional {exprs} {wanted condition} (passes : wanted = true → Guards kernel packet exprs condition) :
    Guards kernel packet (if wanted then exprs else []) (!wanted || condition) := by
  cases wanted with
  | false => exact Guards.nil
  | true => exact passes rfl

/-! Interface names. -/

theorem textBytes_append (text other : String) : textBytes (text ++ other) = textBytes text ++ textBytes other := by
  simp [textBytes]

private theorem takeWhile_zero {bytes} (free : 0 ∉ bytes) (rest : Bytes) :
    (bytes ++ 0 :: rest).takeWhile (· ≠ 0) = bytes := by
  rw [takeWhile_append_of_pos]
  · simp
  · intro byte member
    have different : byte ≠ 0 := by
      rintro rfl
      exact free member
    simpa using different

theorem InterfaceName.padded {name} (interface : InterfaceName name) :
    paddedName name = textBytes name ++ 0 :: List.replicate (15 - (textBytes name).length) 0 := by
  rw [paddedName, ← replicate_succ]
  congr 2
  have := interface.short
  omega

theorem paddedName_injective {name other} (interface : InterfaceName name) (another : InterfaceName other)
    (same : paddedName name = paddedName other) : name = other := by
  rw [interface.padded, another.padded] at same
  have names := congrArg (List.takeWhile (· ≠ 0)) same
  rw [takeWhile_zero interface.free, takeWhile_zero another.free] at names
  exact textBytes_injective names

theorem paddedName_lo : textBytes "lo" ++ List.replicate 14 0 = paddedName "lo" := by decide

theorem interfaceName_lo : InterfaceName "lo" := ⟨by decide, by decide⟩

theorem fetch_name_iff {name own} (interface : InterfaceName own) (free : 0 ∉ textBytes name) (registers : File)
    (place : Nat) : fetch (store registers place (paddedName own)) place (textBytes (name ++ "\x00")).length =
      textBytes (name ++ "\x00") ↔ own = name := by
  have ended : textBytes (name ++ "\x00") = textBytes name ++ [0] := textBytes_append name "\x00"
  have whole : fetch (store registers place (paddedName own)) place ((textBytes own).length + 1) =
      textBytes own ++ [0] := by
    rw [interface.padded, fetch_store (by simp)]
    simp [take_append]
  rw [ended, length_append, length_singleton]
  constructor
  · intro same
    -- the first zero byte ends both names
    by_cases longer : (textBytes name).length < (textBytes own).length
    · have zero : (0 : UInt8) ∈ fetch (store registers place (paddedName own)) place
          ((textBytes name).length + 1) := by
        rw [same]
        simp
      rw [fetch_store (by rw [interface.padded]; simp; omega), interface.padded,
        take_append_of_le_length (by omega)] at zero
      exact absurd (mem_of_mem_take zero) interface.free
    · obtain ⟨more, length⟩ := Nat.exists_eq_add_of_le (Nat.not_lt.mp longer)
      rw [length, Nat.add_right_comm, fetch_append, whole, append_assoc] at same
      have names := congrArg (List.takeWhile (· ≠ 0)) same
      rw [singleton_append, takeWhile_zero interface.free, takeWhile_zero free] at names
      exact textBytes_injective names
  · rintro rfl
    exact whole

theorem guards_ifname {key name own} (interface : InterfaceName own) (free : 0 ∉ textBytes name)
    (loads : ∀ registers, (Expr.metaLoad key 1).eval kernel packet registers = (store registers (registerPlace 1) (paddedName own), .next)) :
    Guards kernel packet (ifnameExprs key name) (own == name) := by
  intro registers
  refine ⟨store registers (registerPlace 1) (paddedName own), fun rest => ?_⟩
  rw [ifnameExprs, cons_append, cons_append, evalExprs_next (loads registers), evalExprs_cmp]
  simp only [fetch_name_iff interface free, beq_iff_eq]
  rfl

/-! Networks. -/

theorem maskBytes_eq {count ones} (known : count = 4 ∨ count = 16) (within : ones ≤ 8 * count) :
    maskBytes count ones = bigEndian count (BitVec.allOnes (8 * count) <<< (8 * count - ones)) := by
  have all : (∀ ones ≤ 32, maskBytes 4 ones = bigEndian 4 (BitVec.allOnes 32 <<< (32 - ones))) ∧
      ∀ ones ≤ 128, maskBytes 16 ones = bigEndian 16 (BitVec.allOnes 128 <<< (128 - ones)) := by
    decide +kernel
  rcases known with rfl | rfl
  · exact all.1 ones within
  · exact all.2 ones within

theorem bigEndian_and (count : Nat) {width} (bits mask : BitVec width) :
    List.zipWith (· &&& ·) (bigEndian count bits) (bigEndian count mask) = bigEndian count (bits &&& mask) := by
  simp only [bigEndian, zipWith_map, zipWith_self]
  apply map_congr_left
  intro index _
  rw [BitVec.extractLsb'_and]
  rfl

@[simp] theorem length_bigEndian (count : Nat) {width} (bits : BitVec width) :
    (bigEndian count bits).length = count := by
  simp [bigEndian]

theorem padded_of_length {bytes} (whole : bytes.length % 4 = 0) : padded bytes = bytes := by simp [padded, whole]

theorem eval_payload {register offset len} {base} {field}
    (holds : ((packet.header base).drop offset).take len = field) (length : field.length = len) (registers : File) :
    (Expr.payload register base offset len).eval kernel packet registers =
      (store registers (registerPlace register) (padded field), .next) := by
  have enough : len ≤ ((packet.header base).drop offset).length := by
    rw [← length, ← holds, length_take]
    exact Nat.min_le_right _ _
  simp only [Expr.eval, enough, if_true, holds]

theorem zipWith_xor_zero (bytes : Bytes) : List.zipWith (· ^^^ ·) bytes (List.replicate bytes.length 0) = bytes := by
  induction bytes with
  | nil => rfl
  | cons byte bytes ih => simp [replicate_succ, ih]

theorem guards_masked {offset count} {bits net mask : BitVec (8 * count)} (whole : count % 4 = 0)
    (field : (packet.network.drop offset).take count = bigEndian count bits) :
    Guards kernel packet [.payload 1 .networkHeader offset count, .bitwise 1 1 count (bigEndian count mask) (List.replicate count 0),
      .cmp 1 (bigEndian count (net &&& mask))] (bits &&& mask == net &&& mask) := by
  intro registers
  have masks : (Expr.bitwise 1 1 count (bigEndian count mask) (List.replicate count 0)).eval kernel packet
      (store registers (registerPlace 1) (bigEndian count bits)) =
      (store (store registers (registerPlace 1) (bigEndian count bits)) (registerPlace 1)
        (bigEndian count (bits &&& mask)), .next) := by
    have fetched : fetch (store registers (registerPlace 1) (bigEndian count bits)) (registerPlace 1) count =
        bigEndian count bits := by
      rw [fetch_store (by simp), take_of_length_le (by simp)]
    have xored := zipWith_xor_zero (bigEndian count (bits &&& mask))
    rw [length_bigEndian] at xored
    simp [Expr.eval, fetched, bigEndian_and, xored]
  refine ⟨store (store registers (registerPlace 1) (bigEndian count bits)) (registerPlace 1)
    (bigEndian count (bits &&& mask)), fun rest => ?_⟩
  rw [cons_append, evalExprs_next (eval_payload field (by simp) registers), padded_of_length (by simpa using whole),
    cons_append, evalExprs_next masks, cons_append, evalExprs_cmp, length_bigEndian,
    fetch_store (by simp), take_of_length_le (by simp)]
  by_cases same : bits &&& mask = net &&& mask
  · simp [same]
  · have different : bigEndian count (bits &&& mask) ≠ bigEndian count (net &&& mask) := fun equal => same (bigEndian_injective equal)
    simp [same, different]

theorem cidrMask_eq {network : Prefix} {count} (known : count = 4 ∨ count = 16)
    (valid : network.isValid = true) (within : network.bitsPlusOne ≤ 8 * count + 1) :
    cidrMask network.bits (count * 8) = maskBytes count (network.bitsPlusOne - 1) := by
  have positive := of_decide_eq_true valid
  unfold cidrMask Prefix.bits
  rw [if_neg (by omega), if_neg (by omega)]
  congr 1
  · omega
  · omega

private theorem guards_made {offset count : Nat} {make} {network} {net bits} (known : count = 4 ∨ count = 16)
    (slices : ∀ bits, (make bits).asSlice = bigEndian count bits)
    (masks : ∀ ones bits, (make bits).masked ones = make (bits &&& BitVec.allOnes (8 * count) <<< (8 * count - ones)))
    (injective : Function.Injective make) (kind : ∀ bits other, (make bits).is4 = (make other).is4)
    (own : network.addr = make net) (valid : network.isValid = true) (within : network.bitsPlusOne ≤ 8 * count + 1)
    (field : (packet.network.drop offset).take count = (make bits).asSlice) :
    Guards kernel packet (networkExprs offset count network) (network.contains (make bits)) := by
  have masked : network.maskedAddr = make (net &&& BitVec.allOnes (8 * count) <<< (8 * count - (network.bitsPlusOne - 1))) := by
    rw [Prefix.maskedAddr, if_pos valid, own, masks]
  have mask := (cidrMask_eq known valid within).trans (maskBytes_eq known (Nat.sub_le_of_le_add within))
  have contained : network.contains (make bits) =
      (bits &&& BitVec.allOnes (8 * count) <<< (8 * count - (network.bitsPlusOne - 1)) ==
        net &&& BitVec.allOnes (8 * count) <<< (8 * count - (network.bitsPlusOne - 1))) := by
    rw [Prefix.contains, valid, masked, own, masks, kind net bits, Bool.eq_iff_iff]
    simp [injective.eq_iff]
  rw [networkExprs, contained, mask, masked, slices]
  exact guards_masked (by omega) (field.trans (slices bits))

/-- The addresses of a packet are of its family and have no zone. -/
structure Addr.Of (family : Family) (addr : Addr) : Prop where
  valid : addr ≠ .zero
  zoneless : addr.withoutZone = addr
  kind : familyOf addr.is4 = family

theorem Addresses.source_of (addresses : Addresses) : addresses.source.Of addresses.family := by
  cases addresses <;> exact ⟨nofun, rfl, rfl⟩

theorem Addresses.destination_of (addresses : Addresses) : addresses.destination.Of addresses.family := by
  cases addresses <;> exact ⟨nofun, rfl, rfl⟩

theorem guards_network {offset network family addr} (valid : network.isValid = true)
    (kind : familyOf network.addr.is4 = family) (own : addr.Of family)
    (field : (packet.network.drop offset).take (ipHeaderOffsets family).addrLen = addr.asSlice) :
    Guards kernel packet (networkExprs offset (ipHeaderOffsets family).addrLen network) (network.contains addr) := by
  obtain ⟨known, within⟩ := network.fits (of_decide_eq_true valid)
  have zoneless := network.zoneless
  obtain ⟨given, plain, rfl⟩ := own
  cases net : network.addr with
  | zero => exact absurd net known
  | v4 mine =>
    rw [net] at kind within
    cases addr with
    | zero => exact absurd rfl given
    | v6 _ _ => cases kind
    | v4 bits =>
      exact @guards_made _ packet offset 4 Addr.v4 network mine bits (.inl rfl) (fun _ => rfl) (fun _ _ => rfl)
        (fun _ _ => Addr.v4.inj) (fun _ _ => rfl) net valid within field
  | v6 mine zone =>
    rw [net] at kind within zoneless
    cases addr with
    | zero => exact absurd rfl given
    | v4 _ => cases kind
    | v6 bits own =>
      cases zoneless
      cases plain
      exact @guards_made _ packet offset 16 (Addr.v6 · "") network mine bits (.inr rfl) (fun _ => rfl) (fun _ _ => rfl)
        (fun _ _ same => (Addr.v6.inj same).1) (fun _ _ => rfl) net valid within field

/-! Verdict maps. -/

def Elements.Sized (elements : Elements) (size : Nat) : Prop := ∀ key data, elements.lookup key = some data → key.length = size

theorem findElement_eq {elements size} (sized : elements.Sized size) (registers : File) (place : Nat) :
    findElement elements registers place = elements.lookup (fetch registers place size) := by
  have sizes : ∀ entry ∈ elements.entries, entry.1.length = size := by
    rintro ⟨key, data⟩ member
    exact sized key data (AList.mem_lookup_iff.mpr member)
  unfold findElement AList.lookup
  revert sizes
  generalize elements.entries = entries
  intro sizes
  induction entries with
  | nil => rfl
  | cons entry entries ih =>
    obtain ⟨key, data⟩ := entry
    have length := sizes ⟨key, data⟩ (by simp)
    have rest := ih fun other member => sizes other (by simp [member])
    by_cases same : fetch registers place size = key
    · subst same
      rw [dlookup_cons_eq entries, find?_cons_of_pos (by simp)]
      rfl
    · rw [dlookup_cons_ne entries ⟨key, data⟩ same, find?_cons_of_neg (by simpa [length] using same), rest]

theorem decides_lookup {name elements size register} (known : kernel.sets packet.family name = some elements)
    (sized : elements.Sized size) (registers : File) :
    (evalExprs kernel packet [.lookup register name true false] registers).2 =
      (elements.lookup (fetch registers (registerPlace register) size)).join := by
  simp only [evalExprs, Expr.eval, evalLookup, known, Option.bind_some, findElement_eq sized]
  match elements.lookup (fetch registers (registerPlace register) size) with
  | none => rfl
  | some none => rfl
  | some (some verdict) => rfl

theorem decides_loaded {expr name elements value}
    (loads : ∀ registers, expr.eval kernel packet registers = (store registers (registerPlace 1) value, .next))
    (known : kernel.sets packet.family name = some elements) (sized : elements.Sized value.length) :
    Decides kernel packet [expr, .lookup 1 name true false] (elements.lookup value).join := by
  intro registers
  rw [evalExprs_next (loads registers), decides_lookup known sized, fetch_store_all]

theorem decides_icmp (verdict : Verdict) :
    Decides kernel packet (icmpExprs verdict) (if packet.protocol = 1 then some verdict else none) := by
  intro registers
  rw [icmpExprs, evalExprs_next rfl, evalExprs_cmp, fetch_store (by simp [padded])]
  by_cases icmp : packet.protocol = 1
  · simp [icmp, padded, evalExprs, Expr.eval]
  · simp [icmp, padded]

def Packet.portKey (packet : Packet) (port : BitVec 16) : Bytes := [packet.protocol, 0, 0, 0] ++ bigEndian 2 port ++ [0, 0]

theorem ipHeaderOffsets_layout (family : Family) : ipHeaderOffsets family =
    ⟨(headerLayout family).length, (headerLayout family).source, (headerLayout family).destination, (headerLayout family).protocol⟩ := by
  cases family <;> rfl

theorem bigEndian_two (high low : UInt8) : bigEndian 2 (high.toBitVec ++ low.toBitVec) = [high, low] := by
  have upper : (high.toBitVec ++ low.toBitVec).extractLsb' 8 8 = high.toBitVec := BitVec.extractLsb'_append_eq_left
  have lower : (high.toBitVec ++ low.toBitVec).extractLsb' 0 8 = low.toBitVec := BitVec.extractLsb'_append_eq_right
  show [UInt8.ofBitVec _, UInt8.ofBitVec _] = _
  rw [upper, lower]

theorem decides_ports {name elements} (known : kernel.sets packet.family name = some elements)
    (sized : elements.Sized 8) : Decides kernel packet (portExprs (ipHeaderOffsets packet.family).protoOffset name)
      (packet.port.bind fun port => (elements.lookup (packet.portKey port)).join) := by
  intro registers
  have protocol : (packet.network.drop (ipHeaderOffsets packet.family).protoOffset).take 1 = [packet.protocol] := by
    rw [ipHeaderOffsets_layout]
    exact packet.protocolField
  have first := @eval_payload kernel packet 9 _ 1 .networkHeader [packet.protocol] protocol rfl registers
  rw [portExprs, evalExprs_next first]
  unfold Packet.port
  split
  next high low rest bytes =>
    have field : (packet.transport.drop 2).take 2 = [high, low] := by rw [bytes]; rfl
    have second := @eval_payload kernel packet 10 2 2 .transportHeader [high, low] field rfl
    have fetched : fetch (store (store registers 20 [packet.protocol, 0, 0, 0]) 24 [high, low, 0, 0])
        20 8 = packet.portKey (high.toBitVec ++ low.toBitVec) := by
      rw [Packet.portKey, bigEndian_two]
      rfl
    rw [evalExprs_next (second _), decides_lookup known sized]
    exact congrArg (fun key => (elements.lookup key).join) fetched
  next short =>
    have missing : ¬ 2 ≤ (packet.transport.drop 2).length := by
      intro enough
      match bytes : packet.transport.drop 2, enough with
      | high :: low :: rest, _ => exact short high low rest bytes
    have skips : ∀ registers, (Expr.payload 10 .transportHeader 2 2).eval kernel packet registers = (registers, .skip) := by
      intro registers
      exact if_neg missing
    simp only [evalExprs, skips]
    rfl

/-! Chains. -/

section
variable {jump : String → File → File × Option Verdict} {rule : Rule} {rules : List Rule} {verdict : Verdict}

/-- The rule on its own comes to this, whatever the registers hold. -/
def Yields (kernel : Kernel) (packet : Packet) (jump : String → File → File × Option Verdict) (rule : Rule)
    (outcome : Option Verdict) : Prop :=
  ∀ registers, (evalRules kernel packet jump [rule] registers).2 = outcome

theorem Decides.yields {outcome} (decides : Decides kernel packet rule.exprs outcome)
    (direct : ∀ chain, outcome ≠ some (.jump chain)) : Yields kernel packet jump rule outcome := by
  intro registers
  have reached := decides registers
  unfold evalRules
  cases ran : evalExprs kernel packet rule.exprs registers with
  | mk changed outcome =>
    rw [ran] at reached
    subst reached
    match outcome with
    | none => rfl
    | some .accept => rfl
    | some .drop => rfl
    | some (.jump chain) => exact absurd rfl (direct chain)

theorem Decides.yields_jump {chain} {outcome} (decides : Decides kernel packet rule.exprs (some (.jump chain)))
    (reaches : ∀ registers, (jump chain registers).2 = outcome) : Yields kernel packet jump rule outcome := by
  intro registers
  have reached := decides registers
  unfold evalRules
  cases ran : evalExprs kernel packet rule.exprs registers with
  | mk changed result =>
    rw [ran] at reached
    subst reached
    have jumped := reaches changed
    simp only []
    cases landed : jump chain changed with
    | mk left result =>
      rw [landed] at jumped
      subst jumped
      cases result <;> rfl

theorem evalRules_append (rules others : List Rule) (registers : File) :
    ∃ changed, evalRules kernel packet jump (rules ++ others) registers =
      match (evalRules kernel packet jump rules registers).2 with
      | none => evalRules kernel packet jump others changed
      | some verdict => (changed, some verdict) := by
  induction rules generalizing registers with
  | nil => exact ⟨registers, rfl⟩
  | cons rule rules ih =>
    simp only [cons_append, evalRules]
    split
    next changed _ => exact ih changed
    next changed chain _ =>
      split
      next changed _ => exact ih changed
      next changed verdict _ => exact ⟨changed, rfl⟩
    next changed verdict _ _ => exact ⟨changed, rfl⟩

private theorem evalRules_cons (rule : Rule) (rules : List Rule) (registers : File) :
    ∃ changed, evalRules kernel packet jump (rule :: rules) registers =
      match (evalRules kernel packet jump [rule] registers).2 with
      | none => evalRules kernel packet jump rules changed
      | some verdict => (changed, some verdict) :=
  evalRules_append [rule] rules registers

theorem evalRules_none (each : ∀ rule ∈ rules, Yields kernel packet jump rule none) (registers : File) :
    (evalRules kernel packet jump rules registers).2 = none := by
  induction rules generalizing registers with
  | nil => rfl
  | cons rule rules ih =>
    obtain ⟨changed, ran⟩ := @evalRules_cons kernel packet jump rule rules registers
    rw [ran, each rule (by simp) registers]
    exact ih (fun other member => each other (by simp [member])) changed

theorem evalRules_some (each : ∀ rule ∈ rules, Yields kernel packet jump rule none ∨ Yields kernel packet jump rule (some verdict))
    (some : ∃ rule ∈ rules, Yields kernel packet jump rule (some verdict)) (registers : File) :
    (evalRules kernel packet jump rules registers).2 = .some verdict := by
  induction rules generalizing registers with
  | nil => simp at some
  | cons rule rules ih =>
    obtain ⟨changed, ran⟩ := @evalRules_cons kernel packet jump rule rules registers
    rcases each rule (by simp) with passes | decides
    · rw [ran, passes registers]
      refine ih (fun other member => each other (by simp [member])) ?_ changed
      obtain ⟨other, member, decides⟩ := some
      rcases mem_cons.mp member with rfl | later
      · exact nomatch (passes registers).symm.trans (decides registers)
      · exact ⟨other, later, decides⟩
    · rw [ran, decides registers]

end

end MycsCommon.Network
