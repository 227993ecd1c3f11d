import MycsCommon.Proofs.GroupInstall

/-! What the rules of one security group on a fresh router do with a packet. -/

namespace MycsCommon.Network
open Library Program List Guards Installed Kernel PortGroup Registers Rule SecurityGroup World

namespace SecurityGroup

variable {sg : SecurityGroup} {iifName : String} {packet : Packet} {kernel : Kernel}

/-- The networks the group is given are of one family. -/
def OneFamily (sg : SecurityGroup) : Prop :=
  (sg.srcNetwork.isValid || sg.dstNetwork.isValid) = true → ¬ (sg.appliesTo .ipv4 = true ∧ sg.appliesTo .ipv6 = true)

instance (sg : SecurityGroup) : Decidable sg.OneFamily := inferInstanceAs (Decidable (_ → ¬ _))

theorem appliesTo_own {network} (given : network = sg.srcNetwork ∨ network = sg.dstNetwork)
    (valid : network.isValid = true) : sg.appliesTo (familyOf network.addr.is4) = true := by
  have some : (sg.srcNetwork.isValid || sg.dstNetwork.isValid) = true := by
    rcases given with rfl | rfl <;> simp [valid]
  have known := (network.fits (of_decide_eq_true valid)).1
  unfold appliesTo
  rw [if_pos some]
  cases addr : network.addr with
  | zero => exact absurd addr known
  | v4 => rcases given with rfl | rfl <;> simp [familyOf, Addr.is4, addr]
  | v6 => rcases given with rfl | rfl <;> simp [familyOf, Addr.is4, Addr.is6, addr]

theorem OneFamily.kind (one : sg.OneFamily) {network} (given : network = sg.srcNetwork ∨ network = sg.dstNetwork)
    (valid : network.isValid = true) {table} (applies : sg.appliesTo table = true) :
    familyOf network.addr.is4 = table := by
  have some : (sg.srcNetwork.isValid || sg.dstNetwork.isValid) = true := by
    rcases given with rfl | rfl <;> simp [valid]
  have own := appliesTo_own given valid
  cases family : familyOf network.addr.is4 <;> cases table <;> first | rfl | skip
  · exact absurd ⟨family ▸ own, applies⟩ (one some)
  · exact absurd ⟨applies, family ▸ own⟩ (one some)

theorem OneFamily.same (one : sg.OneFamily) : sg.mixesFamilies = false := by
  by_contra mixes
  simp only [mixesFamilies, Bool.not_eq_false, Bool.and_eq_true, bne_iff_ne] at mixes
  obtain ⟨⟨source, dest⟩, different⟩ := mixes
  have equal := one.kind (.inr rfl) dest (appliesTo_own (.inl rfl) source)
  have injective : ∀ first second : Bool, familyOf first = familyOf second → first = second := by decide
  exact different (injective _ _ equal).symm

/-- The matches of the group's rules but for the incoming interface. -/
def passes (sg : SecurityGroup) (packet : Packet) : Bool :=
  (!sg.srcNetwork.isValid || sg.srcNetwork.contains packet.addresses.source) &&
    (sg.oifname == "" || packet.oifName == sg.oifname) &&
    (!sg.dstNetwork.isValid || sg.dstNetwork.contains packet.addresses.destination)

theorem matchesNetworks_eq (sg : SecurityGroup) (iifName : String) (packet : Packet) :
    sg.matchesNetworks iifName packet = ((iifName == "" || packet.iifName == iifName) && sg.passes packet) := by
  simp only [matchesNetworks, passes, Bool.and_assoc]

private theorem contains_family {network : Prefix} {addr family} (own : addr.Of family)
    (holds : network.contains addr = true) : familyOf network.addr.is4 = family := by
  simp only [Prefix.contains, Bool.and_eq_true, beq_iff_eq] at holds
  rw [holds.1.2, own.kind]

theorem appliesTo_of_passes (holds : sg.passes packet = true) : sg.appliesTo packet.family = true := by
  simp only [passes, Bool.and_eq_true, Bool.or_eq_true, Bool.not_eq_true'] at holds
  obtain ⟨⟨source, -⟩, dest⟩ := holds
  cases first : sg.srcNetwork.isValid with
  | true =>
    have own : familyOf sg.srcNetwork.addr.is4 = packet.family :=
      contains_family packet.addresses.source_of (source.resolve_left (by simp [first]))
    exact own ▸ appliesTo_own (.inl rfl) first
  | false =>
    cases second : sg.dstNetwork.isValid with
    | true =>
      have own : familyOf sg.dstNetwork.addr.is4 = packet.family :=
        contains_family packet.addresses.destination_of (dest.resolve_left (by simp [second]))
      exact own ▸ appliesTo_own (.inr rfl) second
    | false => simp [appliesTo, first, second]

theorem guards_matchList (one : sg.OneFamily) (outgoing : 0 ∉ textBytes sg.oifname)
    (applies : sg.appliesTo packet.family = true) : Guards kernel packet (sg.matchList packet.family) (sg.passes packet) := by
  have source : sg.srcNetwork.isValid = true → Guards kernel packet (networkExprs (ipHeaderOffsets packet.family).srcOffset
      (ipHeaderOffsets packet.family).addrLen sg.srcNetwork) (sg.srcNetwork.contains packet.addresses.source) := by
    intro valid
    refine guards_network valid (one.kind (.inl rfl) valid applies) packet.addresses.source_of ?_
    rw [ipHeaderOffsets_layout]
    exact packet.sourceField
  have dest : sg.dstNetwork.isValid = true → Guards kernel packet (networkExprs (ipHeaderOffsets packet.family).destOffset
      (ipHeaderOffsets packet.family).addrLen sg.dstNetwork) (sg.dstNetwork.contains packet.addresses.destination) := by
    intro valid
    refine guards_network valid (one.kind (.inr rfl) valid applies) packet.addresses.destination_of ?_
    rw [ipHeaderOffsets_layout]
    exact packet.destinationField
  have interface : Guards kernel packet (if sg.oifname ≠ "" then ifnameExprs .oifname sg.oifname else [])
      (sg.oifname == "" || packet.oifName == sg.oifname) := by
    by_cases named : sg.oifname = ""
    · simpa [named] using Guards.nil
    · have compares : Guards kernel packet (ifnameExprs .oifname sg.oifname) (packet.oifName == sg.oifname) :=
        guards_ifname packet.outgoing outgoing fun _ => rfl
      rw [if_pos named, beq_false_of_ne named, Bool.false_or]
      exact compares
  exact ((optional source).append interface).append (optional dest)

end SecurityGroup

/-! Ports. -/

def PortGroup.InScope (group : PortGroup) : Prop :=
  group.proto = .ICMP ∨ (group.proto = .TCP ∨ group.proto = .UDP) ∧ 0 ≤ group.fromPort ∧ group.toPort ≤ 65535

namespace PortGroup

variable {group : PortGroup} {packet : Packet}

instance (group : PortGroup) : Decidable group.InScope := inferInstanceAs (Decidable (_ ∨ _))

theorem InScope.range (scope : group.InScope) (ports : group.icmp = false) :
    ∃ listed, portRange group.fromPort group.toPort = some listed ∧
      ∀ port, port ∈ listed ↔ group.fromPort ≤ port ∧ port ≤ group.toPort := by
  have other := of_decide_eq_false ports
  have high := (scope.resolve_left other).2.2
  unfold portRange maxInt
  rw [if_neg (by omega)]
  refine ⟨_, rfl, fun port => ?_⟩
  simp only [mem_map, bind_eq_flatMap, mem_flatMap, mem_range, pure_def, mem_singleton]
  constructor
  · rintro ⟨_, ⟨index, below, rfl⟩, rfl⟩
    omega
  · rintro ⟨low, high⟩
    exact ⟨_, ⟨(port - group.fromPort).toNat, by omega, rfl⟩, by omega⟩

theorem InScope.ends (scope : group.InScope) : group.Ends := by
  intro other
  obtain ⟨listed, range, -⟩ := scope.range (decide_eq_false other)
  simp [range]

theorem portBytes_eq_iff {port : BitVec 16} {value} (low : 0 ≤ value) (high : value ≤ 65535) :
    portBytes value = bigEndian 2 port ↔ value = port.toNat := by
  have bits : portBytes value = bigEndian 2 port ↔ BitVec.ofInt 16 value = port :=
    ⟨@bigEndian_injective 2 _ _, congrArg _⟩
  rw [bits]
  constructor
  · rintro rfl
    simp only [BitVec.toNat_ofInt]
    omega
  · rintro rfl
    simp

theorem InScope.mem_keys (scope : group.InScope) (ports : group.icmp = false) (port : BitVec 16) :
    packet.portKey port ∈ group.keys ↔
      protoNumber group.proto = some packet.protocol ∧ group.fromPort ≤ port.toNat ∧ (port.toNat : Int) ≤ group.toPort := by
  have bounds := (scope.resolve_left (of_decide_eq_false ports)).2
  have key : ∀ value : Int, 0 ≤ value → value ≤ 65535 →
      (createPortVMapKeyData group.proto value = some (packet.portKey port) ↔
        protoNumber group.proto = some packet.protocol ∧ value = port.toNat) := by
    intro value low high
    rw [← portBytes_eq_iff low high]
    cases known : protoNumber group.proto <;> simp [createPortVMapKeyData, Packet.portKey, known]
  obtain ⟨listed, range, within⟩ := scope.range ports
  simp only [keys, range, Option.getD_some, mem_flatMap, Option.mem_toList, within]
  constructor
  · rintro ⟨value, ⟨low, high⟩, made⟩
    obtain ⟨number, rfl⟩ := (key value (by omega) (by omega)).mp made
    exact ⟨number, low, high⟩
  · rintro ⟨number, low, high⟩
    exact ⟨port.toNat, ⟨low, high⟩, (key _ (by omega) (by omega)).mpr ⟨number, rfl⟩⟩

theorem InScope.admits_iff (scope : group.InScope) (ports : group.icmp = false) :
    group.admits packet = true ↔ ∃ port, packet.port = some port ∧ packet.portKey port ∈ group.keys := by
  have other := of_decide_eq_false ports
  simp only [admits, Bool.and_eq_true, beq_iff_eq, Bool.or_eq_true, other, false_or, Option.any_eq_true, decide_eq_true_eq,
    scope.mem_keys ports]
  constructor
  · rintro ⟨number, port, known, low, high⟩
    exact ⟨port, known, number, low, high⟩
  · rintro ⟨port, known, number, low, high⟩
    exact ⟨number, port, known, low, high⟩

theorem icmp_admits_iff (icmp : group.icmp = true) : group.admits packet = true ↔ packet.protocol = 1 := by
  have proto := of_decide_eq_true icmp
  have number : protoNumber .ICMP = some 1 := by decide
  simp only [admits, proto, number, Bool.and_eq_true, beq_iff_eq, Option.some.injEq, BEq.rfl, Bool.true_or, and_true]
  exact eq_comm

theorem InScope.admits_kind (scope : group.InScope) (holds : group.admits packet = true) :
    group.icmp = (packet.protocol == 1) := by
  cases kind : group.icmp with
  | true => simp [(icmp_admits_iff kind).mp holds]
  | false =>
    have proto := (scope.resolve_left (of_decide_eq_false kind)).1
    have numbers : protoNumber .TCP = some 6 ∧ protoNumber .UDP = some 17 := by decide
    simp only [admits, Bool.and_eq_true, beq_iff_eq] at holds
    have known := holds.1
    rcases proto with proto | proto
    · rw [proto, numbers.1] at known
      rw [← Option.some.inj known]
      rfl
    · rw [proto, numbers.2] at known
      rw [← Option.some.inj known]
      rfl

end PortGroup

theorem length_of_mem_portKeys {groups} {key} (member : key ∈ portKeys groups) : key.length = 8 := by
  obtain ⟨group, -, listed⟩ := mem_flatMap.mp member
  split at listed
  · simp at listed
  · obtain ⟨port, -, made⟩ := mem_flatMap.mp listed
    simp only [createPortVMapKeyData, Option.mem_toList, Option.map_eq_some_iff] at made
    obtain ⟨-, -, rfl⟩ := made
    simp [portBytes]

/-- The set holds the ports of the group, each with the group's verdict. -/
def HoldsPorts (kernel : Kernel) (table : Family) (name : String) (sg : SecurityGroup) : Prop :=
  ∃ elements, kernel.sets table name = some elements ∧
    ∀ key data, elements.lookup key = some data ↔ key ∈ portKeys sg.ports ∧ data = some sg.verdict

/-! The rules of a group. -/

namespace SecurityGroup

variable {sg : SecurityGroup} {iifName : String} {packet : Packet} {kernel : Kernel} {vmapName : Family → String}
  {ctPos : Family → Nat}

def kindAdmits (sg : SecurityGroup) (packet : Packet) (kind : Bool) : Bool :=
  sg.ports.any fun group => group.icmp == kind && group.admits packet

theorem kindAdmits_iff {kind} : sg.kindAdmits packet kind = true ↔
    ∃ group ∈ sg.ports, group.icmp = kind ∧ group.admits packet = true := by
  simp [kindAdmits]

/-- What the ICMP rule and the vmap rule look at. -/
def keyed (sg : SecurityGroup) (packet : Packet) (kind : Bool) : Bool :=
  if kind then packet.protocol = 1 else packet.port.any fun port => packet.portKey port ∈ portKeys sg.ports

theorem keyed_ports : sg.keyed packet false = true ↔ ∃ port, packet.port = some port ∧ packet.portKey port ∈ portKeys sg.ports := by
  simp [keyed, Option.any_eq_true]

theorem decides_tail {name kind} (vmap : kind = false → HoldsPorts kernel packet.family name sg) :
    Decides kernel packet (sg.tail packet.family name kind) (if sg.keyed packet kind then some sg.verdict else none) := by
  cases kind with
  | true =>
    simp only [keyed, if_true, decide_eq_true_eq]
    exact decides_icmp sg.verdict
  | false =>
    obtain ⟨elements, known, holds⟩ := vmap rfl
    have sized : elements.Sized 8 := fun key data found => length_of_mem_portKeys ((holds key data).mp found).1
    intro registers
    rw [show sg.tail packet.family name false = portExprs (ipHeaderOffsets packet.family).protoOffset name from rfl,
      decides_ports known sized]
    cases port : packet.port with
    | none =>
      rw [if_neg (by rw [keyed_ports]; simp [port])]
      rfl
    | some port' =>
      by_cases listed : packet.portKey port' ∈ portKeys sg.ports
      · have found := (holds _ _).mpr ⟨listed, rfl⟩
        rw [if_pos (keyed_ports.mpr ⟨port', port, listed⟩), Option.bind_some, found]
        rfl
      · have missing : elements.lookup (packet.portKey port') = none := by
          cases found : elements.lookup (packet.portKey port') with
          | none => rfl
          | some data => exact absurd ((holds _ _).mp found).1 listed
        rw [if_neg (by rw [keyed_ports]; simp [port, listed]), Option.bind_some, missing]
        rfl

theorem kindAdmits_eq (scope : ∀ group ∈ sg.ports, group.InScope) {kind}
    (present : sg.ports.any (·.icmp == kind) = true) : sg.kindAdmits packet kind = sg.keyed packet kind := by
  rw [Bool.eq_iff_iff, kindAdmits_iff]
  cases kind with
  | true =>
    obtain ⟨group, member, icmp⟩ := any_eq_true.mp present
    simp only [keyed, if_true, decide_eq_true_eq]
    constructor
    · rintro ⟨other, -, icmp, holds⟩
      exact (icmp_admits_iff icmp).mp holds
    · exact fun number => ⟨group, member, by simpa using icmp, (icmp_admits_iff (by simpa using icmp)).mpr number⟩
  | false =>
    rw [keyed_ports]
    constructor
    · rintro ⟨group, member, ports, holds⟩
      obtain ⟨port, known, listed⟩ := ((scope group member).admits_iff ports).mp holds
      refine ⟨port, known, mem_flatMap.mpr ⟨group, member, ?_⟩⟩
      rwa [if_neg (of_decide_eq_false ports)]
    · rintro ⟨port, known, listed⟩
      obtain ⟨group, member, listed⟩ := mem_flatMap.mp listed
      split at listed
      · simp at listed
      next other =>
        have ports := decide_eq_false other
        exact ⟨group, member, ports, ((scope group member).admits_iff ports).mpr ⟨port, known, listed⟩⟩

/-- Packets of other interfaces do not come into the interface's own chain. -/
def entered (sg : SecurityGroup) (iifName : String) (packet : Packet) : Bool :=
  !sg.dstNetwork.isValid || (iifName == "" || packet.iifName == iifName)

theorem guards_pre (interface : InterfaceName iifName) :
    Guards kernel packet (sg.target iifName ctPos).pre (sg.entered iifName packet) := by
  unfold target entered
  cases sg.dstNetwork.isValid with
  | false => by_cases named : iifName = "" <;> simpa [named] using Guards.nil
  | true =>
    by_cases named : iifName = ""
    · simpa [named] using Guards.nil
    · have compares : Guards kernel packet (ifnameExprs .iifname iifName) (packet.iifName == iifName) :=
        guards_ifname packet.incoming interface.free fun _ => rfl
      simpa [named, beq_false_of_ne named] using compares

/-- The rule for the packet's kind of ports is not the one that was overwritten. -/
def portsReached (sg : SecurityGroup) (iifName : String) (packet : Packet) : Bool :=
  sg.ports.isEmpty || sg.ports.any fun group =>
    group.admits packet && !(sg.aliases iifName && sg.ports.head?.any (·.icmp == group.icmp))

theorem mem_settled (same : sg.mixesFamilies = false) (ports : sg.ports ≠ []) (table : Family) (name : String) (kind : Bool) :
    sg.tail table name kind ∈ settle (sg.shares iifName) (sg.tails table name true) ↔
      sg.ports.any (·.icmp == kind) = true ∧ ¬ (sg.aliases iifName = true ∧ sg.ports.head?.any (·.icmp == kind) = true) := by
  have all : sg.tails table name true = (kinds sg.ports false false).map (sg.tail table name) := by simp [tails, ports]
  rw [all, mem_settle_kinds _ _ (sg.tail_injective table name)]
  refine and_congr_right fun present => not_congr ?_
  rw [← and_assoc]
  refine and_congr_left fun _ => ?_
  have both : sg.aliases iifName = (sg.shares iifName && (sg.ports.any (·.icmp == kind) && sg.ports.any (·.icmp != kind))) := by
    simp only [aliases, same, Bool.not_false, Bool.true_and, Bool.and_assoc, icmp]
    cases kind <;> simp [Bool.and_comm]
  rw [both, present, Bool.true_and, Bool.and_eq_true]

/-- A rule of the group that was not overwritten looks for the packet's ports. -/
def portsHit (sg : SecurityGroup) (iifName : String) (packet : Packet) : Bool :=
  sg.ports.isEmpty || [true, false].any fun kind => sg.ports.any (·.icmp == kind) &&
    !(sg.aliases iifName && sg.ports.head?.any (·.icmp == kind)) && sg.keyed packet kind

theorem portsHit_iff (ports : sg.ports ≠ []) : sg.portsHit iifName packet = true ↔
    ∃ kind, (sg.ports.any (·.icmp == kind) = true ∧
      ¬ (sg.aliases iifName = true ∧ sg.ports.head?.any (·.icmp == kind) = true)) ∧ sg.keyed packet kind = true := by
  have both : ∀ kind : Bool, kind ∈ [true, false] := by decide
  simp only [portsHit, isEmpty_eq_false_iff.mpr ports, Bool.false_or, any_eq_true (l := [true, false]), Bool.and_eq_true,
    Bool.not_eq_true', Bool.eq_false_iff, ne_eq, both, true_and]

/-- The packet gets the group's verdict in the chain of its rules. -/
def hit (sg : SecurityGroup) (iifName : String) (packet : Packet) : Bool :=
  sg.entered iifName packet && sg.passes packet && sg.portsHit iifName packet

/-- What the matches of a group rely on. -/
structure Legible (sg : SecurityGroup) (iifName : String) : Prop where
  one : sg.OneFamily
  interface : InterfaceName iifName
  outgoing : 0 ∉ textBytes sg.oifname

theorem Legible.decides (legible : sg.Legible iifName) (applies : sg.appliesTo packet.family = true) {tail outcome}
    (decides : Decides kernel packet tail outcome) :
    Decides kernel packet ((sg.target iifName ctPos).pre ++ sg.matchList packet.family ++ tail)
      (if sg.entered iifName packet && sg.passes packet then outcome else none) :=
  ((guards_pre legible.interface).append (guards_matchList legible.one legible.outgoing applies)).decides decides

theorem needsVmap_of_kind {table} (applies : sg.appliesTo table = true)
    (present : sg.ports.any (·.icmp == false) = true) : sg.needsVmap table = true := by
  rw [needsVmap, applies, Bool.true_and, ← present]
  congr 1
  funext group
  simp [icmp]

section

variable (legible : sg.Legible iifName) (vmap : sg.needsVmap packet.family = true → HoldsPorts kernel packet.family (vmapName packet.family) sg)
include legible vmap

theorem Legible.compiled_decides {rule}
    (compiled : rule ∈ sg.compile iifName vmapName ctPos fun _ => true) (own : rule.table = packet.family) :
    Decides kernel packet rule.exprs none ∨
      sg.hit iifName packet = true ∧ Decides kernel packet rule.exprs (some sg.verdict) := by
  obtain ⟨table, applies, tail, settled, rfl⟩ := mem_compile.mp compiled
  obtain rfl : table = packet.family := own
  have decides : ∃ found : Bool, (found = true → sg.portsHit iifName packet = true) ∧
      Decides kernel packet tail (if found then some sg.verdict else none) := by
    by_cases ports : sg.ports = []
    · rw [sg.tails_of_empty ports, settle_singleton] at settled
      rw [mem_singleton.mp settled]
      exact ⟨true, fun _ => by simp [portsHit, ports], fun _ => rfl⟩
    · have listed := mem_settle settled
      simp only [tails, isEmpty_eq_false_iff.mpr ports, Bool.false_eq_true, if_false] at listed
      obtain ⟨kind, -, rfl⟩ := mem_map.mp listed
      have left := (mem_settled legible.one.same ports _ _ kind).mp settled
      refine ⟨sg.keyed packet kind, fun keyed => (portsHit_iff ports).mpr ⟨kind, left, keyed⟩, decides_tail ?_⟩
      rintro rfl
      exact vmap (needsVmap_of_kind applies left.1)
  obtain ⟨found, hits, decides⟩ := decides
  have whole := @Legible.decides sg iifName packet kernel ctPos legible applies _ _ decides
  cases entered : sg.entered iifName packet && sg.passes packet with
  | false =>
    rw [entered] at whole
    exact .inl whole
  | true =>
    rw [entered] at whole
    cases found with
    | false => exact .inl whole
    | true =>
      refine .inr ⟨?_, whole⟩
      rw [hit, entered, hits rfl]
      rfl

theorem Legible.compiled_hits
    (hit : sg.hit iifName packet = true) :
    ∃ rule ∈ sg.compile iifName vmapName ctPos fun _ => true, rule.table = packet.family ∧
      Decides kernel packet rule.exprs (some sg.verdict) := by
  obtain ⟨entered, ports⟩ := Bool.and_eq_true_iff.mp hit
  have applies := appliesTo_of_passes (Bool.and_eq_true_iff.mp entered).2
  have tail : ∃ tail ∈ settle (sg.shares iifName) (sg.tails packet.family (vmapName packet.family) true),
      Decides kernel packet tail (some sg.verdict) := by
    by_cases none : sg.ports = []
    · rw [sg.tails_of_empty none, settle_singleton]
      exact ⟨_, mem_singleton.mpr rfl, fun _ => rfl⟩
    · obtain ⟨kind, left, keyed⟩ := (portsHit_iff none).mp ports
      refine ⟨_, (mem_settled legible.one.same none _ _ kind).mpr left, ?_⟩
      have decides := @decides_tail sg packet kernel (vmapName packet.family) kind (by
        rintro rfl
        exact vmap (needsVmap_of_kind applies left.1))
      rwa [if_pos keyed] at decides
  obtain ⟨tail, settled, decides⟩ := tail
  refine ⟨_, mem_compile.mpr ⟨packet.family, applies, tail, settled, rfl⟩, rfl, ?_⟩
  have whole := @Legible.decides sg iifName packet kernel ctPos legible applies _ _ decides
  rwa [if_pos entered] at whole

end

theorem verdict_ne_jump (sg : SecurityGroup) (chain : String) : some sg.verdict ≠ some (.jump chain) := by
  unfold verdict
  split <;> nofun

theorem Legible.chain_verdict (legible : sg.Legible iifName)
    (vmap : sg.needsVmap packet.family = true → HoldsPorts kernel packet.family (vmapName packet.family) sg)
    {jump rules}
    (each : ∀ rule ∈ rules, Yields kernel packet jump rule none ∨ ∃ made ∈ sg.compile iifName vmapName ctPos fun _ => true, made.table = packet.family ∧ made.exprs = rule.exprs)
    (all : ∀ made ∈ sg.compile iifName vmapName ctPos fun _ => true, made.table = packet.family → ∃ rule ∈ rules, made.exprs = rule.exprs)
    (registers : File) :
    (evalRules kernel packet jump rules registers).2 = if sg.hit iifName packet then some sg.verdict else none := by
  have yields : ∀ rule ∈ rules, Yields kernel packet jump rule none ∨
      sg.hit iifName packet = true ∧ Yields kernel packet jump rule (some sg.verdict) := by
    intro rule member
    rcases each rule member with passes | ⟨made, compiled, own, same⟩
    · exact .inl passes
    · rcases legible.compiled_decides vmap compiled own with passes | ⟨hit, decides⟩
      · exact .inl ((same ▸ passes).yields nofun)
      · exact .inr ⟨hit, (same ▸ decides).yields sg.verdict_ne_jump⟩
  cases hit : sg.hit iifName packet with
  | false =>
    refine evalRules_none (fun rule member => (yields rule member).resolve_right ?_) registers
    rintro ⟨impossible, -⟩
    simp [hit] at impossible
  | true =>
    refine evalRules_some (fun rule member => (yields rule member).imp_right And.right) ?_ registers
    obtain ⟨made, compiled, own, decides⟩ := @Legible.compiled_hits sg iifName packet kernel vmapName ctPos legible vmap hit
    obtain ⟨rule, member, same⟩ := all made compiled own
    exact ⟨rule, member, (same ▸ decides).yields sg.verdict_ne_jump⟩

/-- What the rules of a group rely on to match the packets they are meant for. -/
structure Readable (sg : SecurityGroup) (iifName : String) : Prop where
  one : sg.OneFamily
  scope : ∀ group ∈ sg.ports, group.InScope
  interface : InterfaceName iifName
  outgoing : 0 ∉ textBytes sg.oifname

theorem Readable.legible (readable : sg.Readable iifName) : sg.Legible iifName :=
  ⟨readable.one, readable.interface, readable.outgoing⟩

theorem portsReached_iff (ports : sg.ports ≠ []) : sg.portsReached iifName packet = true ↔
    ∃ kind, ¬ (sg.aliases iifName = true ∧ sg.ports.head?.any (·.icmp == kind) = true) ∧ sg.kindAdmits packet kind = true := by
  simp only [portsReached, isEmpty_eq_false_iff.mpr ports, Bool.false_or, any_eq_true, Bool.and_eq_true, Bool.not_eq_true',
    kindAdmits_iff, Bool.eq_false_iff, ne_eq]
  constructor
  · rintro ⟨group, member, holds, left⟩
    exact ⟨group.icmp, left, group, member, rfl, holds⟩
  · rintro ⟨kind, left, group, member, rfl, holds⟩
    exact ⟨group, member, holds, left⟩

theorem portsReached_eq (scope : ∀ group ∈ sg.ports, group.InScope) :
    sg.portsReached iifName packet = sg.portsHit iifName packet := by
  by_cases ports : sg.ports = []
  · simp [portsReached, portsHit, ports]
  · rw [Bool.eq_iff_iff, portsReached_iff ports, portsHit_iff ports]
    refine exists_congr fun kind => ?_
    constructor
    · rintro ⟨left, admits⟩
      obtain ⟨group, member, same, -⟩ := kindAdmits_iff.mp admits
      have present : sg.ports.any (·.icmp == kind) = true := any_eq_true.mpr ⟨group, member, by simpa using same⟩
      exact ⟨⟨present, left⟩, kindAdmits_eq scope present ▸ admits⟩
    · rintro ⟨⟨present, left⟩, keyed⟩
      exact ⟨left, (kindAdmits_eq scope present).trans keyed⟩

end SecurityGroup

/-! The group on a fresh router. -/

variable {deps : Deps} {denyAll : Bool} {start world : World} {setting : Setting} {packet : Packet}

theorem Kernel.element_iff_mem {kernel : Kernel} {table name} {entries}
    (known : (kernel.sets table name).map AList.entries = some entries) (key : Bytes) (data : Option Verdict) :
    kernel.element table name key data ↔ ⟨key, data⟩ ∈ entries := by
  obtain ⟨elements, present, rfl⟩ := Option.map_eq_some_iff.mp known
  rw [← AList.mem_lookup_iff, Option.mem_def]
  simp [element, present]

theorem Kernel.elements_of_isSome {kernel : Kernel} {table name} (there : (kernel.sets table name).isSome = true) :
    ∃ elements, kernel.sets table name = some elements ∧
      ∀ key data, elements.lookup key = some data ↔ kernel.element table name key data := by
  obtain ⟨elements, known⟩ := Option.isSome_iff_exists.mp there
  exact ⟨elements, known, fun key data => by simp [element, known]⟩

/-- The verdict of the router's first rule in every hooked chain. -/
def ctVerdict (state : Bytes) : Option Verdict := (ctstateElements.find? (·.key = state)).bind (·.verdictData)

theorem ctVerdict_eq_none_iff {state} : ctVerdict state = none ↔ ∀ element ∈ ctstateElements, state ≠ element.key := by
  have known : ∀ element ∈ ctstateElements, element.verdictData ≠ none := by decide
  constructor
  · intro missing element member same
    cases found : ctstateElements.find? (·.key = state) with
    | none => exact absurd same.symm (by simpa using find?_eq_none.mp found element member)
    | some other =>
      rw [ctVerdict, found] at missing
      exact known other (mem_of_find?_eq_some found) missing
  · intro others
    have missing : ctstateElements.find? (·.key = state) = none := by
      rw [find?_eq_none]
      intro element member same
      exact others element member (of_decide_eq_true same).symm
    rw [ctVerdict, missing]
    rfl

section
variable {settings : List Setting} (installed : Installed deps start settings world) (fresh : Fresh deps denyAll start)
include installed fresh

theorem Installed.ctstate_decides : Decides world.kernel packet ctstateExpr (ctVerdict packet.ctState) := by
  obtain ⟨kernel, committed, -, rfl, -⟩ := fresh.at
  obtain ⟨entries, -⟩ := fresh_sets committed packet.family
  have there : (start.kernel.sets packet.family "ctstate").isSome = true := by
    obtain ⟨elements, known, -⟩ := Option.map_eq_some_iff.mp entries
    simp [known]
  obtain ⟨elements, known, holds⟩ := elements_of_isSome (installed.sets _ _ there)
  have listed : ∀ key data, elements.lookup key = some data ↔ ⟨key, data⟩ ∈ ctstateElements := by
    intro key data
    rw [holds, installed.elements, element_iff_mem entries]
    constructor
    · rintro (old | ⟨other, -, entry | port⟩)
      · simp only [mem_cons, not_mem_nil, or_false, Sigma.mk.injEq, heq_eq_eq] at old
        rcases old with ⟨rfl, rfl⟩ | ⟨rfl, rfl⟩ | ⟨rfl, rfl⟩ <;> decide
      · exact absurd entry.2.1 (by decide)
      · have head := other.vmapName_head deps packet.family
        rw [← port.2.1] at head
        exact absurd head (by decide)
    · intro member
      simp only [ctstateElements, mem_cons, not_mem_nil, or_false, SetElement.mk.injEq] at member
      rcases member with ⟨rfl, rfl⟩ | ⟨rfl, rfl⟩ | ⟨rfl, rfl⟩ <;> exact .inl (by decide)
  have sized : elements.Sized packet.ctState.length := by
    intro key data found
    have lengths : ∀ element ∈ ctstateElements, element.key.length = 4 := by decide
    rw [packet.ctStateLength]
    exact lengths _ ((listed key data).mp found)
  have decides : Decides world.kernel packet ctstateExpr (elements.lookup packet.ctState).join :=
    decides_loaded (fun _ => rfl) known sized
  have looked : (elements.lookup packet.ctState).join = ctVerdict packet.ctState := by
    cases found : ctstateElements.find? (·.key = packet.ctState) with
    | none =>
      have missing : elements.lookup packet.ctState = none := by
        cases there : elements.lookup packet.ctState with
        | none => rfl
        | some data => simpa using find?_eq_none.mp found _ ((listed _ _).mp there)
      rw [missing, ctVerdict, found]
      rfl
    | some element =>
      have same : element.key = packet.ctState := by simpa using find?_some found
      have there := (listed element.key element.verdictData).mpr (mem_of_find?_eq_some found)
      rw [ctVerdict, found, ← same, there]
      rfl
  rwa [looked] at decides

section

variable (sane : ∀ setting ∈ settings, setting.Sane)
include sane

theorem Installed.ifname_looks : ∃ elements : Elements,
    Decides world.kernel packet inboundIFNameExpr (elements.lookup (paddedName packet.iifName)).join ∧
      ∀ key data, elements.lookup key = some data ↔ key = paddedName "lo" ∧ data = some .accept ∨
        ∃ setting ∈ settings, setting.needsInbound = true ∧ key = paddedName setting.iifName ∧ data = some setting.entry := by
  obtain ⟨kernel, committed, -, rfl, -⟩ := fresh.at
  obtain ⟨-, entries⟩ := fresh_sets committed packet.family
  have there : (start.kernel.sets packet.family "inbound_ifname").isSome = true := by
    obtain ⟨elements, known, -⟩ := Option.map_eq_some_iff.mp entries
    simp [known]
  obtain ⟨elements, known, holds⟩ := elements_of_isSome (installed.sets _ _ there)
  have listed : ∀ key data, elements.lookup key = some data ↔ key = paddedName "lo" ∧ data = some .accept ∨
      ∃ setting ∈ settings, setting.needsInbound = true ∧ key = paddedName setting.iifName ∧ data = some setting.entry := by
    intro key data
    rw [holds, installed.elements, element_iff_mem entries, paddedName_lo]
    simp only [mem_singleton, Sigma.mk.injEq, heq_eq_eq]
    refine or_congr_right (exists_congr fun setting => and_congr_right fun _ => ⟨?_, fun entry => .inl ⟨entry.1, rfl, entry.2⟩⟩)
    rintro (entry | port)
    · exact ⟨entry.1, entry.2.2⟩
    · exact absurd port.2.1.symm (setting.vmapName_ne_ifname deps packet.family)
  have length : ∀ {name : String}, InterfaceName name → (paddedName name).length = 16 := by
    intro name interface
    have := interface.short
    simp only [paddedName, length_append, length_replicate]
    omega
  have sized : elements.Sized (paddedName packet.iifName).length := by
    intro key data found
    rw [length packet.incoming]
    rcases (listed key data).mp found with ⟨rfl, -⟩ | ⟨setting, member, -, rfl, -⟩
    · exact length interfaceName_lo
    · exact length (sane setting member).interface
  exact ⟨elements, decides_loaded (fun _ => rfl) known sized, listed⟩

theorem Installed.loopback_decides (arrives : packet.iifName = "lo") :
    Decides world.kernel packet inboundIFNameExpr (some .accept) := by
  obtain ⟨elements, decides, listed⟩ := @ifname_looks deps denyAll start world packet settings installed fresh sane
  rw [arrives] at decides
  rwa [(listed _ _).mpr (.inl ⟨rfl, rfl⟩)] at decides

theorem Installed.ifname_none (arrives : packet.iifName ≠ "lo")
    (others : ∀ setting ∈ settings, setting.needsInbound = true → packet.iifName ≠ setting.iifName) :
    Decides world.kernel packet inboundIFNameExpr none := by
  obtain ⟨elements, decides, listed⟩ := @ifname_looks deps denyAll start world packet settings installed fresh sane
  have missing : elements.lookup (paddedName packet.iifName) = none := by
    cases found : elements.lookup (paddedName packet.iifName) with
    | none => rfl
    | some data =>
      rcases (listed _ _).mp found with ⟨same, -⟩ | ⟨setting, member, needs, same, -⟩
      · exact absurd (paddedName_injective packet.incoming interfaceName_lo same) arrives
      · exact absurd (paddedName_injective packet.incoming (sane setting member).interface same) (others setting member needs)
  rwa [missing] at decides

end

theorem Installed.chain_rules {chain rule} (member : rule ∈ world.kernel.chainRules packet.family chain) :
    rule.exprs = ctstateExpr ∧ (chain = "input" ∨ chain = "forward") ∨ rule.exprs = inboundIFNameExpr ∧ chain = "input" ∨
      ∃ setting ∈ settings, ∃ made ∈ setting.rules deps start.router.forwardChainCtPos, made.table = packet.family ∧
        made.chain = chain ∧ made.exprs = rule.exprs := by
  obtain ⟨kernel, committed, -, rfl, -⟩ := fresh.at
  obtain ⟨listed, place⟩ := mem_filter.mp member
  simp only [inChain, Bool.and_eq_true, beq_iff_eq] at place
  rcases (installed.contents rule.content).mp (mem_map_of_mem listed) with base | ⟨setting, given, made⟩
  · rw [fresh_contents committed] at base
    simp only [baseContents, families, flatMap_cons, flatMap_nil, append_nil, cons_append, nil_append,
      mem_cons, not_mem_nil, or_false, content, Prod.mk.injEq, place.2] at base
    rcases base with ⟨-, rfl, exprs⟩ | ⟨-, rfl, exprs⟩ | ⟨-, rfl, exprs⟩ | ⟨-, rfl, exprs⟩ | ⟨-, rfl, exprs⟩ | ⟨-, rfl, exprs⟩
    · exact .inl ⟨exprs, .inl rfl⟩
    · exact .inr (.inl ⟨exprs, rfl⟩)
    · exact .inl ⟨exprs, .inr rfl⟩
    · exact .inl ⟨exprs, .inl rfl⟩
    · exact .inr (.inl ⟨exprs, rfl⟩)
    · exact .inl ⟨exprs, .inr rfl⟩
  · obtain ⟨made, compiled, same⟩ := mem_map.mp made
    simp only [content, Prod.mk.injEq] at same
    exact .inr (.inr ⟨setting, given, made, compiled, same.1.trans place.1, same.2.1.trans place.2, same.2.2⟩)

end

namespace Installed

variable (installed : Installed deps start [setting] world) (fresh : Fresh deps denyAll start)
include installed fresh

theorem ctstate_none (state : ∀ element ∈ ctstateElements, packet.ctState ≠ element.key) :
    Decides world.kernel packet ctstateExpr none :=
  ctVerdict_eq_none_iff.mpr state ▸ installed.ctstate_decides fresh

theorem ifname_decides (sane : setting.Sane) (arrives : packet.iifName ≠ "lo") :
    Decides world.kernel packet inboundIFNameExpr
      (if setting.needsInbound && packet.iifName == setting.iifName then some setting.entry else none) := by
  have all : ∀ other ∈ [setting], other.Sane := by simpa using sane
  cases own : setting.needsInbound && packet.iifName == setting.iifName with
  | true =>
    obtain ⟨elements, decides, listed⟩ := @ifname_looks deps denyAll start world packet [setting] installed fresh all
    simp only [Bool.and_eq_true, beq_iff_eq] at own
    rwa [(listed _ _).mpr (.inr ⟨setting, by simp, own.1, by rw [own.2], rfl⟩)] at decides
  | false =>
    refine installed.ifname_none fresh all arrives ?_
    intro other member needs same
    rw [mem_singleton.mp member] at needs same
    simp [needs, same] at own

theorem holdsPorts {table : Family} (needs : setting.group.needsVmap table = true) :
    HoldsPorts world.kernel table (setting.vmapName deps table) setting.group := by
  obtain ⟨kernel, committed, -, rfl, -⟩ := fresh.at
  obtain ⟨elements, known, holds⟩ := elements_of_isSome (installed.made setting (by simp) table _ ⟨needs, rfl⟩)
  refine ⟨elements, known, fun key data => ?_⟩
  rw [holds, installed.elements]
  simp only [mem_singleton, exists_eq_left]
  constructor
  · rintro (⟨old, there, -⟩ | entry | port)
    · rw [fresh_sets_none committed table (setting.vmapName_not_base deps table)] at there
      cases there
    · exact absurd entry.2.1 (setting.vmapName_ne_ifname deps table)
    · exact port.2.2
  · exact fun port => .inr (.inr ⟨needs, rfl, port⟩)

omit fresh in
theorem chain_holds {made} (compiled : made ∈ setting.rules deps start.router.forwardChainCtPos)
    (own : made.table = packet.family) :
    ∃ rule ∈ world.kernel.chainRules packet.family made.chain, made.exprs = rule.exprs := by
  have present := (installed.contents _).mpr (.inr ⟨setting, by simp, mem_map_of_mem compiled⟩)
  obtain ⟨rule, listed, same⟩ := mem_map.mp present
  simp only [content, Prod.mk.injEq] at same
  refine ⟨rule, mem_filter.mpr ⟨listed, ?_⟩, same.2.2.symm⟩
  simp [inChain, same.1, own, same.2.1]

theorem ifname_rule (table : Family) : ∃ rule ∈ world.kernel.chainRules table "input", rule.exprs = inboundIFNameExpr := by
  obtain ⟨kernel, committed, -, rfl, -⟩ := fresh.at
  have base : (table, "input", inboundIFNameExpr) ∈ start.kernel.rules.map content := by
    rw [fresh_contents committed]
    cases table <;> decide
  obtain ⟨rule, member, same⟩ := mem_map.mp base
  simp only [content, Prod.mk.injEq] at same
  refine ⟨rule, mem_filter.mpr ⟨installed.base rule member, ?_⟩, same.2.2⟩
  simp [inChain, same.1, same.2.1]

theorem target_verdict (legible : setting.group.Legible setting.iifName)
    (state : ∀ element ∈ ctstateElements, packet.ctState ≠ element.key) {jump}
    (others : (setting.group.target setting.iifName start.router.forwardChainCtPos).chain = "input" → ∀ rule : Rule, rule.exprs = inboundIFNameExpr → Yields world.kernel packet jump rule none)
    (registers : File) : (evalRules world.kernel packet jump (world.kernel.chainRules packet.family
      (setting.group.target setting.iifName start.router.forwardChainCtPos).chain) registers).2 =
        if setting.group.hit setting.iifName packet then some setting.group.verdict else none := by
  have chains : ∀ made ∈ setting.rules deps start.router.forwardChainCtPos,
      made.chain = (setting.group.target setting.iifName start.router.forwardChainCtPos).chain := by
    intro made compiled
    obtain ⟨-, -, -, -, rfl⟩ := mem_compile.mp compiled
    rfl
  refine @SecurityGroup.Legible.chain_verdict _ _ _ _ _ start.router.forwardChainCtPos legible
    (fun needs => installed.holdsPorts fresh needs) _ _ (fun rule member => ?_) (fun made compiled own => ?_) registers
  · rcases installed.chain_rules fresh member with ⟨own, -⟩ | ⟨own, input⟩ | ⟨other, given, made, compiled, own, -, same⟩
    · exact .inl ((own ▸ installed.ctstate_none fresh state).yields nofun)
    · exact .inl (others input rule own)
    · exact .inr ⟨made, mem_singleton.mp given ▸ compiled, own, same⟩
  · exact chains made compiled ▸ installed.chain_holds compiled own

end Installed

theorem inboundChain_ne (iifName : String) : inboundChain iifName ≠ "input" ∧ inboundChain iifName ≠ "forward" := by
  have start : (inboundChain iifName).toList.take 3 = ['i', 'n', 'b'] := by
    rw [inboundChain, String.toList_append]
    rfl
  constructor <;> intro same <;> rw [same] at start <;> exact absurd start (by decide)

theorem SecurityGroup.hook_target {sg : SecurityGroup} {iifName} (direct : sg.needsInbound iifName = false)
    (ctPos : Family → Nat) (packet : Packet) : (sg.target iifName ctPos).chain = sg.hook ∧
      sg.entered iifName packet = (iifName == "" || packet.iifName == iifName) := by
  unfold needsInbound at direct
  unfold target hook entered
  cases dest : sg.dstNetwork.isValid <;> by_cases named : iifName = "" <;> simp_all

theorem SecurityGroup.inbound_target {sg : SecurityGroup} {iifName} (inbound : sg.needsInbound iifName = true)
    (ctPos : Family → Nat) (packet : Packet) :
    (sg.target iifName ctPos).chain = inboundChain iifName ∧ sg.hook = "input" ∧
      sg.entered iifName packet = true ∧ iifName ≠ "" := by
  unfold needsInbound at inbound
  unfold target hook entered inboundChain
  cases dest : sg.dstNetwork.isValid <;> by_cases named : iifName = "" <;> simp_all

section

variable (installed : Installed deps start [setting] world) (fresh : Fresh deps denyAll start) (sane : setting.Sane)
include installed fresh sane

theorem Installed.hook_hit (legible : setting.group.Legible setting.iifName) (arrives : packet.iifName ≠ "lo")
    (state : ∀ element ∈ ctstateElements, packet.ctState ≠ element.key) (registers : File) :
    (evalChain world.kernel packet 16 setting.group.hook registers).2 =
      if setting.group.matchesNetworks setting.iifName packet && setting.group.portsHit setting.iifName packet then
        some setting.group.verdict
      else none := by
  have ifname := @ifname_decides deps denyAll start world setting packet installed fresh sane arrives
  have whole := @target_verdict deps denyAll start world setting packet installed fresh legible state
  rw [matchesNetworks_eq]
  show (evalRules _ _ _ (world.kernel.chainRules packet.family setting.group.hook) registers).2 = _
  cases inbound : setting.needsInbound with
  | false =>
    obtain ⟨chain, entered⟩ := hook_target inbound start.router.forwardChainCtPos packet
    rw [← chain, ← entered]
    refine whole (fun _ rule own => ?_) registers
    rw [inbound] at ifname
    exact (own ▸ ifname).yields nofun
  | true =>
    obtain ⟨chain, hook, entered, named⟩ := inbound_target inbound start.router.forwardChainCtPos packet
    rw [chain] at whole
    simp only [hit, entered, Bool.true_and] at whole
    have inner := fun registers => @whole (evalChain world.kernel packet 14)
      (fun same => absurd same (inboundChain_ne setting.iifName).1) registers
    rw [hook, beq_false_of_ne named, Bool.false_or]
    rw [inbound, Bool.true_and] at ifname
    -- every rule for the interface's name comes to what the chain it leads to does
    have leads : ∀ rule : Rule, rule.exprs = inboundIFNameExpr → Yields world.kernel packet (evalChain world.kernel packet 15) rule
        (if packet.iifName == setting.iifName && setting.group.passes packet && setting.group.portsHit setting.iifName packet
          then some setting.group.verdict else none) := by
      intro rule own
      rw [← own] at ifname
      cases same : packet.iifName == setting.iifName with
      | true =>
        rw [same] at ifname
        exact ifname.yields_jump inner
      | false =>
        rw [same] at ifname
        exact ifname.yields nofun
    have each : ∀ rule ∈ world.kernel.chainRules packet.family "input",
        Yields world.kernel packet (evalChain world.kernel packet 15) rule none ∨ rule.exprs = inboundIFNameExpr := by
      intro rule member
      rcases installed.chain_rules fresh member with ⟨own, -⟩ | ⟨own, -⟩ | ⟨other, given, made, compiled, -, place, -⟩
      · exact .inl ((own ▸ installed.ctstate_none fresh state).yields nofun)
      · exact .inr own
      · rw [mem_singleton.mp given] at compiled
        obtain ⟨table, -, tail, -, rfl⟩ := mem_compile.mp compiled
        exact absurd (chain.symm.trans place) (inboundChain_ne setting.iifName).1
    obtain ⟨rule, member, own⟩ := installed.ifname_rule fresh packet.family
    cases decided : packet.iifName == setting.iifName && setting.group.passes packet &&
        setting.group.portsHit setting.iifName packet with
    | false =>
      rw [decided] at leads
      exact evalRules_none (fun rule member => (each rule member).elim id (leads rule)) registers
    | true =>
      rw [decided] at leads
      exact evalRules_some (fun rule member => (each rule member).imp_right (leads rule)) ⟨rule, member, leads rule own⟩ registers

theorem Installed.hook_verdict (readable : setting.group.Readable setting.iifName) (arrives : packet.iifName ≠ "lo")
    (state : ∀ element ∈ ctstateElements, packet.ctState ≠ element.key) (registers : File) :
    (evalChain world.kernel packet 16 setting.group.hook registers).2 =
      if setting.group.matchesNetworks setting.iifName packet && setting.group.portsReached setting.iifName packet then
        some setting.group.verdict
      else none := by
  rw [portsReached_eq readable.scope]
  exact installed.hook_hit fresh sane readable.legible arrives state registers

end

namespace SecurityGroup

variable {sg : SecurityGroup} {iifName : String}

/-- The rule for the packet was overwritten by the group's other rule. -/
def overwrites (sg : SecurityGroup) (iifName : String) (packet : Packet) : Bool :=
  sg.aliases iifName && sg.matchesNetworks iifName packet &&
    sg.ports.any fun group => group.admits packet && sg.ports.head?.any (·.icmp == group.icmp)

theorem covers_of_reached (passes : sg.matchesNetworks iifName packet = true ∧ sg.portsReached iifName packet = true) :
    sg.covers iifName packet = true := by
  obtain ⟨passes, reached⟩ := passes
  rw [covers, passes, Bool.true_and]
  simp only [portsReached, Bool.or_eq_true, any_eq_true, Bool.and_eq_true] at reached ⊢
  rcases reached with none | ⟨group, member, admits, -⟩
  · exact .inl none
  · exact .inr ⟨group, member, admits⟩

theorem overwrites_iff (scope : ∀ group ∈ sg.ports, group.InScope) : sg.overwrites iifName packet = true ↔
    sg.covers iifName packet = true ∧
      (sg.matchesNetworks iifName packet && sg.portsReached iifName packet) = false := by
  simp only [overwrites, covers, portsReached, Bool.and_eq_true, any_eq_true, Bool.or_eq_true, Bool.and_eq_false_iff,
    Bool.or_eq_false_iff, any_eq_false, Bool.not_eq_true', not_and]
  constructor
  · rintro ⟨⟨aliases, passes⟩, group, member, admits, first⟩
    refine ⟨⟨passes, .inr ⟨group, member, admits⟩⟩, .inr ⟨isEmpty_eq_false_iff.mpr (ne_nil_of_mem member), ?_⟩⟩
    intro other listed holds
    rw [(scope other listed).admits_kind holds, ← (scope group member).admits_kind admits]
    simp [aliases, first]
  · rintro ⟨⟨passes, some⟩, missed⟩
    obtain ⟨ports, missed⟩ := missed.resolve_left (by simp [passes])
    obtain ⟨group, member, admits⟩ := some.resolve_left (by simp [ports])
    obtain ⟨aliases, first⟩ : sg.aliases iifName = true ∧ sg.ports.head?.any (·.icmp == group.icmp) = true := by
      simpa using missed group member admits
    exact ⟨⟨aliases, passes⟩, group, member, admits, first⟩

end SecurityGroup

def fwPolicy (denyAll : Bool) : Policy := if denyAll then .drop else .accept

/-- One group on a fresh router decides about a packet as it is meant to, unless the rule
for the packet was overwritten and the group's verdict is not that of the chain anyway. -/
theorem group_decides_iff (fresh : Fresh deps denyAll start) {sg : SecurityGroup} {iifName : String} (one : sg.OneFamily)
    (scope : ∀ group ∈ sg.ports, group.InScope) (interface : InterfaceName iifName) (loopback : iifName ≠ "lo")
    (outgoing : 0 ∉ textBytes sg.oifname) (arrives : packet.iifName ≠ "lo")
    (state : ∀ element ∈ ctstateElements, packet.ctState ≠ element.key) (registers : File) :
    ∃ after, start.run deps { op := .setSecurityGroups [sg] iifName } = .ok () after ∧
      (after.kernel.filter packet sg.hook registers = some (sg.decides denyAll iifName packet) ↔
        ¬ (sg.overwrites iifName packet = true ∧ sg.verdict ≠ (fwPolicy denyAll).verdict)) := by
  have sane : (Setting.mk sg iifName).Sane := ⟨one.same, interface, loopback, fun group member => (scope group member).ends⟩
  obtain ⟨after, ran, installed, -⟩ := @set deps start (start.begin fun _ _ => false) [] ⟨sg, iifName⟩ denyAll
    (fresh.installed.begin _) fresh sane (by simp) rfl rfl
  refine ⟨after, ?_, ?_⟩
  · show (forM [sg] (setSecurityGroup deps iifName)).run (start.begin fun _ _ => false) = _
    rw [forM_cons, EStateM.run_bind, ran]
    rfl
  · obtain ⟨kernel, committed, -, rfl, -⟩ := fresh.at
    have hooked : sg.hook = "input" ∨ sg.hook = "forward" := by
      unfold hook
      split
      · exact .inr rfl
      · exact .inl rfl
    have policy := installed.chains _ _ _ (fresh_chains committed packet.family hooked)
    have verdict := @hook_verdict deps denyAll start after ⟨sg, iifName⟩ packet installed fresh sane
      ⟨one, scope, interface, outgoing⟩ arrives state registers
    have missed := @overwrites_iff packet sg iifName scope
    have other : (if denyAll then Policy.drop else .accept).verdict = if denyAll then Verdict.drop else .accept := by
      cases denyAll <;> rfl
    simp only [Kernel.filter, policy, verdict, SecurityGroup.decides, missed, fwPolicy, Option.some.injEq, other]
    cases covers : sg.covers iifName packet with
    | false =>
      have reached : (sg.matchesNetworks iifName packet && sg.portsReached iifName packet) = false := by
        by_contra reached
        rw [covers_of_reached (by simpa using reached)] at covers
        cases covers
      simp [reached]
    | true =>
      cases reached : sg.matchesNetworks iifName packet && sg.portsReached iifName packet with
      | true => simp
      | false => simp [eq_comm]

def webPacket : Packet where
  iifName := "eth0"
  oifName := "eth1"
  incoming := ⟨by decide, by decide⟩
  outgoing := ⟨by decide, by decide⟩
  addresses := .ipv4 0x0a000001 0x0b000001
  protocol := 6
  ctState := [8, 0, 0, 0]
  network := [0x45, 0, 0, 40, 0, 0, 0, 0, 64, 6, 0, 0, 10, 0, 0, 1, 11, 0, 0, 1]
  transport := [0xc0, 0, 0, 80, 0, 0, 0, 0]
  ctStateLength := rfl
  sourceField := by decide
  destinationField := by decide
  protocolField := by decide

def webDeps : Deps := ⟨.counting, fun bytes => bytes.take 8⟩

def webGroup : SecurityGroup :=
  { srcNetwork := .of (.v4 0x0a000000) 8, dstNetwork := .of (.v4 0x0b000000) 8, oifname := "eth1"
    ports := [⟨.TCP, 80, 80⟩, ⟨.ICMP, 0, 0⟩] }

theorem group_decides_named : ∃ after,
    (fresh webDeps true).run webDeps { op := .setSecurityGroups [webGroup] "eth0" } = .ok () after ∧
      after.kernel.filter webPacket webGroup.hook (fun _ => 0) = some .accept := by
  obtain ⟨after, ran, decides⟩ := @group_decides_iff webDeps true (fresh webDeps true) webPacket
    (fresh_of_returned (by decide +kernel)) webGroup "eth0" (by decide) (by decide) ⟨by decide, by decide⟩ (by decide)
    (by decide) (by decide) (by decide) (fun _ => 0)
  exact ⟨after, ran, decides.mpr (by decide)⟩

/-- Without an interface name the ping rule overwrites the rule for web traffic. -/
theorem web_rule_overwritten :
    Fresh webDeps true (fresh webDeps true) ∧
      returned ((fresh webDeps true).run webDeps { op := .setSecurityGroups [webGroup] "" }) = true ∧
      ((fresh webDeps true).next webDeps { op := .setSecurityGroups [webGroup] "" }).kernel.filter webPacket webGroup.hook
        (fun _ => 0) = some .drop ∧
      webGroup.decides true "" webPacket = .accept :=
  ⟨fresh_of_returned (by decide +kernel), by decide +kernel, by decide +kernel, by decide +kernel⟩

end MycsCommon.Network
