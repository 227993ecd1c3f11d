import MycsCommon.Proofs.GroupTexts
import MycsCommon.Proofs.BuiltRules

/-! When the names of two security groups tell them apart. -/

namespace MycsCommon.Network
open Library Text List SecurityGroup

variable {sum64 : Bytes → Bytes}

theorem hashString_inj (injective : Function.Injective sum64) {text other label} :
    hashString sum64 text label = hashString sum64 other label ↔ text = other := by
  constructor
  · intro same
    exact textBytes_injective (injective (Hex.encode_injective ((String.append_right_inj _).mp same)))
  · rintro rfl
    rfl

namespace SecurityGroup

/-- The interface name ends in the texts of port groups of the other group, and the
port groups are the ones that are left. -/
def Absorbs (iifName : String) (ports : List PortGroup) (otherName : String) (others : List PortGroup) : Prop :=
  otherName ≠ "" ∧ ∃ early late, others = early ++ late ∧ early ≠ [] ∧
    iifName.toList = otherName.toList ++ portsText early ∧ ports.map portLabel = late.map portLabel

variable {sg other : SecurityGroup} {iifName otherName : String}

private theorem ifaceText_count (free : '/' ∉ iifName.toList) : (ifaceText iifName).count '/' = 0 := by
  unfold ifaceText
  split
  · rw [count_cons_of_ne (by decide), count_eq_zero_of_not_mem free]
  · rfl

private theorem portsText_free {ports} (plain : ∀ group ∈ ports, group.proto.Plain) {char}
    (separator : char = '/' ∨ char = '_') : char ∉ portsText ports := by
  intro member
  obtain ⟨group, listed, text⟩ := mem_flatMap.mp member
  rw [portGroupText_toList, mem_cons, mem_append] at text
  rcases text with dash | name | range
  · rcases separator with rfl | rfl
    · exact absurd dash (by decide)
    · exact absurd dash (by decide)
  · rcases separator with rfl | rfl
    · exact plain group listed '/' name (by decide)
    · exact plain group listed '_' name (by decide)
  · unfold rangeText at range
    split at range
    · simp at range
    · have chars : char = '.' ∨ char.isDigit = true ∨ char = '-' := by
        rcases mem_cons.mp range with dot | rest
        · exact .inl dot
        · rcases mem_append.mp rest with start | stop
          · exact .inr (mem_int_repr start)
          · rcases mem_cons.mp stop with dash | digits
            · exact .inr (.inr dash)
            · exact .inr (mem_int_repr digits)
      rcases separator with rfl | rfl
      · exact absurd chars (by decide)
      · exact absurd chars (by decide)

theorem ifaceText_injective (same : ifaceText iifName = ifaceText otherName) : iifName = otherName := by
  unfold ifaceText at same
  split at same
  · split at same
    · exact String.toList_inj.mp (List.cons.inj same).2
    · cases same
  next none =>
    split at same
    · cases same
    next otherNone => rw [not_not.mp none, not_not.mp otherNone]

theorem vmapSignature_eq_iff (free : '/' ∉ iifName.toList) (otherFree : '/' ∉ otherName.toList) :
    sg.vmapSignature iifName = other.vmapSignature otherName ↔ iifName = otherName ∧ sg.networks = other.networks := by
  rw [← String.toList_inj, vmapSignature_toList, vmapSignature_toList]
  constructor
  · intro same
    have counts := congrArg (List.count '/') same
    rw [count_append, count_append, ifaceText_count free, ifaceText_count otherFree,
      count_networksText fun _ => networks_valid, count_networksText fun _ => networks_valid, Nat.zero_add, Nat.zero_add] at counts
    obtain ⟨ifaces, networks⟩ := networks_split (fun _ => networks_valid) (fun _ => networks_valid) counts same
    exact ⟨ifaceText_injective ifaces, networks⟩
  · rintro ⟨rfl, same⟩
    rw [same]

private theorem iface_ports {ports others} (plain : ∀ group ∈ ports, group.proto.Plain)
    (otherPlain : ∀ group ∈ others, group.proto.Plain)
    (same : ifaceText iifName ++ portsText ports = ifaceText otherName ++ portsText others) :
    iifName = otherName ∧ ports.map portLabel = others.map portLabel ∨
      Absorbs iifName ports otherName others ∨ Absorbs otherName others iifName ports := by
  have dashed : ∀ (ports : List PortGroup) (rest : List Char), portsText ports ≠ '_' :: rest := by
    intro ports rest same
    have starts := portsText_starts ports
    rw [same, starts_cons] at starts
    exact absurd starts (by decide)
  unfold ifaceText at same
  split at same
  next some =>
    split at same
    next otherSome =>
      rcases append_eq_append_iff.mp (List.cons.inj same).2 with ⟨more, names, rest⟩ | ⟨more, names, rest⟩
      · obtain ⟨early, late, rfl, rfl, labels⟩ := portsText_suffix otherPlain plain rest.symm
        cases early with
        | nil => exact .inl ⟨(String.toList_inj.mp (by simpa [portsText] using names)).symm, labels.symm⟩
        | cons group early => exact .inr (.inr ⟨some, group :: early, late, rfl, by simp, names, labels⟩)
      · obtain ⟨early, late, rfl, rfl, labels⟩ := portsText_suffix plain otherPlain rest.symm
        cases early with
        | nil => exact .inl ⟨String.toList_inj.mp (by simpa [portsText] using names), labels⟩
        | cons group early => exact .inr (.inl ⟨otherSome, group :: early, late, rfl, by simp, names, labels⟩)
    next => exact absurd same.symm (dashed others _)
  next none =>
    split at same
    next => exact absurd same (dashed ports _)
    next otherNone =>
      exact .inl ⟨by rw [not_not.mp none, not_not.mp otherNone], portsText_injective plain otherPlain same⟩

private theorem network_ports {network last : Prefix} (valid : network.isValid = true)
    (lastValid : last.isValid = true) {ports others}
    (same : network.text.toList ++ portsText ports = last.text.toList ++ portsText others) :
    network = last ∧ portsText ports = portsText others := by
  obtain ⟨texts, rest⟩ := @split _ (· = '-') _ _ _ _ same (fun _ member => (mem_prefixText valid member).2)
    (fun _ member => (mem_prefixText lastValid member).2) (portsText_starts ports) (portsText_starts others)
  exact ⟨Prefix.text_injective valid lastValid texts, rest⟩

private theorem signature_cases (free : '/' ∉ iifName.toList) (otherFree : '/' ∉ otherName.toList)
    (plain : ∀ group ∈ sg.ports, group.proto.Plain) (otherPlain : ∀ group ∈ other.ports, group.proto.Plain)
    (same : (sg.signature iifName).toList = (other.signature otherName).toList) :
    iifName = otherName ∧ sg.networks = other.networks ∧ sg.ports.map portLabel = other.ports.map portLabel ∨
      sg.networks = [] ∧ other.networks = [] ∧
        (Absorbs iifName sg.ports otherName other.ports ∨ Absorbs otherName other.ports iifName sg.ports) := by
  rw [signature_toList, signature_toList] at same
  have counts := congrArg (List.count '/') same
  simp only [count_append, ifaceText_count free, ifaceText_count otherFree,
    count_networksText fun _ => networks_valid, count_eq_zero_of_not_mem (portsText_free plain (.inl rfl)),
    count_eq_zero_of_not_mem (portsText_free otherPlain (.inl rfl)), Nat.zero_add, Nat.add_zero] at counts
  have valid := @networks_valid sg
  have otherValid := @networks_valid other
  cases networks : sg.networks using List.reverseRecOn with
  | nil =>
    rw [networks] at same counts
    have otherNetworks := length_eq_zero_iff.mp counts.symm
    rw [otherNetworks] at same
    rcases iface_ports plain otherPlain (by simpa [networksText] using same) with ⟨names, labels⟩ | absorbs
    · exact .inl ⟨names, otherNetworks.symm, labels⟩
    · exact .inr ⟨rfl, otherNetworks, absorbs⟩
  | append_singleton front network =>
    rw [networks] at same counts valid
    cases otherNetworks : other.networks using List.reverseRecOn with
    | nil => simp [otherNetworks] at counts
    | append_singleton otherFront last =>
      rw [otherNetworks] at same counts otherValid
      have networkValid := valid (mem_append_right front (mem_singleton.mpr rfl))
      have lastValid := otherValid (mem_append_right otherFront (mem_singleton.mpr rfl))
      have underscore : ∀ {network : Prefix} {ports : List PortGroup}, network.isValid = true →
          (∀ group ∈ ports, group.proto.Plain) → '_' ∉ network.text.toList ++ portsText ports := by
        intro network ports valid plain member
        rcases mem_append.mp member with text | rest
        · exact (mem_prefixText valid text).1 rfl
        · exact portsText_free plain (.inr rfl) rest
      simp only [networksText_append, append_assoc, cons_append] at same
      rw [← append_assoc, ← append_assoc] at same
      obtain ⟨fronts, rests⟩ := split_last same (underscore networkValid plain) (underscore lastValid otherPlain)
      obtain ⟨rfl, texts⟩ := network_ports networkValid lastValid rests
      obtain ⟨ifaces, rfl⟩ := networks_split (fun _ member => valid (mem_append_left _ member))
        (fun _ member => otherValid (mem_append_left _ member)) (by simpa using counts) fronts
      exact .inl ⟨ifaceText_injective ifaces, rfl, portsText_injective plain otherPlain texts⟩

private theorem absorbs_text {ports others} (absorbs : Absorbs iifName ports otherName others) :
    iifName ≠ otherName ∧ ifaceText iifName ++ portsText ports = ifaceText otherName ++ portsText others := by
  obtain ⟨some, early, late, rfl, named, names, labels⟩ := absorbs
  have text : portsText early ≠ [] := by
    obtain ⟨-, -, rfl⟩ := exists_cons_of_ne_nil named
    simp [portsText_cons]
  have different : iifName ≠ otherName := by
    rintro rfl
    exact text (by simpa using names)
  have given : iifName ≠ "" := by
    rintro rfl
    rw [String.toList_empty, eq_comm, append_eq_nil_iff] at names
    exact text names.2
  refine ⟨different, ?_⟩
  rw [ifaceText, ifaceText, if_pos given, if_pos some, names, portsText_append, portsText_congr labels]
  simp

theorem signature_eq_iff (free : '/' ∉ iifName.toList) (otherFree : '/' ∉ otherName.toList)
    (plain : ∀ group ∈ sg.ports, group.proto.Plain) (otherPlain : ∀ group ∈ other.ports, group.proto.Plain) :
    sg.signature iifName = other.signature otherName ↔
      iifName = otherName ∧ sg.networks = other.networks ∧ sg.ports.map portLabel = other.ports.map portLabel ∨
      sg.networks = [] ∧ other.networks = [] ∧
        (Absorbs iifName sg.ports otherName other.ports ∨ Absorbs otherName other.ports iifName sg.ports) := by
  rw [← String.toList_inj]
  constructor
  · exact signature_cases free otherFree plain otherPlain
  · rw [signature_toList, signature_toList]
    rintro (⟨rfl, networks, labels⟩ | ⟨none, otherNone, absorbs | absorbs⟩)
    · rw [networks, portsText_congr labels]
    · simpa [none, otherNone, networksText] using (absorbs_text absorbs).2
    · simpa [none, otherNone, networksText] using (absorbs_text absorbs).2.symm

/-! The rules behind the names. -/

/-- What a packet is matched against, and in which chain. -/
structure Conditions where
  interface : String
  source : Option Prefix
  destination : Option Prefix
  outgoing : String
  chain : String

def given (network : Prefix) : Option Prefix := if network.isValid then some network else none

def conditions (sg : SecurityGroup) (iifName : String) : Conditions :=
  ⟨iifName, given sg.srcNetwork, given sg.dstNetwork, sg.oifname, (sg.target iifName fun _ => 0).chain⟩

/-- A rule of the group in the table looks its port vmap up. -/
def LooksUp (sum64 : Bytes → Bytes) (sg : SecurityGroup) (iifName : String) (table : Family) : Prop :=
  sg.mixesFamilies = false ∧
    ∃ rule ∈ sg.compile iifName (sg.pgVmapName sum64 iifName) (fun _ => 0) (fun _ => true),
      rule.uses table (sg.pgVmapName sum64 iifName table) = true

/-- The group binds its vmap in the table, and its ICMP rule does not overwrite the rule that does. -/
def bindsVmap (sg : SecurityGroup) (iifName : String) (table : Family) : Bool :=
  !sg.mixesFamilies && sg.appliesTo table && sg.ports.any (·.proto ≠ .ICMP) &&
    !(sg.shares iifName && sg.ports.any (·.proto = .ICMP) && sg.ports.head?.any (·.proto ≠ .ICMP))

private theorem compiled_uses {iifName name table} {tail} (member : tail ∈ sg.tails table name true) :
    ((sg.target iifName fun _ => 0).pre ++ sg.matchList table ++ tail).any (·.setName? == some name) = true ↔
      tail = sg.tail table name false := by
  have matched : ((sg.target iifName fun _ => 0).pre ++ sg.matchList table).any (·.setName? == some name) = false := by
    rw [any_eq_false]
    intro expr member
    simp [sg.matches_setName iifName (fun _ => 0) table expr member]
  rw [any_append, matched, Bool.false_or]
  unfold tails at member
  split at member
  · rw [mem_singleton.mp member]
    simp [Expr.setName?, SecurityGroup.tail, portExprs]
  · obtain ⟨icmp, -, rfl⟩ := mem_map.mp member
    cases icmp <;> simp [tail, icmpExprs, portExprs, Expr.setName?]

private theorem tail_mem_settle (iifName : String) (table : Family) (name : String) :
    sg.tail table name false ∈ settle (sg.shares iifName) (sg.tails table name true) ↔
      (sg.ports.any (·.proto ≠ .ICMP) &&
        !(sg.shares iifName && sg.ports.any (·.proto = .ICMP) && sg.ports.head?.any (·.proto ≠ .ICMP))) = true := by
  by_cases none : sg.ports = []
  · simp [sg.tails_of_empty none, settle_singleton, none, tail, portExprs]
  · have all : sg.tails table name true = (kinds sg.ports false false).map (sg.tail table name) := by
      simp [tails, none]
    have vmap : (fun group : PortGroup => group.icmp == false) = fun group => decide (group.proto ≠ .ICMP) := by
      funext group
      simp [PortGroup.icmp]
    have icmp : (fun group : PortGroup => group.icmp != false) = fun group => decide (group.proto = .ICMP) := by
      funext group
      simp [PortGroup.icmp]
    rw [all, mem_settle_kinds _ _ (sg.tail_injective table name) false, vmap, icmp, Bool.and_eq_true, Bool.not_eq_true',
      Bool.eq_false_iff, ne_eq, Bool.and_eq_true, Bool.and_eq_true, and_assoc]

theorem looksUp_iff (iifName : String) (table : Family) :
    sg.LooksUp sum64 iifName table ↔ sg.bindsVmap iifName table = true := by
  simp only [bindsVmap, Bool.and_eq_true, Bool.not_eq_true', and_assoc]
  refine and_congr_right fun _ => ?_
  rw [← Bool.not_eq_true', ← Bool.and_eq_true, ← tail_mem_settle iifName table (sg.pgVmapName sum64 iifName table)]
  constructor
  · rintro ⟨rule, compiled, uses⟩
    obtain ⟨place, applies, tail, settled, rfl⟩ := mem_compile.mp compiled
    simp only [Rule.uses, Bool.and_eq_true, beq_iff_eq] at uses
    obtain ⟨rfl, uses⟩ := uses
    rw [compiled_uses (mem_settle settled)] at uses
    exact ⟨applies, uses ▸ settled⟩
  · rintro ⟨applies, settled⟩
    refine ⟨_, mem_compile.mpr ⟨table, applies, _, settled, rfl⟩, ?_⟩
    simp only [Rule.uses, beq_self_eq_true, Bool.true_and]
    exact (compiled_uses (mem_settle settled)).mpr rfl

/-- The names of two groups keep apart what the groups match and decide. -/
structure NamesApart (sum64 : Bytes → Bytes) (sg : SecurityGroup) (iifName : String) (other : SecurityGroup)
    (otherName : String) : Prop where
  vmaps : ∀ table, sg.pgVmapName sum64 iifName table = other.pgVmapName sum64 otherName table →
    sg.LooksUp sum64 iifName table → other.LooksUp sum64 otherName table →
      sg.conditions iifName = other.conditions otherName
  keys : sg.sgKey sum64 iifName = other.sgKey sum64 otherName →
    sg.conditions iifName = other.conditions otherName ∧ sg.deny = other.deny ∧ sg.ports = other.ports

/-- What the names leave out is the same, and no interface name ends like port groups. -/
structure ToldApart (sg : SecurityGroup) (iifName : String) (other : SecurityGroup) (otherName : String) : Prop where
  vmaps : iifName = otherName → sg.networks = other.networks →
    (∃ table, sg.bindsVmap iifName table = true ∧ other.bindsVmap otherName table = true) →
      given sg.srcNetwork = given other.srcNetwork ∧ sg.oifname = other.oifname
  keys : iifName = otherName → sg.networks = other.networks → sg.ports.map portLabel = other.ports.map portLabel →
    given sg.srcNetwork = given other.srcNetwork ∧ sg.oifname = other.oifname ∧ sg.deny = other.deny ∧ sg.ports = other.ports
  names : sg.networks = [] → other.networks = [] →
    ¬ Absorbs iifName sg.ports otherName other.ports ∧ ¬ Absorbs otherName other.ports iifName sg.ports

theorem pgVmapName_inj (injective : Function.Injective sum64) {table} :
    sg.pgVmapName sum64 iifName table = other.pgVmapName sum64 otherName table ↔
      sg.vmapSignature iifName = other.vmapSignature otherName := by
  cases table <;> simp [pgVmapName, hashString_inj injective]

private theorem networks_eq (sg : SecurityGroup) :
    sg.networks = (given sg.srcNetwork).toList ++ (given sg.dstNetwork).toList := by
  unfold networks given
  split <;> split <;> rfl

private theorem given_isSome (network : Prefix) : (given network).isSome = network.isValid := by
  unfold given
  split <;> simp_all

theorem conditions_eq_iff (networks : sg.networks = other.networks) :
    sg.conditions iifName = other.conditions iifName ↔
      given sg.srcNetwork = given other.srcNetwork ∧ sg.oifname = other.oifname := by
  constructor
  · intro same
    simp only [conditions, Conditions.mk.injEq] at same
    exact ⟨same.2.1, same.2.2.2.1⟩
  · rintro ⟨source, outgoing⟩
    rw [networks_eq, networks_eq, source] at networks
    have destination : given sg.dstNetwork = given other.dstNetwork := by
      have lists := append_cancel_left networks
      cases first : given sg.dstNetwork <;> cases second : given other.dstNetwork <;> simp_all
    have valid : sg.dstNetwork.isValid = other.dstNetwork.isValid := by
      rw [← given_isSome, ← given_isSome, destination]
    have chain : (sg.target iifName fun _ => 0).chain = (other.target iifName fun _ => 0).chain := by
      simp [target, valid]
    simp [conditions, source, destination, outgoing, chain]

/-- The names of two groups tell them apart unless the groups differ only in what the
names leave out, or an interface name ends like the port groups of the other group. -/
theorem names_apart_iff (injective : Function.Injective sum64) (free : '/' ∉ iifName.toList)
    (otherFree : '/' ∉ otherName.toList) (plain : ∀ group ∈ sg.ports, group.proto.Plain)
    (otherPlain : ∀ group ∈ other.ports, group.proto.Plain) :
    NamesApart sum64 sg iifName other otherName ↔ ToldApart sg iifName other otherName := by
  have vmapNames : ∀ table, sg.pgVmapName sum64 iifName table = other.pgVmapName sum64 otherName table ↔
      iifName = otherName ∧ sg.networks = other.networks :=
    fun table => (pgVmapName_inj injective).trans (vmapSignature_eq_iff free otherFree)
  have keyNames : sg.sgKey sum64 iifName = other.sgKey sum64 otherName ↔ _ :=
    (hashString_inj injective).trans (signature_eq_iff free otherFree plain otherPlain)
  constructor
  · intro apart
    refine ⟨?_, ?_, ?_⟩
    · rintro rfl networks ⟨table, binds, otherBinds⟩
      exact (conditions_eq_iff networks).mp (apart.vmaps table ((vmapNames table).mpr ⟨rfl, networks⟩)
        ((looksUp_iff _ _).mpr binds) ((looksUp_iff _ _).mpr otherBinds))
    · rintro rfl networks labels
      obtain ⟨conditions, deny, ports⟩ := apart.keys (keyNames.mpr (.inl ⟨rfl, networks, labels⟩))
      obtain ⟨source, outgoing⟩ := (conditions_eq_iff networks).mp conditions
      exact ⟨source, outgoing, deny, ports⟩
    · intro none otherNone
      have interfaces : sg.sgKey sum64 iifName = other.sgKey sum64 otherName → iifName = otherName :=
        fun same => congrArg Conditions.interface (apart.keys same).1
      constructor
      · intro absorbs
        exact (absorbs_text absorbs).1 (interfaces (keyNames.mpr (.inr ⟨none, otherNone, .inl absorbs⟩)))
      · intro absorbs
        exact (absorbs_text absorbs).1 (interfaces (keyNames.mpr (.inr ⟨none, otherNone, .inr absorbs⟩))).symm
  · intro told
    refine ⟨?_, ?_⟩
    · intro table same looks otherLooks
      obtain ⟨rfl, networks⟩ := (vmapNames table).mp same
      exact (conditions_eq_iff networks).mpr (told.vmaps rfl networks
        ⟨table, (looksUp_iff _ _).mp looks, (looksUp_iff _ _).mp otherLooks⟩)
    · intro same
      rcases keyNames.mp same with ⟨rfl, networks, labels⟩ | ⟨none, otherNone, absorbs | absorbs⟩
      · obtain ⟨source, outgoing, deny, ports⟩ := told.keys rfl networks labels
        exact ⟨(conditions_eq_iff networks).mpr ⟨source, outgoing⟩, deny, ports⟩
      · exact absurd absorbs (told.names none otherNone).1
      · exact absurd absorbs (told.names none otherNone).2

/-- Groups on two interfaces. -/
theorem names_apart_interfaces :
    let sg : SecurityGroup := { srcNetwork := .of (.v4 0x0a000000) 8, ports := [⟨.TCP, 80, 80⟩] }
    NamesApart id sg "eth0" sg "eth1" := by
  intro sg
  refine (names_apart_iff Function.injective_id (by decide) (by decide) (by decide) (by decide)).mpr ⟨?_, ?_, ?_⟩
  · intro same
    exact absurd same (by decide)
  · intro same
    exact absurd same (by decide)
  · intro none
    exact absurd none (by decide)

/-- Groups that differ in the outgoing interface and in what they decide. -/
theorem names_not_apart :
    let sg : SecurityGroup := { srcNetwork := .of (.v4 0x0a000000) 8, oifname := "eth1", ports := [⟨.TCP, 80, 80⟩] }
    let other : SecurityGroup := { sg with deny := true, oifname := "eth2" }
    sg.LooksUp id "eth0" .ipv4 ∧ other.LooksUp id "eth0" .ipv4 ∧
      sg.pgVmapName id "eth0" .ipv4 = other.pgVmapName id "eth0" .ipv4 ∧
      sg.sgKey id "eth0" = other.sgKey id "eth0" ∧ ¬ NamesApart id sg "eth0" other "eth0" := by
  intro sg other
  refine ⟨(looksUp_iff _ _).mpr (by decide), (looksUp_iff _ _).mpr (by decide), rfl, rfl, ?_⟩
  intro apart
  exact absurd (apart.keys rfl).2.1 (by decide)

end SecurityGroup

end MycsCommon.Network
