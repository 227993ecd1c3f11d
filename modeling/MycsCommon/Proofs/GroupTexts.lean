import MycsCommon.Proofs.NetipText
import MycsCommon.Network.SecurityGroup

/-! What a security group's signature can be read back to: the interface and the
networks in the order they are given, and the port groups without the ranges of the
ICMP ones. An interface name can swallow the port groups that follow it. -/

namespace MycsCommon.Network
open Library Text List Char Prefix

/-- A protocol name without the separators of the signature. -/
def Protocol.Plain (proto : Protocol) : Prop := ∀ char ∈ proto.name.toList, char ∉ ['-', '.', '/', '_']

instance (proto : Protocol) : Decidable proto.Plain := List.decidableBAll (· ∉ ['-', '.', '/', '_']) proto.name.toList

namespace SecurityGroup

def networks (sg : SecurityGroup) : List Prefix :=
  (if sg.srcNetwork.isValid then [sg.srcNetwork] else []) ++ if sg.dstNetwork.isValid then [sg.dstNetwork] else []

def ifaceText (iifName : String) : List Char := if iifName ≠ "" then '_' :: iifName.toList else []

def networksText (networks : List Prefix) : List Char := networks.flatMap fun network => '_' :: network.text.toList

def portsText (ports : List PortGroup) : List Char := ports.flatMap fun group => (portGroupText group).toList

theorem vmapSignature_toList (sg : SecurityGroup) (iifName : String) :
    (sg.vmapSignature iifName).toList = ifaceText iifName ++ networksText sg.networks := by
  have network : ∀ network : Prefix, (networkText network).toList =
      networksText (if network.isValid then [network] else []) := by
    intro network
    unfold networkText
    split <;> simp [networksText]
  have iface : (if iifName ≠ "" then "_" ++ iifName else "").toList = ifaceText iifName := by
    unfold ifaceText
    split <;> simp
  rw [vmapSignature, String.toList_append, String.toList_append, iface, network, network, networks, append_assoc]
  simp [networksText]

theorem signature_toList (sg : SecurityGroup) (iifName : String) :
    (sg.signature iifName).toList = ifaceText iifName ++ networksText sg.networks ++ portsText sg.ports := by
  have folded : ∀ (ports : List PortGroup) (text : String),
      (ports.foldl (fun text group => text ++ portGroupText group) text).toList = text.toList ++ portsText ports := by
    intro ports
    induction ports with
    | nil => simp [portsText]
    | cons group ports ih =>
      intro text
      rw [foldl_cons, ih, String.toList_append, append_assoc]
      rfl
  rw [signature, folded, vmapSignature_toList]

theorem networks_valid {sg : SecurityGroup} {network} (listed : network ∈ sg.networks) : network.isValid = true := by
  rcases mem_append.mp listed with source | destination
  · split at source
    next valid => rwa [mem_singleton.mp source]
    next => simp at source
  · split at destination
    next valid => rwa [mem_singleton.mp destination]
    next => simp at destination

/-! Networks. -/

theorem mem_prefixText {network : Prefix} (valid : network.isValid = true) {char}
    (member : char ∈ network.text.toList) : char ≠ '_' ∧ char ≠ '-' := by
  have digits : ∀ digit < 16, digit.digitChar ≠ '_' ∧ digit.digitChar ≠ '-' := by decide
  rw [text_toList valid] at member
  rcases mem_append.mp member with addr | rest
  · rcases Addr.mem_text network.zoneless (addr_isValid valid) addr with rfl | rfl | ⟨digit, low, rfl⟩
    · decide
    · decide
    · exact digits digit low
  · rcases mem_cons.mp rest with rfl | bits
    · decide
    · rw [Nat.toList_repr] at bits
      obtain ⟨digit, low, rfl⟩ := mem_toDigits (by decide) bits
      exact digits digit (by omega)

theorem count_prefixText {network : Prefix} (valid : network.isValid = true) : network.text.toList.count '/' = 1 := by
  have bits : '/' ∉ (network.bitsPlusOne - 1).repr.toList := fun member => absurd (repr_isDigit member) (by decide)
  rw [text_toList valid, count_append, count_cons_self,
    count_eq_zero_of_not_mem (slash_notMem_addr valid), count_eq_zero_of_not_mem bits]

theorem count_networksText {networks} (valid : ∀ network ∈ networks, network.isValid = true) :
    (networksText networks).count '/' = networks.length := by
  induction networks with
  | nil => rfl
  | cons network networks ih =>
    have rest := ih fun other member => valid other (by simp [member])
    rw [networksText, flatMap_cons, count_append, count_cons_of_ne (by decide),
      count_prefixText (valid network (by simp)), length_cons, ← rest, networksText]
    omega

theorem networksText_append (networks : List Prefix) (network : Prefix) :
    networksText (networks ++ [network]) = networksText networks ++ '_' :: network.text.toList := by
  simp [networksText]

theorem networks_split {front other networks others} (valid : ∀ network ∈ networks, network.isValid = true)
    (otherValid : ∀ network ∈ others, network.isValid = true) (sizes : networks.length = others.length)
    (same : front ++ networksText networks = other ++ networksText others) : front = other ∧ networks = others := by
  induction networks using List.reverseRecOn generalizing others with
  | nil =>
    cases others with
    | nil => exact ⟨by simpa [networksText] using same, rfl⟩
    | cons network others => simp at sizes
  | append_singleton networks network ih =>
    cases others using List.reverseRecOn with
    | nil => simp at sizes
    | append_singleton others last =>
      rw [networksText_append, networksText_append, ← append_assoc, ← append_assoc] at same
      have lastValid := otherValid last (by simp)
      have networkValid := valid network (by simp)
      obtain ⟨fronts, texts⟩ := split_last same (fun member => (mem_prefixText networkValid member).1 rfl)
        fun member => (mem_prefixText lastValid member).1 rfl
      obtain ⟨rfl, rfl⟩ := ih (fun given member => valid given (by simp [member]))
        (fun given member => otherValid given (by simp [member])) (by simpa using sizes) fronts
      rw [text_injective networkValid lastValid texts]
      exact ⟨rfl, rfl⟩

/-! Port groups. -/

def portLabel (group : PortGroup) : Protocol × Option (Int × Int) :=
  (group.proto, if group.proto = .ICMP then none else some (group.fromPort, group.toPort))

/-- The range of a port group after its protocol. -/
def rangeText (group : PortGroup) : List Char :=
  if group.proto = .ICMP then [] else '.' :: (group.fromPort.repr.toList ++ '-' :: group.toPort.repr.toList)

theorem portGroupText_toList (group : PortGroup) :
    (portGroupText group).toList = '-' :: (group.proto.name.toList ++ rangeText group) := by
  unfold portGroupText rangeText
  rw [String.toList_append, String.toList_append]
  by_cases icmp : group.proto = .ICMP
  · simp [icmp]
  · simp [icmp]

theorem portsText_cons (group : PortGroup) (ports : List PortGroup) :
    portsText (group :: ports) = '-' :: (group.proto.name.toList ++ (rangeText group ++ portsText ports)) := by
  rw [portsText, flatMap_cons, portGroupText_toList]
  simp [portsText]

theorem portsText_append (ports others : List PortGroup) : portsText (ports ++ others) = portsText ports ++ portsText others := by
  simp [portsText]

theorem portsText_starts (ports : List PortGroup) : Starts (· = '-') (portsText ports) := by
  cases ports with
  | nil => simp [portsText]
  | cons group ports => simp [portsText_cons]

theorem portsText_congr {ports others} (same : ports.map portLabel = others.map portLabel) :
    portsText ports = portsText others := by
  have written : ∀ group other : PortGroup, portLabel group = portLabel other → portGroupText group = portGroupText other := by
    intro group other equal
    simp only [portLabel, Prod.mk.injEq] at equal
    obtain ⟨protos, ranges⟩ := equal
    simp only [portGroupText, protos] at ranges ⊢
    split
    next icmp =>
      simp only [if_neg icmp, Option.some.injEq, Prod.mk.injEq] at ranges
      rw [ranges.1, ranges.2]
    next => rfl
  induction ports generalizing others with
  | nil => rw [map_eq_nil_iff.mp same.symm]
  | cons group ports ih =>
    cases others with
    | nil => simp at same
    | cons other others =>
      simp only [map_cons, List.cons.injEq] at same
      rw [portsText, flatMap_cons, written group other same.1, portsText, flatMap_cons]
      exact congrArg _ (ih same.2)

private theorem name_free {proto : Protocol} (plain : proto.Plain) :
    ∀ char ∈ proto.name.toList, ¬ (char = '.' ∨ char = '-') := by
  rintro char member (rfl | rfl)
  · exact plain '.' member (by decide)
  · exact plain '-' member (by decide)

private theorem not_digit {rest} (starts : Starts (· = '-') rest) : Starts (·.isDigit = false) rest := by
  intro first member
  rw [starts first member]
  decide

private theorem range_starts (group : PortGroup) (ports : List PortGroup) :
    Starts (fun char => char = '.' ∨ char = '-') (rangeText group ++ portsText ports) := by
  unfold rangeText
  split
  · intro first member
    exact .inr (portsText_starts ports first (by simpa using member))
  · simp

theorem portsText_injective {ports others} (plain : ∀ group ∈ ports, group.proto.Plain)
    (otherPlain : ∀ group ∈ others, group.proto.Plain) (same : portsText ports = portsText others) :
    ports.map portLabel = others.map portLabel := by
  induction ports generalizing others with
  | nil =>
    cases others with
    | nil => rfl
    | cons other others =>
      rw [portsText_cons] at same
      cases same
  | cons group ports ih =>
    cases others with
    | nil =>
      rw [portsText_cons] at same
      cases same
    | cons other others =>
      rw [portsText_cons, portsText_cons] at same
      obtain ⟨names, ranges⟩ := split (List.cons.inj same).2 (name_free (plain group (by simp)))
        (name_free (otherPlain other (by simp))) (range_starts group ports) (range_starts other others)
      have protos : group.proto = other.proto := by
        cases first : group.proto
        cases second : other.proto
        rw [first, second] at names
        exact congrArg Protocol.mk (String.toList_inj.mp names)
      have later : portsText ports = portsText others → ports.map portLabel = others.map portLabel :=
        ih (fun given member => plain given (by simp [member])) fun given member => otherPlain given (by simp [member])
      simp only [rangeText, protos] at ranges
      split at ranges
      next icmp => simp [portLabel, protos, icmp, later (by simpa using ranges)]
      next other =>
        simp only [cons_append, append_assoc] at ranges
        obtain ⟨starts, rest⟩ := int_repr_split (List.cons.inj ranges).2 (by simp) (by simp)
        obtain ⟨stops, rest⟩ := int_repr_split (List.cons.inj rest).2 (not_digit (portsText_starts _))
          (not_digit (portsText_starts _))
        simp [portLabel, protos, other, starts, stops, later rest]

private theorem inner_dash {group} (plain : group.proto.Plain) {front tail}
    (same : group.proto.name.toList ++ rangeText group = front ++ '-' :: tail) :
    ∀ char ∈ tail, char.isDigit = true ∨ char = '-' := by
  obtain ⟨more, -, range⟩ := skip same fun member => plain '-' member (by decide)
  unfold rangeText at range
  split at range
  · exact absurd range (by simp)
  · cases more with
    | nil => exact absurd (List.cons.inj range).1 (by decide)
    | cons dot more =>
      intro char member
      have inside : char ∈ group.fromPort.repr.toList ++ '-' :: group.toPort.repr.toList := by
        rw [(List.cons.inj range).2]
        simp [member]
      rcases mem_append.mp inside with start | rest
      · exact mem_int_repr start
      · rcases mem_cons.mp rest with dash | stop
        · exact .inr dash
        · exact mem_int_repr stop

private theorem misaligned {ports} (plain : ∀ group ∈ ports, group.proto.Plain) {tail rest}
    (digits : ∀ char ∈ tail, char.isDigit = true ∨ char = '-') (starts : Starts (· = '-') rest) :
    portsText ports ≠ '-' :: (tail ++ rest) := by
  intro same
  cases ports with
  | nil => cases same
  | cons group ports =>
    rw [portsText_cons] at same
    have numeral : tail ++ rest = tail.takeWhile isDigit ++ (tail.dropWhile isDigit ++ rest) := by
      rw [← append_assoc, takeWhile_append_dropWhile]
    have all : ∀ char ∈ tail.takeWhile isDigit, char.isDigit = true := all_eq_true.mp all_takeWhile
    have free : ∀ char ∈ tail.takeWhile isDigit, ¬ (char = '.' ∨ char = '-') := by
      rintro char member (rfl | rfl)
      · exact absurd (all _ member) (by decide)
      · exact absurd (all _ member) (by decide)
    have dashes : Starts (· = '-') (tail.dropWhile isDigit ++ rest) := by
      cases stopped : tail.dropWhile isDigit with
      | nil => exact starts
      | cons char more =>
        have stop : char.isDigit = false := by
          have := head?_dropWhile_not isDigit tail
          simpa [stopped] using this
        have member : char ∈ tail := (dropWhile_sublist isDigit).subset (by simp [stopped])
        simpa [stop] using digits char member
    rw [numeral] at same
    obtain ⟨names, ranges⟩ := split (List.cons.inj same).2 (name_free (plain group (by simp))) free
      (range_starts group ports) fun char member => .inr (dashes char member)
    by_cases icmp : group.proto = .ICMP
    · rw [icmp] at names
      exact absurd (all 'i' (names ▸ by decide)) (by decide)
    · rw [← ranges, rangeText, if_neg icmp, cons_append, starts_cons] at dashes
      exact absurd dashes (by decide)

/-- Port groups that end another list of port groups are its last ones: no other dash
of a port group's text is followed by a protocol and a range. -/
theorem portsText_suffix {front ports others} (plain : ∀ group ∈ ports, group.proto.Plain)
    (otherPlain : ∀ group ∈ others, group.proto.Plain) (same : front ++ portsText ports = portsText others) :
    ∃ early late, others = early ++ late ∧ front = portsText early ∧ ports.map portLabel = late.map portLabel := by
  induction others generalizing front with
  | nil =>
    obtain ⟨rfl, none⟩ := append_eq_nil_iff.mp (show front ++ portsText ports = [] from same)
    exact ⟨[], [], rfl, rfl, portsText_injective plain otherPlain none⟩
  | cons other others ih =>
    have laterPlain : ∀ group ∈ others, group.proto.Plain := fun group member => otherPlain group (by simp [member])
    have whole : portsText (other :: others) = (portGroupText other).toList ++ portsText others := by simp [portsText]
    cases front with
    | nil => exact ⟨[], other :: others, rfl, rfl, portsText_injective plain otherPlain same⟩
    | cons first front =>
      rw [whole] at same
      rcases append_eq_append_iff.mp same with ⟨cut, texts, rest⟩ | ⟨more, fronts, rest⟩
      · cases cut with
        | nil =>
          refine ⟨[other], others, rfl, by simpa [portsText] using texts.symm, portsText_injective plain laterPlain ?_⟩
          simpa using rest
        | cons dash tail =>
          rw [portGroupText_toList] at texts
          have dashed := portsText_starts ports dash (by simp [rest])
          simp only at dashed
          subst dashed
          exact absurd rest (misaligned plain (inner_dash (otherPlain other (by simp)) (List.cons.inj texts).2)
            (portsText_starts others))
      · obtain ⟨early, late, rfl, rfl, labels⟩ := ih laterPlain rest.symm
        exact ⟨other :: early, late, rfl, by simp [fronts, portsText], labels⟩

end SecurityGroup

end MycsCommon.Network
