import MycsCommon.Proofs.GroupVerdicts

/-! A group without networks is installed in both tables. What a packet gets there depends
on its interfaces, the state of its connection and its ports, which do not tell the
families apart, and on the protocol number of ICMP, which does. -/

namespace MycsCommon.Network
open Library Program List Kernel Option Packet Registers SecurityGroup World

/-- The group has neither network, so its rules go to both tables. -/
structure SecurityGroup.Bare (sg : SecurityGroup) : Prop where
  source : sg.srcNetwork.isValid = false
  dest : sg.dstNetwork.isValid = false

namespace SecurityGroup

variable {sg : SecurityGroup} {iifName : String}

section

variable (bare : sg.Bare)
include bare

theorem Bare.one : sg.OneFamily := by simp [OneFamily, bare.source, bare.dest]

theorem Bare.same : sg.mixesFamilies = false := bare.one.same

theorem Bare.apart (iifName : String) : sg.aliases iifName = false := by simp [aliases, shares, bare.source]

theorem Bare.needsInbound (named : iifName ≠ "") : sg.needsInbound iifName = true := by
  simp [SecurityGroup.needsInbound, named, bare.dest]

theorem Bare.hook : sg.hook = "input" := by simp [SecurityGroup.hook, bare.dest]

theorem Bare.target_insert (iifName : String) (ctPos : Family → Nat) : (sg.target iifName ctPos).insert = false := by
  unfold target
  split <;> simp [bare.dest]

theorem Bare.target_chain (iifName : String) (ctPos : Family → Nat) :
    (sg.target iifName ctPos).chain ≠ "forward" := by
  by_cases named : iifName = ""
  · simp [target, named, bare.dest]
  · simpa [target, named, bare.dest, inboundChain] using (inboundChain_ne iifName).2

theorem Bare.matchesNetworks_eq (packet : Packet) : sg.matchesNetworks iifName packet =
    ((iifName == "" || packet.iifName == iifName) && (sg.oifname == "" || packet.oifName == sg.oifname)) := by
  simp [matchesNetworks, bare.source, bare.dest]

end

end SecurityGroup

/-! The rules of `NewFilterRouter` come first. -/

section
variable {deps : Deps} {denyAll : Bool} {start world : World} {settings : List Setting} {packet : Packet}

/-- What the router's own rules in the input chain say, whatever groups there are. -/
def Packet.own (packet : Packet) : Option Verdict :=
  (ctVerdict packet.ctState).or (if packet.iifName = "lo" then some .accept else none)

theorem Packet.own_eq_none_iff (packet : Packet) : packet.own = none ↔
    (∀ element ∈ ctstateElements, packet.ctState ≠ element.key) ∧ packet.iifName ≠ "lo" := by
  rw [own, or_eq_none_iff, ctVerdict_eq_none_iff]
  simp

/-- The rules of the router itself are still the first. -/
def Later (start world : World) : Prop := ∃ placed, world.kernel.rules = start.kernel.rules ++ placed

theorem ctVerdict_ne_jump (state : Bytes) (chain : String) : ctVerdict state ≠ some (.jump chain) := by
  have plain : ∀ element ∈ ctstateElements, ∃ verdict, element.verdictData = some verdict ∧ ∀ chain, verdict ≠ .jump chain := by
    simp [ctstateElements]
  intro jumps
  obtain ⟨element, found, data⟩ := bind_eq_some_iff.mp jumps
  obtain ⟨verdict, known, direct⟩ := plain element (mem_of_find?_eq_some found)
  exact direct chain (some.inj (known.symm.trans data))

theorem fresh_input {nft kernel} (committed : empty.commit nft (freshMsgs denyAll) = .ok kernel) (table : Family) :
    (kernel.chainRules table "input").map Rule.exprs = [ctstateExpr, inboundIFNameExpr] := by
  have same : empty.commit nft (freshMsgs denyAll) = .ok _ := rfl
  rw [same] at committed
  cases committed
  cases table <;> rfl

theorem Installed.input_own (installed : Installed deps start settings world) (fresh : Fresh deps denyAll start)
    (sane : ∀ setting ∈ settings, setting.Sane) (later : Later start world) {verdict}
    (own : packet.own = some verdict) (registers : File) :
    (evalChain world.kernel packet 16 "input" registers).2 = some verdict := by
  have first : Decides world.kernel packet ctstateExpr (ctVerdict packet.ctState) := installed.ctstate_decides fresh
  obtain ⟨placed, stands⟩ := later
  obtain ⟨kernel, committed, -, rfl, -⟩ := fresh.at
  obtain ⟨state, rest, split, stateExprs, tail⟩ := map_eq_cons_iff.mp (fresh_input committed packet.family)
  obtain ⟨ifname, last, rfl, ifnameExprs, -⟩ := map_eq_cons_iff.mp tail
  have list : world.kernel.chainRules packet.family "input" =
      [state] ++ (ifname :: last ++ placed.filter (·.inChain packet.family "input")) := by
    rw [chainRules, stands, filter_append, show List.filter _ start.kernel.rules = _ from split]
    rfl
  have yields : Yields world.kernel packet (evalChain world.kernel packet 15) state (ctVerdict packet.ctState) :=
    (stateExprs ▸ first).yields (ctVerdict_ne_jump _)
  show (evalRules _ _ _ (world.kernel.chainRules packet.family "input") registers).2 = _
  rw [list]
  obtain ⟨changed, ran⟩ := @evalRules_append world.kernel packet (evalChain world.kernel packet 15) [state]
    (ifname :: last ++ placed.filter (·.inChain packet.family "input")) registers
  rw [ran, yields registers]
  cases decided : ctVerdict packet.ctState with
  | some other =>
    rw [Packet.own, decided, Option.some_or] at own
    exact own
  | none =>
    rw [Packet.own, decided, Option.none_or] at own
    split at own
    next arrives =>
      cases own
      have loopback : Yields world.kernel packet (evalChain world.kernel packet 15) ifname (some .accept) :=
        (ifnameExprs ▸ installed.loopback_decides fresh sane arrives).yields (by simp)
      obtain ⟨left, ran⟩ := @evalRules_append world.kernel packet (evalChain world.kernel packet 15) [ifname]
        (last ++ placed.filter (·.inChain packet.family "input")) changed
      rw [cons_append, ← singleton_append, ran, loopback changed]
    next => cases own

theorem Installed.forward_own (installed : Installed deps start settings world) (fresh : Fresh deps denyAll start)
    (bare : ∀ setting ∈ settings, setting.group.Bare) (registers : File) :
    (evalChain world.kernel packet 16 "forward" registers).2 = ctVerdict packet.ctState := by
  have each : ∀ rule ∈ world.kernel.chainRules packet.family "forward",
      Yields world.kernel packet (evalChain world.kernel packet 15) rule (ctVerdict packet.ctState) := by
    intro rule member
    rcases installed.chain_rules fresh member with ⟨own, -⟩ | ⟨-, input⟩ | ⟨setting, given, made, compiled, -, place, -⟩
    · exact (own ▸ installed.ctstate_decides fresh).yields (ctVerdict_ne_jump _)
    · exact absurd input (by decide)
    · obtain ⟨table, -, tail, -, rfl⟩ := mem_compile.mp compiled
      exact absurd place ((bare setting given).target_chain _ _)
  have some : ∃ rule, rule ∈ world.kernel.chainRules packet.family "forward" := by
    obtain ⟨kernel, committed, -, rfl, -⟩ := fresh.at
    obtain ⟨rule, member, place, -⟩ := fresh_ctHandle committed packet.family
    exact ⟨rule, mem_filter.mpr ⟨installed.base rule member, place⟩⟩
  show (evalRules _ _ _ (world.kernel.chainRules packet.family "forward") registers).2 = _
  cases decided : ctVerdict packet.ctState with
  | none =>
    rw [decided] at each
    exact evalRules_none each registers
  | some verdict =>
    rw [decided] at each
    obtain ⟨rule, member⟩ := some
    exact evalRules_some (fun rule member => .inr (each rule member)) ⟨rule, member, each rule member⟩ registers

theorem Installed.input_empty (installed : Installed deps start [] world) (fresh : Fresh deps denyAll start)
    (own : packet.own = none) (registers : File) :
    (evalChain world.kernel packet 16 "input" registers).2 = none := by
  obtain ⟨state, arrives⟩ := packet.own_eq_none_iff.mp own
  rw [← ctVerdict_eq_none_iff] at state
  refine evalRules_none (fun rule member => ?_) registers
  rcases installed.chain_rules fresh member with ⟨own, -⟩ | ⟨own, -⟩ | ⟨setting, given, -⟩
  · exact (own ▸ state ▸ installed.ctstate_decides fresh).yields (by simp)
  · exact (own ▸ installed.ifname_none fresh (by simp) arrives (by simp)).yields (by simp)
  · simp at given

/-! What a group without networks leaves. -/

variable {sg : SecurityGroup} {iifName : String}

theorem fresh_refuses_loopback {nft kernel after} (committed : empty.commit nft (freshMsgs denyAll) = .ok kernel)
    (rest : List Msg) : kernel.commit nft (inboundMsgs "lo" ++ rest) ≠ .ok after := by
  intro accepted
  obtain ⟨middle, setup, -⟩ := commit_append accepted
  have same : empty.commit nft (freshMsgs denyAll) = .ok _ := rfl
  rw [same] at committed
  cases committed
  cases setup

theorem Fresh.loopback_refused (fresh : Fresh deps denyAll start) (bare : sg.Bare) (ends : ∀ group ∈ sg.ports, group.Ends) :
    (start.next deps { op := .setSecurityGroups [sg] "lo" }).kernel = start.kernel := by
  have installed := fresh.installed.begin fun _ _ => false
  obtain ⟨ready, quiet, ran⟩ := @setSecurityGroup_quiet deps _ _ _ _ sg "lo" bare.same installed.tables (by decide) ends
    installed.owned ⟨rfl, rfl, installed.queue, rfl, rfl⟩
  rw [nil_append] at quiet
  have savable : Savable ready ((Setting.mk sg "lo").rules deps start.router.forwardChainCtPos) := installed.savable quiet
  rcases @saveFilterRules_calm deps.nft _ (sg.target "lo" start.router.forwardChainCtPos).insert (sg.sgKey deps.sum64 "lo") ready
    savable (by simp [Calm, quiet.calm]) with
    ⟨calls, after, accepted, -⟩ | ⟨errno, calls, failed, -, saved⟩
  · obtain ⟨kernel, committed, router, rfl, -⟩ := fresh.at
    have lacks : (start.begin fun _ _ => false).router.lacksInbound sg "lo" = true := by
      show start.router.lacksInbound sg "lo" = true
      rw [router]
      simp [Router.lacksInbound, bare.needsInbound, freshRouter, Router.unset]
    rw [batch, quiet.queue, quiet.kernel, Router.groupMsgs, if_pos lacks, append_assoc] at accepted
    exact absurd accepted (fresh_refuses_loopback committed _)
  · show (final ((forM [sg] (setSecurityGroup deps "lo")).run (start.begin fun _ _ => false))).kernel = _
    rw [forM_cons, EStateM.run_bind, show (setSecurityGroup deps "lo" sg).run _ = _ from ran.trans saved]
    exact quiet.kernel

/-- What a packet gets after a group without networks was set on a fresh router. -/
def SecurityGroup.inputVerdict (sg : SecurityGroup) (iifName : String) (packet : Packet) : Option Verdict :=
  packet.own.or (if iifName ≠ "lo" ∧ (sg.matchesNetworks iifName packet && sg.portsHit iifName packet) then some sg.verdict else none)

theorem Fresh.bare_leaves (fresh : Fresh deps denyAll start) (bare : sg.Bare) (interface : InterfaceName iifName)
    (ends : ∀ group ∈ sg.ports, group.Ends) : ∃ world, Later start world ∧
      (start.next deps { op := .setSecurityGroups [sg] iifName }).kernel = world.kernel ∧
      Installed deps start (if iifName = "lo" then [] else [⟨sg, iifName⟩]) world := by
  by_cases loopback : iifName = "lo"
  · subst loopback
    exact ⟨start, ⟨[], by simp⟩, fresh.loopback_refused bare ends, by simpa using fresh.installed⟩
  · obtain ⟨after, ran, installed, -, -, appended⟩ := @Installed.set deps start (start.begin fun _ _ => false) [] ⟨sg, iifName⟩
      denyAll (fresh.installed.begin _) fresh ⟨bare.same, interface, loopback, ends⟩ (by simp) rfl rfl
    obtain ⟨placed, stands, -⟩ := appended (bare.target_insert _ _)
    refine ⟨after, ⟨placed, stands⟩, ?_, by simpa [loopback] using installed⟩
    show (final ((forM [sg] (setSecurityGroup deps iifName)).run (start.begin fun _ _ => false))).kernel = _
    rw [forM_cons, EStateM.run_bind, ran]
    rfl

theorem Fresh.bare_verdict (fresh : Fresh deps denyAll start) (bare : sg.Bare) (interface : InterfaceName iifName)
    (outgoing : 0 ∉ textBytes sg.oifname) (ends : ∀ group ∈ sg.ports, group.Ends) (packet : Packet) {chain}
    (hooked : chain = "input" ∨ chain = "forward") (registers : File) :
    (start.next deps { op := .setSecurityGroups [sg] iifName }).kernel.filter packet chain registers =
      some ((if chain = "input" then sg.inputVerdict iifName packet else ctVerdict packet.ctState).getD (fwPolicy denyAll).verdict) := by
  obtain ⟨world, later, kernel, installed⟩ := fresh.bare_leaves bare interface ends
  have sane := installed.sane
  have policy : world.kernel.chains packet.family chain = some (some (fwPolicy denyAll)) := by
    obtain ⟨kernel, committed, -, rfl, -⟩ := fresh.at
    exact installed.chains _ _ _ (fresh_chains committed packet.family hooked)
  have verdict : (evalChain world.kernel packet 16 chain registers).2 =
      if chain = "input" then sg.inputVerdict iifName packet else ctVerdict packet.ctState := by
    rcases hooked with rfl | rfl
    · rw [if_pos rfl, inputVerdict]
      cases own : packet.own with
      | some verdict => exact installed.input_own fresh sane later own registers
      | none =>
        rw [none_or]
        by_cases loopback : iifName = "lo"
        · rw [if_pos loopback] at installed
          rw [if_neg (by simp [loopback])]
          exact installed.input_empty fresh own registers
        · rw [if_neg loopback] at installed sane
          obtain ⟨state, arrives⟩ := packet.own_eq_none_iff.mp own
          rw [← bare.hook, @Installed.hook_hit deps denyAll start world ⟨sg, iifName⟩ packet installed fresh (sane _ (by simp))
            ⟨bare.one, interface, outgoing⟩ arrives state registers]
          simp [loopback]
    · rw [if_neg (by decide)]
      refine installed.forward_own fresh (fun setting member => ?_) registers
      split at member
      · simp at member
      · rw [mem_singleton.mp member]
        exact bare
  rw [kernel]
  simp [Kernel.filter, policy, verdict]

end

/-! Two packets that differ only in the family. -/

inductive Transport where
  | tcp | udp | icmp
deriving DecidableEq

/-- The protocol number; over IPv6 it is ICMPv6 that takes the place of ICMP. -/
def Transport.number : Family → Transport → UInt8
  | _, tcp => 6
  | _, udp => 17
  | .ipv4, icmp => 1
  | .ipv6, icmp => 58

/-- An IPv4 and an IPv6 packet with the same interfaces, state, transport and port. -/
structure Alike (transport : Transport) (first second : Packet) : Prop where
  ipv4 : first.family = .ipv4
  ipv6 : second.family = .ipv6
  protocol4 : first.protocol = transport.number .ipv4
  protocol6 : second.protocol = transport.number .ipv6
  incoming : first.iifName = second.iifName
  outgoing : first.oifName = second.oifName
  state : first.ctState = second.ctState
  port : transport ≠ .icmp → first.port = second.port

theorem portKey_number {groups} {packet : Packet} {port} (member : packet.portKey port ∈ portKeys groups) :
    packet.protocol = 6 ∨ packet.protocol = 17 := by
  obtain ⟨group, -, listed⟩ := mem_flatMap.mp member
  split at listed
  · simp at listed
  next other =>
    obtain ⟨value, -, made⟩ := mem_flatMap.mp listed
    simp only [createPortVMapKeyData, mem_toList, map_eq_some_iff] at made
    obtain ⟨number, known, same⟩ := made
    obtain rfl : number = packet.protocol := (List.cons.inj same).1
    simp only [protoNumber, other, if_false] at known
    split at known
    · exact .inl (some.inj known).symm
    · split at known
      · exact .inr (some.inj known).symm
      · cases known

namespace Alike

variable {transport : Transport} {first second : Packet} {sg : SecurityGroup} {iifName : String}

section

variable (alike : Alike transport first second)
include alike

theorem own : first.own = second.own := by
  rw [Packet.own, Packet.own, alike.state, alike.incoming]

theorem matching (bare : sg.Bare) :
    sg.matchesNetworks iifName first = sg.matchesNetworks iifName second := by
  rw [bare.matchesNetworks_eq, bare.matchesNetworks_eq, alike.incoming, alike.outgoing]

theorem keyed_ports : sg.keyed first false = sg.keyed second false := by
  rw [Bool.eq_iff_iff, SecurityGroup.keyed_ports, SecurityGroup.keyed_ports]
  have four := alike.protocol4
  have six := alike.protocol6
  cases transport with
  | tcp | udp =>
    have same : ∀ port, first.portKey port = second.portKey port := by
      intro port
      rw [portKey, portKey, four, six]
      rfl
    simp [alike.port (by decide), same]
  | icmp =>
    constructor
    · rintro ⟨port, -, member⟩
      exact absurd (four ▸ portKey_number member) (by decide)
    · rintro ⟨port, -, member⟩
      exact absurd (six ▸ portKey_number member) (by decide)

theorem keyed_icmp :
    sg.keyed first true = decide (transport = .icmp) ∧ sg.keyed second true = false := by
  have four := alike.protocol4
  have six := alike.protocol6
  cases transport <;> simp [keyed, four, six, Transport.number]

theorem portsHit (bare : sg.Bare) :
    if transport = .icmp ∧ sg.ports.any (·.icmp) = true then
      sg.portsHit iifName first = true ∧ sg.portsHit iifName second = false
    else sg.portsHit iifName first = sg.portsHit iifName second := by
  obtain ⟨icmp4, icmp6⟩ := @keyed_icmp transport first second sg alike
  have ports := @keyed_ports transport first second sg alike
  simp only [SecurityGroup.portsHit, bare.apart, any_cons, any_nil, icmp4, icmp6, ports, Bool.false_and, Bool.not_false,
    Bool.and_true, Bool.and_false, Bool.or_false, Bool.false_or]
  split
  next both =>
    obtain ⟨rfl, some⟩ := both
    have nonempty : sg.ports.isEmpty = false := by
      cases given : sg.ports with
      | nil => simp [given] at some
      | cons => rfl
    have unkeyed : sg.keyed second false = false := by
      rw [← Bool.not_eq_true, SecurityGroup.keyed_ports]
      rintro ⟨port, -, member⟩
      exact absurd (alike.protocol6 ▸ portKey_number member) (by decide)
    simp [some, nonempty, unkeyed]
  next other =>
    have none : (sg.ports.any (·.icmp == true) && decide (transport = .icmp)) = false := by
      simp only [beq_true, ← Bool.not_eq_true, Bool.and_eq_true, decide_eq_true_eq]
      exact fun both => other both.symm
    rw [none, Bool.false_or]

end

end Alike

/-- The group lets ICMP through its rule, where it reaches the packet and makes a difference. -/
structure SecurityGroup.TellsPings (sg : SecurityGroup) (denyAll : Bool) (iifName : String) (packet : Packet) : Prop where
  icmp : sg.ports.any (·.icmp) = true
  loopback : iifName ≠ "lo"
  reaches : sg.matchesNetworks iifName packet = true
  arrives : packet.iifName ≠ "lo"
  state : ∀ element ∈ ctstateElements, packet.ctState ≠ element.key
  differs : sg.verdict ≠ (fwPolicy denyAll).verdict

theorem SecurityGroup.tellsPings_iff {sg : SecurityGroup} {denyAll iifName packet} :
    sg.TellsPings denyAll iifName packet ↔ sg.ports.any (·.icmp) = true ∧ packet.own = none ∧
      (iifName ≠ "lo" ∧ sg.matchesNetworks iifName packet = true) ∧ sg.verdict ≠ (fwPolicy denyAll).verdict := by
  rw [packet.own_eq_none_iff]
  constructor
  · rintro ⟨icmp, loopback, reaches, arrives, state, differs⟩
    exact ⟨icmp, ⟨state, arrives⟩, ⟨loopback, reaches⟩, differs⟩
  · rintro ⟨icmp, ⟨state, arrives⟩, ⟨loopback, reaches⟩, differs⟩
    exact ⟨icmp, loopback, reaches, arrives, state, differs⟩

theorem Alike.inputVerdict_iff {transport} {first second} {sg : SecurityGroup} {iifName policy}
    (alike : Alike transport first second) (bare : sg.Bare) :
    (sg.inputVerdict iifName first).getD policy = (sg.inputVerdict iifName second).getD policy ↔
      ¬ (transport = .icmp ∧ sg.ports.any (·.icmp) = true ∧ first.own = none ∧
        (iifName ≠ "lo" ∧ sg.matchesNetworks iifName first = true) ∧ sg.verdict ≠ policy) := by
  have hits := @Alike.portsHit transport first second sg iifName alike bare
  rw [inputVerdict, inputVerdict, ← alike.own, ← alike.matching bare]
  split at hits
  next both =>
    rw [hits.1, hits.2]
    -- the rule of the group takes the first packet and leaves the second to the policy
    cases first.own with
    | some verdict => simp
    | none =>
      by_cases reaches : iifName ≠ "lo" ∧ sg.matchesNetworks iifName first = true
      · simp [both.1, both.2, reaches]
      · simp [reaches]
  next other =>
    rw [hits]
    exact iff_of_true rfl fun tells => other ⟨tells.1, tells.2.1⟩

/-- A group without networks does the same with both families, but for the pings it is
meant for: its ICMP rule asks for the protocol number of IPv4 in both tables. -/
theorem family_parity_iff {deps : Deps} {denyAll : Bool} {start : World} (fresh : Fresh deps denyAll start) {sg : SecurityGroup}
    (bare : sg.Bare) {iifName : String} (interface : InterfaceName iifName) (outgoing : 0 ∉ textBytes sg.oifname)
    (ends : ∀ group ∈ sg.ports, group.Ends) {transport : Transport} {first second : Packet} (alike : Alike transport first second)
    {chain : String} (hooked : chain = "input" ∨ chain = "forward") (registers : File) :
    let after := (start.next deps { op := .setSecurityGroups [sg] iifName }).kernel
    after.filter first chain registers = after.filter second chain registers ↔
      ¬ (transport = .icmp ∧ chain = "input" ∧ sg.TellsPings denyAll iifName first) := by
  intro after
  have verdict := fun packet => fresh.bare_verdict bare interface outgoing ends packet hooked registers
  rw [verdict first, verdict second, some.injEq]
  rcases hooked with rfl | rfl
  · simp only [if_true, true_and, tellsPings_iff]
    exact alike.inputVerdict_iff bare
  · simp [alike.state]

def openGroup : SecurityGroup := { ports := [⟨.TCP, 80, 80⟩, ⟨.ICMP, 0, 0⟩] }

def webPacket6 : Packet where
  iifName := "eth0"
  oifName := "eth1"
  incoming := webPacket.incoming
  outgoing := webPacket.outgoing
  addresses := .ipv6 0xfd000000000000000000000000000001 0xfd000000000000000000000000000002
  protocol := 6
  ctState := [8, 0, 0, 0]
  network := [0x60, 0, 0, 0, 0, 20, 6, 64] ++ ([0xfd] ++ List.replicate 14 0 ++ [1]) ++ ([0xfd] ++ List.replicate 14 0 ++ [2])
  transport := [0xc0, 0, 0, 80, 0, 0, 0, 0]
  ctStateLength := webPacket.ctStateLength
  sourceField := by decide
  destinationField := by decide
  protocolField := by decide

theorem web_parity : Fresh webDeps true (fresh webDeps true) ∧ Alike .tcp webPacket webPacket6 ∧
    let after := ((fresh webDeps true).next webDeps { op := .setSecurityGroups [openGroup] "eth0" }).kernel
    after.filter webPacket "input" (fun _ => 0) = after.filter webPacket6 "input" (fun _ => 0) := by
  have fresh : Fresh webDeps true (fresh webDeps true) := fresh_of_returned (by decide +kernel)
  have alike : Alike .tcp webPacket webPacket6 := ⟨rfl, rfl, rfl, rfl, rfl, rfl, rfl, fun _ => by decide⟩
  have scope : ∀ group ∈ openGroup.ports, group.InScope := by decide
  exact ⟨fresh, alike, (family_parity_iff fresh ⟨by decide, by decide⟩ ⟨by decide, by decide⟩ (by decide)
    (fun group member => (scope group member).ends) alike (.inl rfl) fun _ => 0).mpr (by simp)⟩

def pingPacket : Packet :=
  { webPacket with
    protocol := 1
    network := [0x45, 0, 0, 28, 0, 0, 0, 0, 64, 1, 0, 0, 10, 0, 0, 1, 11, 0, 0, 1]
    transport := [8, 0, 0, 0, 0, 0, 0, 1]
    sourceField := by decide
    destinationField := by decide
    protocolField := by decide }

def pingPacket6 : Packet :=
  { webPacket6 with
    protocol := 58
    network := [0x60, 0, 0, 0, 0, 8, 58, 64] ++ ([0xfd] ++ List.replicate 14 0 ++ [1]) ++ ([0xfd] ++ List.replicate 14 0 ++ [2])
    transport := [128, 0, 0, 0, 0, 0, 0, 1]
    sourceField := by decide
    destinationField := by decide
    protocolField := by decide }

/-- A ping is let in over IPv4 and dropped over IPv6. -/
theorem ping_tells_families : Fresh webDeps true (fresh webDeps true) ∧ openGroup.Bare ∧ Alike .icmp pingPacket pingPacket6 ∧
    returned ((fresh webDeps true).run webDeps { op := .setSecurityGroups [openGroup] "eth0" }) = true ∧
    let after := ((fresh webDeps true).next webDeps { op := .setSecurityGroups [openGroup] "eth0" }).kernel
    after.filter pingPacket "input" (fun _ => 0) = some .accept ∧ after.filter pingPacket6 "input" (fun _ => 0) = some .drop :=
  ⟨fresh_of_returned (by decide +kernel), ⟨by decide, by decide⟩, ⟨rfl, rfl, rfl, rfl, rfl, rfl, rfl, fun other => absurd rfl other⟩,
    by decide +kernel, by decide +kernel, by decide +kernel⟩

end MycsCommon.Network
