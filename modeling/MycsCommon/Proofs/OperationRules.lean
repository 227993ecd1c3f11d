import MycsCommon.Proofs.GroupRules
import MycsCommon.Proofs.RouterCalls

/-! What an invariant has to survive to survive every operation: single messages and
the router's own names, flushes, deletions, and the saving of the rules an operation
builds. -/

namespace MycsCommon.Network
open Library Program Bool EStateM Keeps Network SecurityGroup

/-- The lists of rules that are saved as they are, at the end of their chains. -/
inductive Offered : List Rule → Prop where
  | port (family : Family) (number : UInt8) (dstPort forwardPort : Int) (dstIP forwardIP : Addr) :
      Offered (forwardPortRules family number dstPort forwardPort dstIP forwardIP)
  | traffic (family : Family) (srcItfName dstItfName : String) (srcNetwork dstNetwork : Prefix) (withNat : Bool) :
      Offered (forwardTrafficRules family srcItfName dstItfName srcNetwork dstNetwork withNat)
  | denied : Offered (families.flatMap denyListRules)
  | allowed : Offered (families.flatMap allowListRules)

/-- A message that leaves the rules and the forward chain alone. -/
structure Msg.Minor (msg : Msg) : Prop where
  free : msg.ruleFree = true
  aside : msg.opens "forward" = false

theorem Msg.minor_inbound (table : Family) (ifname : String) (policy : Option Policy) :
    (Msg.addChain table ("inbound_" ++ ifname) policy).Minor := by
  refine ⟨rfl, beq_eq_false_iff_ne.mpr ?_⟩
  intro same
  have name := congrArg String.toList same
  rw [String.toList_append] at name
  exact absurd (List.cons.inj name).1 (by decide)

structure Invariant (nft : Nft) (ctPos : Family → Nat) (inv : World → Prop) : Prop where
  positions : ∀ world, inv world → world.router.forwardChainCtPos = ctPos
  counts : ∀ world calls, inv world → inv { world with calls }
  logs : ∀ world entry, inv world → inv { world with failed := world.failed ++ [entry] }
  queues : ∀ world msg, msg.Minor → inv world → inv { world with queue := world.queue ++ [msg] }
  names : ∀ world inboundChains sgPortVmaps, inv world →
    inv { world with router := { world.router with inboundChains, sgPortVmaps } }
  flushes : ∀ site, Keeps inv (flush nft site)
  deletes : ∀ key, Keeps inv (deleteFilter nft key)
  saves : ∀ key rules, Offered rules → Keeps inv (saveFilterRules nft key rules false)

def Msg.dropsSet : Msg → Bool
  | .delSet .. => true
  | _ => false

/-- What an invariant has to survive to survive the preparation of a group's rules:
a vmap of one of the given names is registered together with the message that adds it. -/
structure Undisturbed (ctPos : Family → Nat) (names : String → Prop) (inv : World → Prop) : Prop where
  positions : ∀ world, inv world → world.router.forwardChainCtPos = ctPos
  counts : ∀ world calls, inv world → inv { world with calls }
  logs : ∀ world entry, inv world → inv { world with failed := world.failed ++ [entry] }
  queues : ∀ world msg, msg.Minor → msg.dropsSet = false → inv world → inv { world with queue := world.queue ++ [msg] }
  inbounds : ∀ world inboundChains, inv world → inv { world with router := { world.router with inboundChains } }
  registers : ∀ world name table, names name → world.router.sgPortVmaps.lookup name = none → inv world →
    inv { world with
      router := { world.router with sgPortVmaps := world.router.sgPortVmaps.insert name table }
      queue := world.queue ++ [.addSet table name []] }

/-- What it has to survive beyond that to survive the other operations. -/
structure Maintained (nft : Nft) (ctPos : Family → Nat) (names : String → Prop) (inv : World → Prop) : Prop
    extends Undisturbed ctPos names inv where
  unregisters : ∀ world name table, inv world →
    inv { world with
      router := { world.router with sgPortVmaps := world.router.sgPortVmaps.erase name }
      queue := world.queue ++ [.delSet table name] }
  flushes : ∀ site, Keeps inv (flush nft site)
  deletes : ∀ key, Keeps inv (deleteFilter nft key)
  saves : ∀ key rules, Offered rules → Keeps inv (saveFilterRules nft key rules false)

theorem Invariant.maintained {nft} {ctPos inv} (kept : Invariant nft ctPos inv) (names : String → Prop) :
    Maintained nft ctPos names inv where
  positions := kept.positions
  counts := kept.counts
  logs := kept.logs
  queues world msg minor _ := kept.queues world msg minor
  inbounds world inboundChains := kept.names world inboundChains world.router.sgPortVmaps
  registers world name table _ _ holds := kept.queues _ (.addSet table name []) ⟨rfl, rfl⟩
    (kept.names world world.router.inboundChains (world.router.sgPortVmaps.insert name table) holds)
  unregisters world name table holds := kept.queues _ (.delSet table name) ⟨rfl, rfl⟩
    (kept.names world world.router.inboundChains (world.router.sgPortVmaps.erase name) holds)
  flushes := kept.flushes
  deletes := kept.deletes
  saves := kept.saves

variable {deps : Deps} {ctPos : Family → Nat} {names : String → Prop} {inv : World → Prop} {α : Type}

theorem triple_attempt {program good bad failing} (post : Except RouterError α → World → Prop)
    (valid : Triple inv program good bad) (returned : ∀ value world, good value world → post (.ok value) world)
    (caught : ∀ error world, bad (.error error) world → post (.error error) world)
    (uncaught : ∀ fault world, (∀ error, fault ≠ .error error) → bad fault world → failing fault world) :
    Triple inv (attempt program) post failing := by
  intro world holds
  have reached := valid world holds
  rw [attempt_run]
  cases ran : program.run world with
  | ok value after =>
    rw [ran] at reached
    exact returned value after reached
  | error fault after =>
    rw [ran] at reached
    cases fault with
    | error error => exact caught error after reached
    | panic | hang => exact uncaught _ after (by simp) reached

theorem keeps_attempt {program : RouterM α} (kept : Keeps inv program) : Keeps inv (attempt program) :=
  triple_attempt _ kept (fun _ _ => id) (fun _ _ => id) fun _ _ _ => id

theorem keeps_getSetElements (counts : ∀ world calls, inv world → inv { world with calls })
    (logs : ∀ world entry, inv world → inv { world with failed := world.failed ++ [entry] }) (site : Site) (table : Family)
    (name : String) : Keeps inv (getSetElements site table name) := by
  rintro ⟨router, kernel, queue, faults, calls, failed⟩ holds
  rw [getSetElements_run]
  cases (if faults site (calls site) then none else kernel.sets table name) with
  | none => exact logs _ _ (counts _ _ holds)
  | some elements => exact counts _ _ holds

namespace Undisturbed

theorem fewer {some} (kept : Undisturbed ctPos names inv) (named : ∀ name, some name → names name) :
    Undisturbed ctPos some inv where
  positions := kept.positions
  counts := kept.counts
  logs := kept.logs
  queues := kept.queues
  inbounds := kept.inbounds
  registers world name table known := kept.registers world name table (named name known)

variable (kept : Undisturbed ctPos names inv)
include kept

theorem call (site : Site) : Keeps inv (call site) := by
  rintro ⟨router, kernel, queue, faults, calls, failed⟩ holds
  rw [call_run]
  cases faults site (calls site) with
  | true => exact kept.logs _ _ (kept.counts _ _ holds)
  | false => exact kept.counts _ _ holds

theorem enqueue {msg} (minor : msg.Minor) (stays : msg.dropsSet = false) : Keeps inv (enqueue msg) :=
  fun world holds => kept.queues world msg minor stays holds

theorem queueCall {site msg} (minor : msg.Minor) (stays : msg.dropsSet = false) : Keeps inv (queueCall site msg) :=
  Triple.bind _ (kept.call site) fun _ => kept.enqueue minor stays

theorem getSetElements (site : Site) (table : Family) (name : String) : Keeps inv (getSetElements site table name) :=
  keeps_getSetElements kept.counts kept.logs site table name

omit kept in
theorem getChain : Keeps inv getChain :=
  Triple.read fun world _ => by
    split
    · exact Triple.throw _ fun _ => id
    · exact Triple.skip _

theorem addInboundChain (ifname : String) (table : Family) : Keeps inv (addInboundChain ifname table) := by
  apply Triple.bind _ (kept.enqueue (Msg.minor_inbound table ifname none) rfl)
  intro _
  cases byteString ifname 16 with
  | error panic => exact Triple.throw _ fun _ => id
  | ok key => exact kept.queueCall ⟨rfl, rfl⟩ rfl

theorem getInboundChain (ifname : String) :
    Triple inv (getInboundChain ifname) (fun chain world => inv world ∧ chain = "inbound_" ++ ifname) (fun _ => inv) := by
  apply Triple.read
  intro state _
  split
  · exact Triple.pure _ fun _ holds => ⟨holds, rfl⟩
  · apply Triple.bind _ (forM fun table _ => kept.addInboundChain ifname table)
    intro _
    apply Triple.bind (fun _ => inv)
    · exact Triple.modify _ fun world holds => kept.inbounds world _ holds
    · exact fun _ => Triple.pure _ fun _ holds => ⟨holds, rfl⟩

theorem targetChain (sg : SecurityGroup) (iifName : String) : Triple inv (targetChain sg iifName)
    (fun target world => inv world ∧ ∀ found, target = some found → found = sg.target iifName ctPos) (fun _ => inv) := by
  apply Triple.bind _ getChain
  intro _
  apply Triple.read
  intro state held
  have positions := kept.positions state held
  simp only [positions]
  unfold target
  by_cases named : iifName = ""
  · cases dest : sg.dstNetwork.isValid with
    | true =>
      simp only [named, ne_eq, not_true_eq_false, if_false, Bool.not_true, Bool.false_eq_true, if_true]
      exact Triple.pure _ fun _ holds => ⟨holds, by simp⟩
    | false =>
      simp only [named, ne_eq, not_true_eq_false, if_false, Bool.not_false, Bool.false_eq_true, if_true]
      exact Triple.pure _ fun _ holds => ⟨holds, by simp⟩
  · cases dest : sg.dstNetwork.isValid with
    | true =>
      simp only [named, ne_eq, not_false_eq_true, if_true, Bool.not_true, Bool.false_eq_true, if_false]
      exact Triple.pure _ fun _ holds => ⟨holds, by simp⟩
    | false =>
      simp only [named, ne_eq, not_false_eq_true, if_true, Bool.not_false, Bool.false_eq_true, if_false]
      apply Triple.bind _ (triple_attempt (fun result world => inv world ∧ ∀ chain, result = .ok chain →
        chain = "inbound_" ++ iifName) (kept.getInboundChain iifName) (by simp) (by simp) fun _ _ _ => id)
      intro result
      apply Triple.fact
      intro known
      cases result with
      | error error => exact Triple.pure _ fun _ holds => ⟨holds, by simp⟩
      | ok chain => exact Triple.pure _ fun _ holds => ⟨holds, by simp [known chain rfl]⟩

theorem getSecurityGroupPortVMap (vmapName : String) {table} (named : table ≠ none → names vmapName) :
    Triple inv (getSecurityGroupPortVMap vmapName table)
      (fun found world => inv world ∧ ∀ vmap, found = some vmap → vmap.1 = vmapName)
      (fun fault world => (∃ error, fault = .error error) ∧ inv world) := by
  rintro ⟨router, kernel, queue, faults, calls, failed⟩ holds
  simp only [Network.getSecurityGroupPortVMap, EStateM.run_bind, EStateM.run_get]
  cases known : router.sgPortVmaps.lookup vmapName with
  | some owner => exact ⟨holds, by rintro vmap ⟨⟩; rfl⟩
  | none =>
    cases table with
    | none => exact ⟨holds, by simp⟩
    | some table =>
      simp only [EStateM.run_bind, queueCall_run]
      cases faults .vmapAddSet (calls .vmapAddSet) with
      | true => exact ⟨⟨_, rfl⟩, kept.logs _ _ (kept.counts _ _ holds)⟩
      | false => exact ⟨kept.registers _ vmapName table (named (by simp)) known (kept.counts _ _ holds),
          by rintro vmap ⟨⟩; rfl⟩

theorem addPort (vmap : String × Family) (verdict : Verdict) (proto : Protocol) (port : Int) {failing} :
    Triple inv (addPort vmap verdict proto port) (fun _ => inv) failing := by
  rintro ⟨router, kernel, queue, faults, calls, failed⟩ holds
  unfold Network.addPort
  cases createPortVMapKeyData proto port with
  | none => exact holds
  | some keyData =>
    simp only [run_bind, attempt_run, queueCall_run]
    cases faults .groupSetAddElements (calls .groupSetAddElements) with
    | true => exact kept.logs _ _ (kept.counts _ _ holds)
    | false => exact kept.queues _ _ ⟨rfl, rfl⟩ rfl (kept.counts _ _ holds)

theorem addPorts (vmap : String × Family) (verdict : Verdict) (group : PortGroup) :
    Triple inv (addPorts vmap verdict group) (fun _ world => inv world ∧ group.Ends)
      (fun fault world => fault = .hang ∧ inv world) := by
  unfold Network.addPorts PortGroup.Ends
  cases portRange group.fromPort group.toPort with
  | none => exact Triple.throw _ fun _ holds => ⟨rfl, holds⟩
  | some ports =>
    exact (Triple.forM fun port _ => kept.addPort vmap verdict group.proto port).weaken fun _ _ holds => ⟨holds, fun _ => rfl⟩

theorem openVmap (sg : SecurityGroup) (table : Family) {vmapName} (named : names vmapName) (slice : Slices.Slice)
    (build : Build) {failing} : Triple inv (openVmap table vmapName slice build) (fun pair world => inv world ∧
      pair.2 = draftAll build table slice (if pair.1.isSome then [sg.tail table vmapName false] else [])) failing := by
  apply Triple.bind _ (triple_attempt (fun result world => inv world ∧
    ∀ vmap, result = .ok (some vmap) → vmap.1 = vmapName) (kept.getSecurityGroupPortVMap vmapName fun _ => named)
    (by simp) (by simp) fun fault _ other caught => absurd caught.1.choose_spec (other _))
  intro result
  apply Triple.fact
  intro known
  rcases result with error | _ | vmap
  · exact Triple.pure _ fun _ holds => ⟨holds, rfl⟩
  · exact Triple.pure _ fun _ holds => ⟨holds, rfl⟩
  · refine Triple.pure _ fun _ holds => ⟨holds, ?_⟩
    simp [draftAll, tail, known vmap rfl]

theorem addGroupPorts (verdict : Verdict) (group : PortGroup) (vmap : Option (String × Family)) :
    Triple inv (addGroupPorts verdict group vmap) (fun _ world => inv world ∧ (vmap.isSome = true → group.Ends))
      (fun fault world => fault = .hang ∧ inv world) := by
  cases vmap with
  | none => exact Triple.pure _ fun _ holds => ⟨holds, by simp⟩
  | some vmap =>
    exact (kept.addPorts vmap verdict group).weaken fun _ _ holds => ⟨holds.1, fun _ => holds.2⟩

/-- The loop drafts the rules of the kinds that come up, the vmap rule only if the vmap could
be had; then the loop has come through all the ports. -/
theorem addPortGroups (sg : SecurityGroup) (table : Family) (vmapName : String) (slice : Slices.Slice)
    (groups : List PortGroup) (icmpAdded : Bool) (opened : Option (Option (String × Family))) (build : Build)
    (named : (∃ group ∈ groups, group.proto ≠ .ICMP) → names vmapName) :
    Triple inv (addPortGroups sg table vmapName slice groups icmpAdded opened build)
      (fun result world => inv world ∧ ∃ got, (∀ vmap, opened = some vmap → got = vmap.isSome) ∧
        (got = true → ∀ group ∈ groups, group.Ends) ∧ result = draftAll build table slice
        (((SecurityGroup.kinds groups icmpAdded opened.isSome).filter (· || got)).map (sg.tail table vmapName)))
      (fun fault world => fault = .hang ∧ inv world) := by
  induction groups generalizing icmpAdded opened build with
  | nil =>
    refine Triple.pure _ fun _ holds => ⟨holds, (opened.getD none).isSome, ?_, by simp, rfl⟩
    rintro vmap rfl
    rfl
  | cons group groups ih =>
    have later : (∃ group ∈ groups, group.proto ≠ .ICMP) → names vmapName :=
      fun ⟨other, member, ports⟩ => named ⟨other, by simp [member], ports⟩
    by_cases icmp : group.proto = .ICMP
    · have endless : group.Ends := fun ports => absurd icmp ports
      have all : ∀ {got : Bool}, (got = true → ∀ group ∈ groups, group.Ends) → got = true → ∀ other ∈ group :: groups, other.Ends :=
        fun rest had => List.forall_mem_cons.mpr ⟨endless, rest had⟩
      simp only [Network.addPortGroups, icmp, if_true, SecurityGroup.kinds]
      cases icmpAdded with
      | true =>
        refine (ih true opened build later).weaken ?_
        rintro result world ⟨holds, got, known, ends, rfl⟩
        exact ⟨holds, got, known, all ends, rfl⟩
      | false =>
        refine (ih true opened (build.draft table slice (icmpExprs sg.verdict)) later).weaken ?_
        rintro result world ⟨holds, got, known, ends, rfl⟩
        exact ⟨holds, got, known, all ends, rfl⟩
    · simp only [Network.addPortGroups, icmp, if_false, SecurityGroup.kinds]
      cases opened with
      | some vmap =>
        apply Triple.bind _ (kept.addGroupPorts sg.verdict group vmap)
        intro _
        apply Triple.fact
        intro through
        refine (ih icmpAdded (some vmap) build later).weaken ?_
        rintro result world ⟨holds, got, known, ends, rfl⟩
        obtain rfl := known vmap rfl
        exact ⟨holds, vmap.isSome, known, fun had => List.forall_mem_cons.mpr ⟨through had, ends had⟩, rfl⟩
      | none =>
        apply Triple.bind _ (kept.openVmap sg table (named ⟨group, by simp, icmp⟩) slice build)
        rintro ⟨vmap, next⟩
        apply Triple.fact
        intro drafted
        obtain rfl : next = draftAll build table slice (if vmap.isSome then [sg.tail table vmapName false] else []) := drafted
        apply Triple.bind _ (kept.addGroupPorts sg.verdict group vmap)
        intro _
        apply Triple.fact
        intro through
        refine (ih icmpAdded (some vmap) _ later).weaken ?_
        rintro result world ⟨holds, any, known, ends, rfl⟩
        obtain rfl := known vmap rfl
        refine ⟨holds, vmap.isSome, by simp, fun had => List.forall_mem_cons.mpr ⟨through had, ends had⟩, ?_⟩
        simp only [Option.isSome_some, Option.isSome_none, Bool.false_eq_true, if_false, List.filter_append,
          SecurityGroup.filter_kinds_opened]
        cases vmap.isSome <;> simp [draftAll]

theorem buildTable (sg : SecurityGroup) (vmapName : Family → String) (pre : Slices.Slice) (build : Build) (table : Family)
    (named : sg.appliesTo table = true → (∃ group ∈ sg.ports, group.proto ≠ .ICMP) → names (vmapName table)) :
    Triple inv (buildTable sg vmapName pre build table)
      (fun result world => inv world ∧ ∃ got, (sg.appliesTo table = true → got = true → ∀ group ∈ sg.ports, group.Ends) ∧
        result = builtTable sg vmapName pre got build table)
      (fun fault world => fault = .hang ∧ inv world) := by
  unfold Network.buildTable builtTable
  cases applies : sg.appliesTo table with
  | false => exact Triple.pure _ fun _ holds => ⟨holds, true, by simp, rfl⟩
  | true =>
    simp only [Bool.not_true, Bool.false_eq_true, if_false, if_true]
    cases ports : sg.ports with
    | nil =>
      refine Triple.pure _ fun _ holds => ⟨holds, true, by simp, ?_⟩
      rw [sg.tails_of_empty ports]
      rfl
    | cons group groups =>
      refine (kept.addPortGroups sg table (vmapName table) _ (group :: groups) false none _ (ports ▸ named applies)).weaken ?_
      rintro result world ⟨holds, got, -, ends, rfl⟩
      refine ⟨holds, got, fun _ => ends, ?_⟩
      simp only [tails, ports]
      rfl

omit kept in
/-- The rules of a group are drafted from one invariant to a weaker one that holds while
its vmaps are being registered. -/
theorem draftGroup {opening sg} {iifName} (before : Undisturbed ctPos (fun _ => False) inv)
    (during : Undisturbed ctPos names opening) (enter : ∀ world, inv world → opening world)
    (named : ∀ table, sg.appliesTo table = true → (∃ group ∈ sg.ports, group.proto ≠ .ICMP) → names (sg.pgVmapName deps.sum64 iifName table)) :
    Triple inv (draftGroup deps iifName sg)
      (fun drafted world => match drafted with
        | none => inv world
        | some (target, rules) => opening world ∧ target = sg.target iifName ctPos ∧ sg.mixesFamilies = false ∧
          ∃ got, (∀ table, sg.appliesTo table = true → got table = true → ∀ group ∈ sg.ports, group.Ends) ∧
            rules = sg.compile iifName (sg.pgVmapName deps.sum64 iifName) ctPos got)
      (fun fault world => inv world ∨ fault = .hang ∧ opening world) := by
  unfold Network.draftGroup
  cases mixed : sg.mixesFamilies with
  | true => exact Triple.pure _ fun _ => id
  | false =>
    apply Triple.bind _ ((before.targetChain sg iifName).consequence (fun _ => id) (fun _ _ holds => holds)
      fun _ _ holds => .inl holds)
    intro target
    apply Triple.fact
    intro known
    cases target with
    | none => exact Triple.pure _ fun _ => id
    | some target =>
      obtain rfl := known target rfl
      have tables := fun build pre table => (during.buildTable sg _ pre build table (named table)).consequence
        (fun _ => id) (fun _ _ holds => holds) fun fault world holds =>
          (.inr holds : inv world ∨ fault = .hang ∧ opening world)
      apply Triple.bind _ ((tables _ _ .ipv4).consequence enter (fun _ _ holds => holds) fun _ _ holds => holds)
      intro four
      apply Triple.fact
      rintro ⟨got, ends, rfl⟩
      apply Triple.bind _ (tables _ _ .ipv6)
      intro six
      apply Triple.fact
      rintro ⟨got', ends', rfl⟩
      have rules := builtTable_rules iifName (sg.pgVmapName deps.sum64 iifName) ctPos
        (fun family => if family = .ipv4 then got else got') mixed
      refine Triple.pure _ fun _ holds => ⟨holds, rfl, rfl, _, ?_, rules⟩
      intro table
      cases table with
      | ipv4 => exact ends
      | ipv6 => exact ends'

omit kept in
theorem setSecurityGroup {opening sg} {iifName} (before : Undisturbed ctPos (fun _ => False) inv)
    (during : Undisturbed ctPos names opening) (enter : ∀ world, inv world → opening world)
    (named : ∀ table, sg.appliesTo table = true → (∃ group ∈ sg.ports, group.proto ≠ .ICMP) → names (sg.pgVmapName deps.sum64 iifName table))
    (save : ∀ got, sg.mixesFamilies = false → Triple opening (saveFilterRules deps.nft (sg.sgKey deps.sum64 iifName) (sg.compile iifName (sg.pgVmapName deps.sum64 iifName) ctPos got) (sg.target iifName ctPos).insert) (fun _ => inv) (fun _ => inv)) :
    Triple inv (setSecurityGroup deps iifName sg) (fun _ => inv)
      (fun fault world => inv world ∨ fault = .hang ∧ opening world) := by
  rw [setSecurityGroup_eq]
  apply Triple.bind _ (draftGroup before during enter named)
  intro drafted
  cases drafted with
  | none => exact Triple.skip _
  | some pair =>
    obtain ⟨target, -⟩ := pair
    rintro world ⟨holds, rfl, mixed, got, -, rfl⟩
    exact (save got mixed).consequence (fun _ => id) (fun _ _ holds => holds) (fun _ _ holds => .inl holds) world holds

end Undisturbed

/-- What an invariant has to survive to survive the deletion of groups. -/
structure Withdrawing (nft : Nft) (inv : World → Prop) : Prop where
  counts : ∀ world calls, inv world → inv { world with calls }
  logs : ∀ world entry, inv world → inv { world with failed := world.failed ++ [entry] }
  drops : ∀ world table name elements, inv world →
    inv { world with queue := world.queue ++ [.setDeleteElements table name elements] }
  unregisters : ∀ world name table, inv world →
    inv { world with
      router := { world.router with sgPortVmaps := world.router.sgPortVmaps.erase name }
      queue := world.queue ++ [.delSet table name] }
  flushes : ∀ site, Keeps inv (flush nft site)
  deletes : ∀ key, Keeps inv (deleteFilter nft key)

namespace Withdrawing

variable (kept : Withdrawing deps.nft inv)
include kept

theorem deletePorts (vmap : String × Family) (verdict : Verdict) (group : PortGroup) :
    Keeps inv (deletePorts vmap verdict group) := by
  unfold Network.deletePorts
  split
  · exact Triple.skip _
  · cases portRange group.fromPort group.toPort with
    | none => exact Triple.throw _ fun _ => id
    | some ports =>
      apply Keeps.forM
      intro port _
      unfold deletePort
      cases createPortVMapKeyData group.proto port with
      | none => exact Triple.skip _
      | some keyData =>
        refine value (keeps_attempt ?_) _
        rintro ⟨router, kernel, queue, faults, calls, failed⟩ holds
        rw [queueCall_run]
        cases faults .groupSetDeleteElements (calls .groupSetDeleteElements) with
        | true => exact kept.logs _ _ (kept.counts _ _ holds)
        | false => exact kept.drops _ _ _ _ (kept.counts _ _ holds)

theorem deleteGroupPorts (sg : SecurityGroup) (vmapName : Family → String) (touched : List (String × Family))
    (table : Family) : Keeps inv (deleteGroupPorts sg vmapName touched table) := by
  unfold Network.deleteGroupPorts
  split
  · exact Triple.skip _
  · apply Triple.bind (fun _ => inv)
    · apply Triple.read
      intro state _
      cases state.router.sgPortVmaps.lookup (vmapName table) with
      | none | some => exact Triple.skip _
    intro found
    cases found with
    | none => exact Triple.skip _
    | some vmap =>
      exact value (forM fun group _ => kept.deletePorts vmap sg.verdict group) _

theorem dropIfEmpty (vmap : String × Family) : Keeps inv (dropIfEmpty vmap) := by
  apply Triple.bind _ (keeps_attempt (keeps_getSetElements kept.counts kept.logs .groupGetElements vmap.2 vmap.1))
  intro result
  cases result with
  | error error => exact Triple.skip _
  | ok elements =>
    simp only []
    split
    · exact fun world holds => kept.unregisters world vmap.1 vmap.2 holds
    · exact Triple.skip _

theorem deleteGroupFilter (sgKey : String) (touched : List (String × Family)) :
    Keeps inv (deleteGroupFilter deps sgKey touched) := by
  apply Triple.bind _ (keeps_attempt (kept.deletes sgKey))
  intro result
  cases result with
  | error error => exact Triple.skip _
  | ok _ =>
    apply Triple.bind _ (mapM fun vmap _ => kept.dropIfEmpty vmap)
    intro dropped
    split
    · exact discard (keeps_attempt (kept.flushes .groupFlush))
    · exact Triple.skip _

theorem deleteSecurityGroups (sgs : List SecurityGroup) (iifName : String) :
    Keeps inv (deleteSecurityGroups deps sgs iifName) := by
  apply Keeps.discard
  apply foldlM
  intro touched sg _
  apply Triple.bind (fun _ => inv)
  · apply Triple.read
    intro state _
    split
    · exact Triple.throw _ fun _ => id
    · exact Triple.skip _
  · intro _
    apply Triple.bind (fun _ => inv)
    · exact Triple.read fun state _ => Triple.skip _
    · intro tables
      apply Triple.bind _ (foldlM (fun touched table _ => kept.deleteGroupPorts sg _ touched table) touched)
      intro touched
      exact value (kept.deleteGroupFilter _ touched) _

end Withdrawing

namespace Maintained

variable (kept : Maintained deps.nft ctPos names inv)
include kept

theorem withdrawing : Withdrawing deps.nft inv where
  counts := kept.counts
  logs := kept.logs
  drops world table name elements := kept.queues world (.setDeleteElements table name elements) ⟨rfl, rfl⟩ rfl
  unregisters := kept.unregisters
  flushes := kept.flushes
  deletes := kept.deletes

omit kept in
theorem getTable : Keeps inv getTable :=
  Triple.read fun world _ => by
    split
    · exact Triple.throw _ fun _ => id
    · exact Triple.skip _

theorem forwardPortOnIP (dstPort port : Int) (dstIP forwardIP : Addr) (proto : Protocol) :
    Keeps inv (forwardPortOnIP deps dstPort port dstIP forwardIP proto) := by
  apply Triple.bind _ getTable
  intro _
  cases protoNumber proto with
  | none => exact Triple.throw _ fun _ => id
  | some number =>
    exact value (kept.saves _ _ (.port _ number dstPort port dstIP forwardIP)) _

theorem forwardTraffic (srcItfName dstItfName : String) (srcNetwork dstNetwork : Prefix) (withNat : Bool) :
    Keeps inv (forwardTraffic deps srcItfName dstItfName srcNetwork dstNetwork withNat) := by
  unfold Network.forwardTraffic
  split
  · exact Triple.throw _ fun _ => id
  · apply Triple.bind _ getTable
    intro _
    exact value (kept.saves _ _ (.traffic _ srcItfName dstItfName srcNetwork dstNetwork withNat)) _

/-- The two calls for the sets of a list. -/
theorem sends {site} {send : Family → Msg} (minor : ∀ table, (send table).Minor) (stays : ∀ table, (send table).dropsSet = false) :
    Keeps inv (forM families fun table => do
      if !(← get).router.made then throw (.panic .indexOutOfRange)
      let _ ← attempt (Network.queueCall site (send table))) := by
  apply Keeps.forM
  intro table _
  apply Triple.read
  intro state _
  split
  · exact Triple.throw _ fun _ => id
  · exact value (keeps_attempt (kept.queueCall (minor table) (stays table))) _

theorem setSize (list : IPList) (table : Family) : Keeps inv (setSize list table) := by
  apply Triple.bind _ (keeps_attempt (kept.getSetElements .ipSetGetElements table list.name))
  intro result
  cases result <;> exact Triple.skip _

theorem deleteIPsFromList (list : IPList) (ips : List Addr) : Keeps inv (deleteIPsFromList deps list ips) := by
  apply Triple.bind (fun _ => inv)
  · apply Triple.bind (fun _ => inv)
    · exact kept.sends (fun _ => ⟨rfl, rfl⟩) fun _ => rfl
    · intro _
      apply Triple.bind _ (kept.flushes .ipSetFlush)
      intro _
      apply Triple.bind _ (kept.setSize list .ipv4)
      exact fun size4 => value (kept.setSize list .ipv6) _
  · rintro ⟨size4, -⟩
    simp only []
    split
    · exact kept.deletes list.name
    · exact Triple.skip _

theorem addIPsToDenyList (ips : List Addr) : Keeps inv (addIPsToDenyList deps ips) := by
  unfold Network.addIPsToDenyList
  split
  · apply Triple.bind _ (kept.sends (fun _ => ⟨rfl, rfl⟩) fun _ => rfl)
    intro _
    apply Triple.read
    intro state _
    split
    · apply Triple.bind _ Undisturbed.getChain
      exact fun _ => kept.saves _ _ .denied
    · exact Triple.skip _
  · exact Triple.skip _

theorem addIPsToAllowList (ips : List Addr) : Keeps inv (addIPsToAllowList deps ips) := by
  unfold Network.addIPsToAllowList
  split
  · apply Triple.bind _ (kept.sends (fun _ => ⟨rfl, rfl⟩) fun _ => rfl)
    intro _
    apply Triple.read
    intro state _
    split
    · apply Triple.bind _ Undisturbed.getChain
      exact fun _ => value (keeps_attempt (kept.saves _ _ .allowed)) _
    · exact Triple.skip _
  · exact Triple.skip _

theorem exec {op : Op} (stands : op ≠ .clear)
    (groups : ∀ sgs iifName, op = .setSecurityGroups sgs iifName → Keeps inv (setSecurityGroups deps sgs iifName)) :
    Keeps inv (op.exec deps) := by
  cases op with
  | setSecurityGroups sgs iifName => exact groups sgs iifName rfl
  | deleteSecurityGroups sgs iifName => exact kept.withdrawing.deleteSecurityGroups sgs iifName
  | forwardPort dstPort port forwardIP proto => exact discard (kept.forwardPortOnIP dstPort port .zero forwardIP proto)
  | deleteForwardPort | deleteForwardPortOnIP | deleteForwardTraffic => exact kept.deletes _
  | forwardPortOnIP dstPort port dstIP forwardIP proto =>
    exact discard (kept.forwardPortOnIP dstPort port dstIP forwardIP proto)
  | forwardTraffic srcItfName dstItfName srcNetwork dstNetwork withNat =>
    exact discard (kept.forwardTraffic srcItfName dstItfName srcNetwork dstNetwork withNat)
  | addIPsToDenyList ips => exact kept.addIPsToDenyList ips
  | deleteIPsFromDenyList ips => exact kept.deleteIPsFromList .deny ips
  | addIPsToAllowList ips => exact kept.addIPsToAllowList ips
  | deleteIPsFromAllowList ips => exact kept.deleteIPsFromList .allow ips
  | deleteFilter key => exact kept.deletes key
  | clear => exact absurd rfl stands

end Maintained

/-- An operation other than `Clear` keeps an invariant that survives saving the rules
of the groups it sets. -/
theorem Invariant.exec {op : Op} (kept : Invariant deps.nft ctPos inv) (stands : op ≠ .clear)
    (groups : ∀ sgs iifName, op = .setSecurityGroups sgs iifName → ∀ sg ∈ sgs, ∀ got, sg.mixesFamilies = false →
      Keeps inv (saveFilterRules deps.nft (sg.sgKey deps.sum64 iifName)
        (sg.compile iifName (sg.pgVmapName deps.sum64 iifName) ctPos got) (sg.target iifName ctPos).insert)) :
    Keeps inv (op.exec deps) := by
  apply (kept.maintained fun _ => False).exec stands
  intro sgs iifName same
  apply Keeps.forM
  intro sg member
  refine (Undisturbed.setSecurityGroup (kept.maintained _).toUndisturbed
    (kept.maintained fun _ => True).toUndisturbed (fun _ => id) (fun _ _ _ => trivial)
    (groups sgs iifName same sg member)).consequence (fun _ => id) (fun _ _ holds => holds) ?_
  rintro fault world (holds | ⟨-, holds⟩) <;> exact holds

end MycsCommon.Network
