import MycsCommon.Proofs.GroupRules
import MycsCommon.Proofs.RouterCalls
import MycsCommon.Network.PacketEval

/-! Setting and deleting a security group when no call fails: the messages that wait in
the queue before its rules are saved or released. -/

namespace MycsCommon.Network
open Library Program List EStateM Router SecurityGroup

/-- The state, with no call failing from here on. -/
structure Quiet (router : Router) (kernel : Kernel) (queue : List Msg) (world : World) : Prop where
  router : world.router = router
  kernel : world.kernel = kernel
  queue : world.queue = queue
  calm : world.faults = fun _ _ => false
  clean : world.failed = []

/-- The program comes to its end. -/
abbrev Returns {α : Type} (pre : World → Prop) (program : RouterM α) (post : α → World → Prop) : Prop :=
  Triple pre program post fun _ _ => False

variable {deps : Deps} {nft : Nft} {router : Router} {kernel after : Kernel} {queue : List Msg} {world : World} {α : Type}

theorem Returns.run {pre program} {post : α → World → Prop} (returns : Returns pre program post) (holds : pre world) :
    ∃ value next, program.run world = .ok value next ∧ post value next := by
  have reached := returns world holds
  cases ran : program.run world with
  | ok value next =>
    rw [ran] at reached
    exact ⟨value, next, rfl, reached⟩
  | error fault next =>
    rw [ran] at reached
    exact reached.elim

theorem enqueue_quiet (msg : Msg) : Returns (Quiet router kernel queue) (enqueue msg)
    (fun _ => Quiet router kernel (queue ++ [msg])) := by
  rintro world ⟨rfl, rfl, rfl, calm, clean⟩
  exact ⟨rfl, rfl, rfl, calm, clean⟩

theorem queueCall_quiet (site : Site) (msg : Msg) : Returns (Quiet router kernel queue) (queueCall site msg)
    (fun _ => Quiet router kernel (queue ++ [msg])) := by
  rintro ⟨_, _, _, _, -, _⟩ ⟨rfl, rfl, rfl, rfl, rfl⟩
  rw [queueCall_run]
  exact ⟨rfl, rfl, rfl, rfl, rfl⟩

theorem attempt_returns {pre program} {post : α → World → Prop} (returns : Returns pre program post) :
    Returns pre (attempt program) (fun result world => ∃ value, result = .ok value ∧ post value world) := by
  intro world holds
  obtain ⟨value, next, ran, reached⟩ := returns.run holds
  rw [attempt_run, ran]
  exact ⟨value, rfl, reached⟩

/-! The target chain. -/

/-- The rules of the group go to a chain of the interface's own. -/
def SecurityGroup.needsInbound (sg : SecurityGroup) (iifName : String) : Bool := iifName ≠ "" && !sg.dstNetwork.isValid

def inboundChain (iifName : String) : String := "inbound_" ++ iifName

def inboundMsgs (iifName : String) : List Msg :=
  families.flatMap fun table =>
    [.addChain table (inboundChain iifName) none,
      .setAddElements table "inbound_ifname" [⟨paddedName iifName, some (.jump (inboundChain iifName))⟩]]

def Router.lacksInbound (router : Router) (sg : SecurityGroup) (iifName : String) : Bool :=
  sg.needsInbound iifName && inboundChain iifName ∉ router.inboundChains

def Router.withInbound (router : Router) (sg : SecurityGroup) (iifName : String) : Router :=
  if router.lacksInbound sg iifName then { router with inboundChains := inboundChain iifName :: router.inboundChains }
  else router

private theorem byteString_short {text} (short : (textBytes text).length ≤ 15) :
    byteString text 16 = .ok (paddedName text) := by
  simp only [byteString, show ¬ 16 < (textBytes text).length by omega, if_false]
  rfl

section

variable {iifName} (short : (textBytes iifName).length ≤ 15)
include short

private theorem addInboundChain_quiet (table : Family) :
    Returns (Quiet router kernel queue) (addInboundChain iifName table) (fun _ => Quiet router kernel
      (queue ++ [.addChain table (inboundChain iifName) none,
        .setAddElements table "inbound_ifname" [⟨paddedName iifName, some (.jump (inboundChain iifName))⟩]])) := by
  apply Triple.bind _ (enqueue_quiet (.addChain table (inboundChain iifName) none))
  intro _
  rw [byteString_short short]
  have rest := @queueCall_quiet router kernel (queue ++ [.addChain table (inboundChain iifName) none]) .inboundSetAddElements
    (.setAddElements table "inbound_ifname" [⟨paddedName iifName, some (.jump (inboundChain iifName))⟩])
  rwa [append_assoc] at rest

private theorem addInboundChains_quiet :
    Returns (Quiet router kernel queue) (forM families (addInboundChain iifName))
      (fun _ => Quiet router kernel (queue ++ inboundMsgs iifName)) := by
  simp only [families, forM_cons, forM_nil]
  apply Triple.bind _ (addInboundChain_quiet short .ipv4)
  intro _
  apply Triple.bind _ (addInboundChain_quiet short .ipv6)
  intro _
  refine Triple.pure _ fun _ holds => ?_
  rwa [append_assoc] at holds

private theorem getInboundChain_quiet {sg}
    (needs : sg.needsInbound iifName = true) :
    Returns (Quiet router kernel queue) (getInboundChain iifName) (fun chain world => Quiet (router.withInbound sg iifName)
      kernel (queue ++ if router.lacksInbound sg iifName then inboundMsgs iifName else []) world ∧
        chain = inboundChain iifName) := by
  rintro world ⟨rfl, rfl, rfl, calm, clean⟩
  simp only [getInboundChain, run_bind, run_get]
  by_cases known : inboundChain iifName ∈ world.router.inboundChains
  · rw [if_pos (show "inbound_" ++ iifName ∈ world.router.inboundChains from known)]
    have lacks : world.router.lacksInbound sg iifName = false := by simp [lacksInbound, known]
    simp only [withInbound, lacks, Bool.false_eq_true, if_false, append_nil]
    exact ⟨⟨rfl, rfl, rfl, calm, clean⟩, rfl⟩
  · rw [if_neg (show "inbound_" ++ iifName ∉ world.router.inboundChains from known)]
    have lacks : world.router.lacksInbound sg iifName = true := by simp [lacksInbound, known, needs]
    simp only [withInbound, lacks, if_true]
    obtain ⟨_, next, ran, quiet⟩ := (addInboundChains_quiet short).run ⟨rfl, rfl, rfl, calm, clean⟩
    simp only [run_bind, ran]
    exact ⟨⟨congrArg (fun router => { router with inboundChains := inboundChain iifName :: router.inboundChains }) quiet.router,
      quiet.kernel, quiet.queue, quiet.calm, quiet.clean⟩, rfl⟩

end

theorem targetChain_quiet (sg : SecurityGroup) {iifName : String} (tables : router.tables = true)
    (short : (textBytes iifName).length ≤ 15) :
    Returns (Quiet router kernel queue) (targetChain sg iifName) (fun target world => Quiet (router.withInbound sg iifName)
      kernel (queue ++ if router.lacksInbound sg iifName then inboundMsgs iifName else []) world ∧
        target = some (sg.target iifName router.forwardChainCtPos)) := by
  rintro world ⟨rfl, rfl, rfl, calm, clean⟩
  simp only [targetChain, getChain, run_bind, run_get, tables, Bool.not_true, Bool.false_eq_true, if_false,
    run_pure]
  have aside : sg.needsInbound iifName = false →
      Quiet (world.router.withInbound sg iifName) world.kernel
        (world.queue ++ if world.router.lacksInbound sg iifName then inboundMsgs iifName else []) world := by
    intro aside
    have lacks : world.router.lacksInbound sg iifName = false := by simp [lacksInbound, aside]
    simp only [withInbound, lacks, Bool.false_eq_true, if_false, append_nil]
    exact ⟨rfl, rfl, rfl, calm, clean⟩
  by_cases named : iifName = ""
  · have none : sg.needsInbound iifName = false := by simp [needsInbound, named]
    cases dest : sg.dstNetwork.isValid <;> simp only [named, ne_eq, not_true_eq_false, if_false, Bool.not_false,
      Bool.not_true, Bool.false_eq_true, if_true] <;> exact ⟨named ▸ aside none, by simp [target, dest]⟩
  · cases dest : sg.dstNetwork.isValid with
    | true =>
      have none : sg.needsInbound iifName = false := by simp [needsInbound, dest]
      simp only [ne_eq, named, not_false_eq_true, if_true, Bool.not_true, Bool.false_eq_true, if_false]
      exact ⟨aside none, by simp [target, dest, named]⟩
    | false =>
      have needs : sg.needsInbound iifName = true := by simp [needsInbound, dest, named]
      obtain ⟨_, next, ran, -, rfl, quiet, rfl⟩ :=
        (attempt_returns (getInboundChain_quiet short needs)).run ⟨rfl, rfl, rfl, calm, clean⟩
      simp only [ne_eq, named, not_false_eq_true, if_true, Bool.not_false, run_bind, ran]
      exact ⟨quiet, by simp [target, dest, named, inboundChain]⟩

/-! Port group vmaps. -/

def vmapSuffix : Family → String
  | .ipv4 => "_0"
  | .ipv6 => "_1"

theorem SecurityGroup.pgVmapName_eq (sum64 : Bytes → Bytes) (sg : SecurityGroup) (iifName : String) (table : Family) :
    sg.pgVmapName sum64 iifName table = hashString sum64 (sg.vmapSignature iifName) "sgs" ++ vmapSuffix table := by
  cases table <;> rfl

theorem vmapSuffix_inj {label other table owner} (same : label ++ vmapSuffix table = other ++ vmapSuffix owner) :
    table = owner := by
  have ends := congrArg (fun text => text.toList.getLast?) same
  have last : ∀ family, (vmapSuffix family).toList.getLast? = some (if family = .ipv4 then '0' else '1') := by
    intro family
    cases family <;> decide
  simp only [String.toList_append, getLast?_append, last, Option.some_or] at ends
  cases table <;> cases owner <;> first | rfl | exact absurd ends (by decide)

/-- Every vmap is registered for the table its name ends with. -/
def Router.Owned (router : Router) : Prop :=
  ∀ name table, router.sgPortVmaps.lookup name = some table → ∃ label, name = label ++ vmapSuffix table

def Router.lacksVmap (router : Router) (name : String) : Bool := (router.sgPortVmaps.lookup name).isNone

def Router.withVmap (router : Router) (name : String) (table : Family) : Router :=
  if router.lacksVmap name then { router with sgPortVmaps := router.sgPortVmaps.insert name table } else router

def Router.openMsgs (router : Router) (name : String) (table : Family) : List Msg :=
  if router.lacksVmap name then [.addSet table name []] else []

theorem Router.Owned.withVmap (owned : router.Owned) (label : String) (table : Family) :
    (router.withVmap (label ++ vmapSuffix table) table).Owned := by
  unfold Router.withVmap
  split
  · intro name owner found
    by_cases same : name = label ++ vmapSuffix table
    · subst same
      rw [AList.lookup_insert] at found
      cases found
      exact ⟨label, rfl⟩
    · exact owned name owner ((AList.lookup_insert_ne same).symm.trans found)
  · exact owned

private theorem getVmap_quiet {label : String} (table : Family) (owned : router.Owned) :
    let name := label ++ vmapSuffix table
    Returns (Quiet router kernel queue) (getSecurityGroupPortVMap name (some table)) (fun vmap world =>
      Quiet (router.withVmap name table) kernel (queue ++ router.openMsgs name table) world ∧ vmap = some (name, table)) := by
  rintro name world ⟨rfl, rfl, rfl, calm, clean⟩
  simp only [getSecurityGroupPortVMap, run_bind, run_get]
  cases found : world.router.sgPortVmaps.lookup name with
  | some owner =>
    obtain ⟨other, same⟩ := owned name owner found
    cases vmapSuffix_inj same
    have known : world.router.lacksVmap name = false := by simp [lacksVmap, found]
    simp only [withVmap, openMsgs, known, Bool.false_eq_true, if_false, append_nil]
    exact ⟨⟨rfl, rfl, rfl, calm, clean⟩, rfl⟩
  | none =>
    have lacks : world.router.lacksVmap name = true := by simp [lacksVmap, found]
    obtain ⟨_, next, ran, quiet⟩ := (queueCall_quiet .vmapAddSet (.addSet table name [])).run ⟨rfl, rfl, rfl, calm, clean⟩
    simp only [withVmap, openMsgs, lacks, if_true, run_bind, ran]
    exact ⟨⟨congrArg (fun router => { router with sgPortVmaps := router.sgPortVmaps.insert name table }) quiet.router,
      quiet.kernel, quiet.queue, quiet.calm, quiet.clean⟩, rfl⟩

/-! Ports. -/

theorem forM_quiet {item : Type} {items : List item} {body msgs}
    (turn : ∀ queue, ∀ item ∈ items, Returns (Quiet router kernel queue) (body item) (fun _ => Quiet router kernel (queue ++ msgs item))) :
    Returns (Quiet router kernel queue) (forM items body) (fun _ => Quiet router kernel (queue ++ items.flatMap msgs)) := by
  induction items generalizing queue with
  | nil => exact Triple.pure _ fun _ holds => by simpa using holds
  | cons item items ih =>
    rw [forM_cons]
    apply Triple.bind _ (turn queue item (by simp))
    intro _
    have rest := @ih (queue ++ msgs item) fun queue other member => turn queue other (by simp [member])
    rwa [append_assoc] at rest

def PortGroup.keys (group : PortGroup) : List Bytes :=
  ((portRange group.fromPort group.toPort).getD []).flatMap fun port => (createPortVMapKeyData group.proto port).toList

def portKeys (groups : List PortGroup) : List Bytes :=
  groups.flatMap fun group => if group.proto = .ICMP then [] else group.keys

def addKey (table : Family) (name : String) (verdict : Verdict) (key : Bytes) : Msg :=
  .setAddElements table name [⟨key, some verdict⟩]

private theorem addPort_quiet (table : Family) (name : String) (verdict : Verdict) (proto : Protocol) (port : Int) :
    Returns (Quiet router kernel queue) (addPort (name, table) verdict proto port) (fun _ => Quiet router kernel
      (queue ++ (createPortVMapKeyData proto port).toList.map (addKey table name verdict))) := by
  unfold addPort
  cases createPortVMapKeyData proto port with
  | none => exact Triple.pure _ fun _ holds => by simpa using holds
  | some key =>
    apply Triple.bind _ (attempt_returns (queueCall_quiet .groupSetAddElements (addKey table name verdict key)))
    intro _
    exact Triple.pure _ fun _ ⟨_, _, holds⟩ => holds

private theorem addPorts_quiet (table : Family) (name : String) (verdict : Verdict) {group : PortGroup}
    (ends : (portRange group.fromPort group.toPort).isSome = true) :
    Returns (Quiet router kernel queue) (addPorts (name, table) verdict group)
      (fun _ => Quiet router kernel (queue ++ group.keys.map (addKey table name verdict))) := by
  obtain ⟨ports, range⟩ := Option.isSome_iff_exists.mp ends
  have loop := @forM_quiet router kernel queue _ ports (addPort (name, table) verdict group.proto) _
    fun queue port _ => addPort_quiet table name verdict group.proto port
  simp only [addPorts, PortGroup.keys, range, Option.getD_some, map_flatMap]
  exact loop

private theorem addPortGroups_opened (sg : SecurityGroup) (table : Family) (name : String) (slice : Slices.Slice)
    {groups} (ends : ∀ group ∈ groups, group.Ends) (icmpAdded : Bool) (build : Build) :
    Returns (Quiet router kernel queue) (addPortGroups sg table name slice groups icmpAdded (some (some (name, table))) build)
      (fun built world => Quiet router kernel (queue ++ (portKeys groups).map (addKey table name sg.verdict)) world ∧
        built = draftAll build table slice ((kinds groups icmpAdded true).map (sg.tail table name))) := by
  induction groups generalizing queue icmpAdded build with
  | nil => exact Triple.pure _ fun _ holds => ⟨by simpa [portKeys] using holds, rfl⟩
  | cons group groups ih =>
    have later : ∀ other ∈ groups, other.Ends := fun other member => ends other (by simp [member])
    by_cases icmp : group.proto = .ICMP
    · simp only [addPortGroups, icmp, if_true, portKeys, flatMap_cons, nil_append, kinds]
      cases icmpAdded with
      | true => exact ih later true build
      | false => exact ih later true (build.draft table slice (icmpExprs sg.verdict))
    · simp only [addPortGroups, icmp, if_false, portKeys, flatMap_cons, kinds, if_true, nil_append,
        map_append, ← append_assoc]
      apply Triple.bind _ (addPorts_quiet table name sg.verdict (ends group (by simp) icmp))
      exact fun _ => ih later icmpAdded build

/-- The group's rules look ports up in the vmap of the table. -/
def SecurityGroup.needsVmap (sg : SecurityGroup) (table : Family) : Bool :=
  sg.appliesTo table && sg.ports.any (·.proto ≠ .ICMP)

private theorem addPortGroups_quiet (sg : SecurityGroup) (table : Family) {label} (slice : Slices.Slice)
    (owned : router.Owned) {groups} (ends : ∀ group ∈ groups, group.Ends) (icmpAdded : Bool) (build : Build) :
    let name := label ++ vmapSuffix table
    let opens := groups.any (·.proto ≠ .ICMP)
    Returns (Quiet router kernel queue) (addPortGroups sg table name slice groups icmpAdded none build)
      (fun built world => Quiet (if opens then router.withVmap name table else router) kernel
          (queue ++ ((if opens then router.openMsgs name table else []) ++ (portKeys groups).map (addKey table name sg.verdict)))
          world ∧
        built = draftAll build table slice ((kinds groups icmpAdded false).map (sg.tail table name))) := by
  intro name opens
  induction groups generalizing icmpAdded build with
  | nil => exact Triple.pure _ fun _ holds => ⟨by simpa [opens, portKeys] using holds, rfl⟩
  | cons group groups ih =>
    have later : ∀ other ∈ groups, other.Ends := fun other member => ends other (by simp [member])
    by_cases icmp : group.proto = .ICMP
    · simp only [opens, addPortGroups, icmp, if_true, portKeys, flatMap_cons, nil_append, kinds,
        any_cons, ne_eq, not_true_eq_false, decide_false, Bool.false_or]
      cases icmpAdded with
      | true => exact ih later true build
      | false => exact ih later true (build.draft table slice (icmpExprs sg.verdict))
    · simp only [opens, addPortGroups, icmp, if_false, portKeys, flatMap_cons, kinds, Bool.false_eq_true,
        any_cons, ne_eq, not_false_eq_true, decide_true, Bool.true_or, if_true, map_append, ← append_assoc]
      apply Triple.bind (fun pair world => Quiet (router.withVmap name table) kernel (queue ++ router.openMsgs name table) world ∧
        pair = (some (name, table), build.draft table slice (portExprs (ipHeaderOffsets table).protoOffset name)))
      · apply Triple.bind _ (attempt_returns (getVmap_quiet table owned))
        rintro result world ⟨_, rfl, holds, rfl⟩
        exact ⟨holds, rfl⟩
      rintro ⟨-⟩
      apply Triple.fact
      intro pair
      cases pair
      apply Triple.bind _ (addPorts_quiet table name sg.verdict (ends group (by simp) icmp))
      exact fun _ => addPortGroups_opened sg table name slice later icmpAdded _

def Router.opened (router : Router) (sg : SecurityGroup) (name : String) (table : Family) : Router :=
  if sg.needsVmap table then router.withVmap name table else router

def Router.portMsgs (router : Router) (sg : SecurityGroup) (name : String) (table : Family) : List Msg :=
  if sg.needsVmap table then router.openMsgs name table ++ (portKeys sg.ports).map (addKey table name sg.verdict) else []

theorem portKeys_icmp {groups} (icmp : groups.any (·.proto ≠ .ICMP) = false) : portKeys groups = [] := by
  simp only [any_eq_false, decide_eq_true_eq, not_not] at icmp
  exact flatMap_eq_nil_iff.mpr fun group member => if_pos (icmp group member)

private theorem buildTable_quiet {sg vmapName} {label} (table : Family)
    (named : vmapName table = label ++ vmapSuffix table) (owned : router.Owned)
    (ends : ∀ group ∈ sg.ports, group.Ends) (pre : Slices.Slice) (build : Build) :
    Returns (Quiet router kernel queue) (buildTable sg vmapName pre build table) (fun built world =>
      Quiet (router.opened sg (vmapName table) table) kernel (queue ++ router.portMsgs sg (vmapName table) table) world ∧
        built = builtTable sg vmapName pre true build table) := by
  unfold buildTable builtTable opened portMsgs needsVmap
  cases applies : sg.appliesTo table with
  | false => exact Triple.pure _ fun _ holds => ⟨by simpa using holds, rfl⟩
  | true =>
    simp only [Bool.not_true, Bool.false_eq_true, if_false, Bool.true_and, if_true]
    by_cases ports : sg.ports = []
    · simp only [ports, isEmpty_nil, if_true, any_nil, Bool.false_eq_true, if_false, append_nil,
        sg.tails_of_empty ports]
      exact Triple.pure _ fun _ holds => ⟨holds, rfl⟩
    · have loop := @addPortGroups_quiet router kernel queue sg table label (matchSlice sg table build.heap pre).2 owned sg.ports ends
        false ⟨(matchSlice sg table build.heap pre).1, build.drafts⟩
      simp only [isEmpty_eq_false_iff.mpr ports, Bool.false_eq_true, if_false, SecurityGroup.tails, Bool.or_true,
        filter_true, named]
      cases opens : sg.ports.any (·.proto ≠ .ICMP) with
      | true => simpa only [opens, if_true] using loop
      | false => simpa only [opens, Bool.false_eq_true, if_false, portKeys_icmp opens, map_nil, append_nil] using loop

def Router.prepared (router : Router) (sg : SecurityGroup) (iifName : String) (vmapName : Family → String) : Router :=
  ((router.withInbound sg iifName).opened sg (vmapName .ipv4) .ipv4).opened sg (vmapName .ipv6) .ipv6

namespace Router.Owned

theorem withInbound (owned : router.Owned) (sg : SecurityGroup) (iifName : String) : (router.withInbound sg iifName).Owned := by
  unfold Router.withInbound
  split <;> exact owned

theorem opened (owned : router.Owned) (sg : SecurityGroup) {name label table}
    (named : name = label ++ vmapSuffix table) : (router.opened sg name table).Owned := by
  unfold Router.opened
  split
  · rw [named]
    exact owned.withVmap label table
  · exact owned

end Router.Owned

section
variable (sg : SecurityGroup) (iifName : String) (vmapName : Family → String)

theorem Router.prepared_shape (router : Router) : router.prepared sg iifName vmapName = { router with
    inboundChains := (router.withInbound sg iifName).inboundChains
    sgPortVmaps := (router.prepared sg iifName vmapName).sgPortVmaps } := by
  have opened : ∀ (router : Router) name table,
      router.opened sg name table = { router with sgPortVmaps := (router.opened sg name table).sgPortVmaps } := by
    intro router name table
    unfold opened withVmap
    split
    · split <;> rfl
    · rfl
  have entered : router.withInbound sg iifName =
      { router with inboundChains := (router.withInbound sg iifName).inboundChains } := by
    unfold withInbound
    split <;> rfl
  unfold prepared
  rw [opened, opened _ (vmapName .ipv4), entered]

theorem Router.mem_withInbound {router : Router} {name}
    (member : name ∈ (router.withInbound sg iifName).inboundChains) :
    name ∈ router.inboundChains ∨ sg.needsInbound iifName = true ∧ name = inboundChain iifName := by
  unfold withInbound at member
  split at member
  next lacks =>
    rcases mem_cons.mp member with rfl | old
    · exact .inr ⟨(Bool.and_eq_true_iff.mp lacks).1, rfl⟩
    · exact .inl old
  next => exact .inl member

theorem Router.lookup_opened {router : Router} {name table}
    (owned : ∀ owner, router.sgPortVmaps.lookup name = some owner → owner = table) (other : String) (owner : Family) :
    (router.opened sg name table).sgPortVmaps.lookup other = some owner ↔
      router.sgPortVmaps.lookup other = some owner ∨ sg.needsVmap table = true ∧ other = name ∧ owner = table := by
  unfold opened withVmap lacksVmap
  cases needs : sg.needsVmap table with
  | false => simp
  | true =>
    simp only [if_true, true_and]
    by_cases same : other = name
    · subst same
      cases found : router.sgPortVmaps.lookup other with
      | none => simp [eq_comm]
      | some present =>
        cases owned present found
        simp [found, eq_comm]
    · simp only [same, false_and, or_false]
      split
      · rw [AList.lookup_insert_ne same]
      · rfl

end

/-- What waits in the queue when the rules of a group are saved. -/
def Router.groupMsgs (router : Router) (sg : SecurityGroup) (iifName : String) (vmapName : Family → String) : List Msg :=
  (if router.lacksInbound sg iifName then inboundMsgs iifName else []) ++
    ((router.withInbound sg iifName).portMsgs sg (vmapName .ipv4) .ipv4 ++
      ((router.withInbound sg iifName).opened sg (vmapName .ipv4) .ipv4).portMsgs sg (vmapName .ipv6) .ipv6)

theorem Router.groupMsgs_all {holds : Msg → Prop} (chains : ∀ table name policy, holds (.addChain table name policy))
    (sets : ∀ table name, holds (.addSet table name [])) (adds : ∀ table name elements, holds (.setAddElements table name elements))
    (router : Router) (sg : SecurityGroup) (iifName : String) (vmapName : Family → String) :
    ∀ msg ∈ router.groupMsgs sg iifName vmapName, holds msg := by
  have ports : ∀ (router : Router) name table, ∀ msg ∈ router.portMsgs sg name table, holds msg := by
    intro router name table msg member
    unfold portMsgs at member
    split at member
    · rcases mem_append.mp member with opens | added
      · unfold openMsgs at opens
        split at opens <;> simp at opens
        subst opens
        exact sets table name
      · obtain ⟨-, -, rfl⟩ := mem_map.mp added
        exact adds ..
    · simp at member
  intro msg member
  rcases mem_append.mp member with inbound | rest
  · split at inbound
    · simp only [inboundMsgs, families, flatMap_cons, flatMap_nil, append_nil, cons_append, nil_append,
        mem_cons, not_mem_nil, or_false] at inbound
      rcases inbound with rfl | rfl | rfl | rfl
      · exact chains ..
      · exact adds ..
      · exact chains ..
      · exact adds ..
    · simp at inbound
  · rcases mem_append.mp rest with first | second
    · exact ports _ _ _ msg first
    · exact ports _ _ _ msg second

theorem Router.groupMsgs_ruleFree (router : Router) (sg : SecurityGroup) (iifName : String) (vmapName : Family → String) :
    ∀ msg ∈ router.groupMsgs sg iifName vmapName, msg.ruleFree = true :=
  router.groupMsgs_all (fun _ _ _ => rfl) (fun _ _ => rfl) (fun _ _ _ => rfl) sg iifName vmapName

theorem draftGroup_quiet {sg} {iifName} (same : sg.mixesFamilies = false) (tables : router.tables = true)
    (short : (textBytes iifName).length ≤ 15) (ends : ∀ group ∈ sg.ports, group.Ends) (owned : router.Owned) :
    let names := sg.pgVmapName deps.sum64 iifName
    Returns (Quiet router kernel queue) (draftGroup deps iifName sg) (fun drafted world =>
      Quiet (router.prepared sg iifName names) kernel (queue ++ router.groupMsgs sg iifName names) world ∧
        drafted = some (sg.target iifName router.forwardChainCtPos,
          sg.compile iifName names router.forwardChainCtPos fun _ => true)) := by
  intro names
  have named := sg.pgVmapName_eq deps.sum64 iifName
  have ownedTarget := owned.withInbound sg iifName
  have owned4 := ownedTarget.opened sg (named .ipv4)
  simp only [draftGroup, same, Bool.false_eq_true, if_false]
  apply Triple.bind _ (targetChain_quiet sg tables short)
  intro target
  apply Triple.fact
  rintro rfl
  apply Triple.bind _ (buildTable_quiet .ipv4 (named .ipv4) ownedTarget ends _ _)
  intro four
  apply Triple.fact
  rintro rfl
  apply Triple.bind _ (buildTable_quiet .ipv6 (named .ipv6) owned4 ends _ _)
  intro six
  apply Triple.fact
  rintro rfl
  refine Triple.pure _ fun _ quiet => ⟨?_, ?_⟩
  · simpa only [prepared, groupMsgs, append_assoc] using quiet
  · rw [← builtTable_rules iifName names router.forwardChainCtPos (fun _ => true) same]

theorem setSecurityGroup_quiet {sg iifName} (same : sg.mixesFamilies = false) (tables : router.tables = true)
    (short : (textBytes iifName).length ≤ 15) (ends : ∀ group ∈ sg.ports, group.Ends) (owned : router.Owned)
    (quiet : Quiet router kernel queue world) : let names := sg.pgVmapName deps.sum64 iifName
    let target := sg.target iifName router.forwardChainCtPos
    ∃ ready, Quiet (router.prepared sg iifName names) kernel (queue ++ router.groupMsgs sg iifName names) ready ∧
      (setSecurityGroup deps iifName sg).run world =
        (saveFilterRules deps.nft (sg.sgKey deps.sum64 iifName)
          (sg.compile iifName names router.forwardChainCtPos fun _ => true) target.insert).run ready := by
  intro names target
  obtain ⟨-, ready, ran, prepared, rfl⟩ := (draftGroup_quiet same tables short ends owned).run quiet
  refine ⟨ready, prepared, ?_⟩
  rw [setSecurityGroup_eq, run_bind, ran]
  rfl

end MycsCommon.Network
