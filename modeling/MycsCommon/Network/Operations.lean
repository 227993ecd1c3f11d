import MycsCommon.Network.FilterRouter
import MycsCommon.Library.Program
import Mathlib.Logic.Relation

/-! The public operations of the packet filter router. Each follows the source call
by call; what the source only logs is left out, the branch it logs from is not. -/

namespace MycsCommon.Network
open Library

/-- What the router is given from outside: the nftables package and the hash behind
`utils.HashString`. -/
structure Deps where
  nft : Nft
  sum64 : Bytes → Bytes

def families : List Family := [.ipv4, .ipv6]

def byteString (text : String) (length : Nat) : Except Panic Bytes :=
  let bytes := textBytes text
  if length < bytes.length then .error .byteString else .ok (bytes ++ List.replicate (length - bytes.length) 0)

/-! Creating the router. -/

def ctstateExpr : List Expr := [.ctState 1, .lookup 1 "ctstate" true false]

def inboundIFNameExpr : List Expr := [.metaLoad .iifname 1, .lookup 1 "inbound_ifname" true false]

-- conntrack state bits invalid, established and related, in little-endian order
def ctstateElements : List SetElement :=
  [⟨[1, 0, 0, 0], some .drop⟩, ⟨[2, 0, 0, 0], some .accept⟩, ⟨[4, 0, 0, 0], some .accept⟩]

def inboundElements : List SetElement := [⟨textBytes "lo" ++ List.replicate 14 0, some .accept⟩]

def tableSets (table : Family) : List Msg :=
  [.addSet table "ctstate" ctstateElements, .addSet table "ip_denylist" [], .addSet table "ip_allowlist" [],
    .addSet table "inbound_ifname" inboundElements]

def tableChains (denyAll : Bool) (table : Family) : List Msg :=
  let fwPolicy := if denyAll then Policy.drop else Policy.accept
  [.addChain table "prerouting" (some .accept), .addChain table "input" (some fwPolicy),
    .addChain table "forward" (some fwPolicy), .addChain table "output" (some .accept),
    .addChain table "nat_prerouting" (some .accept), .addChain table "nat_postrouting" (some .accept)]

def tableRules (table : Family) : List Msg :=
  [.addRule { table, chain := "input", exprs := ctstateExpr },
    .addRule { table, chain := "input", exprs := inboundIFNameExpr },
    .addRule { table, chain := "forward", exprs := ctstateExpr }]

def createTable (denyAll : Bool) (table : Family) : RouterM Unit := do
  forM (tableSets table) (queueCall .newAddSet)
  forM (tableChains denyAll table) enqueue
  forM (tableRules table) enqueue

def readCtPos (table : Family) : RouterM Unit := do
  match ← getRules .newGetRules table "forward" with
  | [] => throw (.panic .indexOutOfRange)
  | rule :: _ => modifyRouter fun router =>
      { router with forwardChainCtPos := fun other =>
          if other = table then rule.handle else router.forwardChainCtPos other }

def newFilterRouter (deps : Deps) (denyAll : Bool) : RouterM Unit := do
  modifyRouter fun _ => { Router.unset with made := true, tables := true }
  enqueue (.addTable .ipv4)
  enqueue (.addTable .ipv6)
  forM families (createTable denyAll)
  flush deps.nft .newFlush
  forM families readCtPos

/-! Chains and tables. -/

def getTable : RouterM Unit := do
  if !(← get).router.tables then throw (.error .notInitialized)

/-- `getChain` indexes the chain lists, which are nil before `NewFilterRouter` and after `Clear`. -/
def getChain : RouterM Unit := do
  if !(← get).router.tables then throw (.panic .indexOutOfRange)

def addInboundChain (ifname : String) (table : Family) : RouterM Unit := do
  enqueue (.addChain table ("inbound_" ++ ifname) none)
  match byteString ifname 16 with
  | .error panic => throw (.panic panic)
  | .ok key =>
    queueCall .inboundSetAddElements
      (.setAddElements table "inbound_ifname" [⟨key, some (.jump ("inbound_" ++ ifname))⟩])

def getInboundChain (ifname : String) : RouterM String := do
  let chainName := "inbound_" ++ ifname
  if chainName ∈ (← get).router.inboundChains then return chainName
  forM families (addInboundChain ifname)
  modifyRouter fun router => { router with inboundChains := chainName :: router.inboundChains }
  return chainName

/-! Security groups. -/

/-- Where the rules of a group go: the chain, the rule to insert them before, and the
interface match that precedes the others. -/
structure Target where
  chain : String
  position : Family → Nat
  insert : Bool
  pre : List Expr

def targetChain (sg : SecurityGroup) (iifName : String) : RouterM (Option Target) := do
  getChain
  let forward : List Expr → Target := fun pre =>
    ⟨"forward", fun _ => 0, true, pre⟩
  let ctPos := (← get).router.forwardChainCtPos
  if iifName ≠ "" then
    if !sg.dstNetwork.isValid then
      match ← attempt (getInboundChain iifName) with
      | .error _ => return none
      | .ok chain => return some ⟨chain, fun _ => 0, false, []⟩
    else return some { forward (ifnameExprs .iifname iifName) with position := ctPos }
  else if !sg.dstNetwork.isValid then return some ⟨"input", fun _ => 0, false, []⟩
  else return some { forward [] with position := ctPos }

/-- A rule whose expression list is still a slice of the group's backing arrays. -/
structure Draft where
  table : Family
  exprs : Slices.Slice

structure Build where
  heap : Slices.Heap Expr
  drafts : List Draft

def appendIf (wanted : Bool) (heap : Slices.Heap Expr) (slice : Slices.Slice) (exprs : List Expr) :
    Slices.Heap Expr × Slices.Slice :=
  if wanted then Slices.append heap slice exprs else (heap, slice)

/-- The match expressions of a group in one table, appended one match at a time. -/
def matchSlice (sg : SecurityGroup) (table : Family) (heap : Slices.Heap Expr) (pre : Slices.Slice) :
    Slices.Heap Expr × Slices.Slice :=
  let offsets := ipHeaderOffsets table
  let (heap, slice) := appendIf sg.srcNetwork.isValid heap pre
    (networkExprs offsets.srcOffset offsets.addrLen sg.srcNetwork)
  let (heap, slice) := appendIf (sg.oifname ≠ "") heap slice (ifnameExprs .oifname sg.oifname)
  appendIf sg.dstNetwork.isValid heap slice (networkExprs offsets.destOffset offsets.addrLen sg.dstNetwork)

def Build.draft (build : Build) (table : Family) (slice : Slices.Slice) (exprs : List Expr) : Build :=
  let (heap, slice) := Slices.append build.heap slice exprs
  ⟨heap, build.drafts ++ [⟨table, slice⟩]⟩

/-- The vmap's name with its table; nothing where it is unknown and no table is given. -/
def getSecurityGroupPortVMap (vmapName : String) (table : Option Family) : RouterM (Option (String × Family)) := do
  match (← get).router.sgPortVmaps.lookup vmapName, table with
  | some owner, _ => return some (vmapName, owner)
  | none, none => return none
  | none, some table =>
    queueCall .vmapAddSet (.addSet table vmapName [])
    modifyRouter fun router => { router with sgPortVmaps := router.sgPortVmaps.insert vmapName table }
    return some (vmapName, table)

def addPort (vmap : String × Family) (verdict : Verdict) (proto : Protocol) (port : Int) : RouterM Unit := do
  match createPortVMapKeyData proto port with
  | none => return ()
  | some keyData =>
    let _ ← attempt (queueCall .groupSetAddElements (.setAddElements vmap.2 vmap.1 [⟨keyData, some verdict⟩]))

def addPorts (vmap : String × Family) (verdict : Verdict) (group : PortGroup) : RouterM Unit :=
  match portRange group.fromPort group.toPort with
  | none => throw .hang
  | some ports => forM ports (addPort vmap verdict group.proto)

/-- The body of the second `Once`: the rule that binds to the vmap is drafted if the vmap can be had. -/
def openVmap (table : Family) (vmapName : String) (slice : Slices.Slice) (build : Build) :
    RouterM (Option (String × Family) × Build) := do
  match ← attempt (getSecurityGroupPortVMap vmapName (some table)) with
  | .ok (some vmap) =>
    return (some vmap, build.draft table slice (portExprs (ipHeaderOffsets table).protoOffset vmap.1))
  | _ => return (none, build)

def addGroupPorts (verdict : Verdict) (group : PortGroup) : Option (String × Family) → RouterM Unit
  | none => return ()
  | some vmap => addPorts vmap verdict group

/-- The loop over a group's port groups. The ICMP rule and the rule that binds to the
vmap are each drafted once; `opened` is what the second `Once` left, if it has run. -/
def addPortGroups (sg : SecurityGroup) (table : Family) (vmapName : String) (slice : Slices.Slice) :
    List PortGroup → Bool → Option (Option (String × Family)) → Build → RouterM Build
  | [], _, _, build => return build
  | group :: groups, icmpAdded, opened, build =>
    if group.proto = .ICMP then
      addPortGroups sg table vmapName slice groups true opened
        (if icmpAdded then build else build.draft table slice (icmpExprs sg.verdict))
    else match opened with
      | some vmap => do
        addGroupPorts sg.verdict group vmap
        addPortGroups sg table vmapName slice groups icmpAdded (some vmap) build
      | none => do
        let (vmap, build) ← openVmap table vmapName slice build
        addGroupPorts sg.verdict group vmap
        addPortGroups sg table vmapName slice groups icmpAdded (some vmap) build

def buildTable (sg : SecurityGroup) (pgVmapName : Family → String) (pre : Slices.Slice) (build : Build)
    (table : Family) : RouterM Build := do
  if !sg.appliesTo table then return build
  let (heap, slice) := matchSlice sg table build.heap pre
  let build : Build := ⟨heap, build.drafts⟩
  if sg.ports.isEmpty then return build.draft table slice [.verdict sg.verdict]
  else addPortGroups sg table (pgVmapName table) slice sg.ports false none build

def Build.rules (build : Build) (target : Target) : List Rule :=
  build.drafts.map fun draft =>
    { table := draft.table, chain := target.chain, position := target.position draft.table
      exprs := Slices.read build.heap draft.exprs }

def setSecurityGroup (deps : Deps) (iifName : String) (sg : SecurityGroup) : RouterM Unit := do
  if sg.mixesFamilies then return ()
  let (sgKey, pgVmapName) := sg.createSecurityGroupKeys deps.sum64 iifName
  match ← targetChain sg iifName with
  | none => return ()
  | some target =>
    let (heap, pre) := appendIf (!target.pre.isEmpty) [] Slices.empty target.pre
    let build ← buildTable sg pgVmapName pre ⟨heap, []⟩ .ipv4
    let build ← buildTable sg pgVmapName pre build .ipv6
    saveFilterRules deps.nft sgKey (build.rules target) target.insert

def setSecurityGroups (deps : Deps) (sgs : List SecurityGroup) (iifName : String) : RouterM Unit :=
  forM sgs (setSecurityGroup deps iifName)

def deletePort (vmap : String × Family) (verdict : Verdict) (proto : Protocol) (port : Int) : RouterM Unit := do
  match createPortVMapKeyData proto port with
  | none => return ()
  | some keyData =>
    let _ ← attempt (queueCall .groupSetDeleteElements (.setDeleteElements vmap.2 vmap.1 [⟨keyData, some verdict⟩]))

def deletePorts (vmap : String × Family) (verdict : Verdict) (group : PortGroup) : RouterM Unit :=
  if group.proto = .ICMP then return ()
  else match portRange group.fromPort group.toPort with
    | none => throw .hang
    | some ports => forM ports (deletePort vmap verdict group.proto)

/-- Queues the removal of a group's ports from the vmap of one table, and adds the
vmap to those touched so far. -/
def deleteGroupPorts (sg : SecurityGroup) (pgVmapName : Family → String) (touched : List (String × Family))
    (table : Family) : RouterM (List (String × Family)) := do
  if !sg.appliesTo table then return touched
  match ← getSecurityGroupPortVMap (pgVmapName table) none with
  | none => return touched
  | some vmap =>
    forM sg.ports (deletePorts vmap sg.verdict)
    return touched ++ [vmap]

/-- Drops a vmap that has no elements left; says whether it did. -/
def dropIfEmpty (vmap : String × Family) : RouterM Bool := do
  match ← attempt (getSetElements .groupGetElements vmap.2 vmap.1) with
  | .error _ => return false
  | .ok elements =>
    if elements.entries.isEmpty then
      enqueue (.delSet vmap.2 vmap.1)
      modifyRouter fun router => { router with sgPortVmaps := router.sgPortVmaps.erase vmap.1 }
      return true
    else return false

/-- Removes the filter of a group, then the touched vmaps it left empty. -/
def deleteGroupFilter (deps : Deps) (sgKey : String) (touched : List (String × Family)) : RouterM Unit := do
  match ← attempt (deleteFilter deps.nft sgKey) with
  | .error _ => return ()
  | .ok _ =>
    let dropped ← touched.mapM dropIfEmpty
    if dropped.any id then discard (attempt (flush deps.nft .groupFlush))

def requireRules (sgKey : String) (sg : SecurityGroup) : RouterM Unit := do
  if ((← get).router.ruleMap.lookup sgKey).isNone then throw (.error (.noSecurityGroupRules sgKey sg))

/-- The source ranges over `r.table`, which is nil once the router is cleared. -/
def routerTables : RouterM (List Family) := do
  return if (← get).router.tables then families else []

/-- `vmapsTouched` is declared outside the loop, so it carries over from group to group. -/
def deleteSecurityGroup (deps : Deps) (iifName : String) (touched : List (String × Family)) (sg : SecurityGroup) :
    RouterM (List (String × Family)) := do
  let (sgKey, pgVmapName) := sg.createSecurityGroupKeys deps.sum64 iifName
  requireRules sgKey sg
  let tables ← routerTables
  let touched ← tables.foldlM (deleteGroupPorts sg pgVmapName) touched
  deleteGroupFilter deps sgKey touched
  return touched

def deleteSecurityGroups (deps : Deps) (sgs : List SecurityGroup) (iifName : String) : RouterM Unit :=
  discard (sgs.foldlM (deleteSecurityGroup deps iifName) [])

/-! Forwarding. -/

def destExprs (family : Family) (addr : Addr) : List Expr :=
  [.payload 1 .networkHeader (ipHeaderOffsets family).destOffset (ipHeaderOffsets family).addrLen,
    .cmp 1 addr.asSlice]

def dnatExprs (family : Family) (number : UInt8) (dstPort forwardPort : Int) (dstIP forwardIP : Addr) : List Expr :=
  (if dstIP.isValid then destExprs family dstIP else []) ++
    [.metaLoad .l4proto 1, .cmp 1 [number], .payload 1 .transportHeader 2 2, .cmp 1 (portBytes dstPort),
      .immediate 1 forwardIP.asSlice, .immediate 2 (portBytes forwardPort), .dnat family 1 1 2 2]

def forwardPortKey (dstPort forwardPort : Int) (dstIP forwardIP : Addr) (proto : Protocol) : String :=
  dstIP.text ++ ":" ++ dstPort.repr ++ ">" ++ forwardIP.text ++ ":" ++ forwardPort.repr ++ "|" ++ proto.name

def familyOf (is4 : Bool) : Family := if is4 then .ipv4 else .ipv6

def forwardPortRules (family : Family) (number : UInt8) (dstPort forwardPort : Int) (dstIP forwardIP : Addr) : List Rule :=
  [{ table := family, chain := "nat_prerouting", exprs := dnatExprs family number dstPort forwardPort dstIP forwardIP },
    { table := family, chain := "nat_postrouting", exprs := destExprs family forwardIP ++ [.masq] },
    { table := family, chain := "forward", exprs := destExprs family forwardIP ++ [.verdict .accept] }]

def forwardPortOnIP (deps : Deps) (dstPort forwardPort : Int) (dstIP forwardIP : Addr) (proto : Protocol) :
    RouterM String := do
  getTable
  match protoNumber proto with
  | none => throw (.error .unsupportedProtocol)
  | some number =>
    let ruleKey := forwardPortKey dstPort forwardPort dstIP forwardIP proto
    saveFilterRules deps.nft ruleKey
      (forwardPortRules (familyOf forwardIP.is4) number dstPort forwardPort dstIP forwardIP) false
    return ruleKey

def deleteForwardPortOnIP (deps : Deps) (dstPort forwardPort : Int) (dstIP forwardIP : Addr) (proto : Protocol) :
    RouterM Unit :=
  deleteFilter deps.nft (forwardPortKey dstPort forwardPort dstIP forwardIP proto)

def forwardPort (deps : Deps) (dstPort forwardPort : Int) (forwardIP : Addr) (proto : Protocol) : RouterM String :=
  forwardPortOnIP deps dstPort forwardPort .zero forwardIP proto

def deleteForwardPort (deps : Deps) (dstPort forwardPort : Int) (forwardIP : Addr) (proto : Protocol) : RouterM Unit :=
  deleteForwardPortOnIP deps dstPort forwardPort .zero forwardIP proto

def prefixWorld4 : Prefix := Prefix.of (.v4 0) 0
def prefixWorld6 : Prefix := Prefix.of (.v6 0 "") 0

def srcDstExprs (family : Family) (srcNetwork dstNetwork : Prefix) : List Expr :=
  let offsets := ipHeaderOffsets family
  networkExprs offsets.srcOffset offsets.addrLen srcNetwork ++
    (if dstNetwork ≠ prefixWorld4 ∧ dstNetwork ≠ prefixWorld6 then
      networkExprs offsets.destOffset offsets.addrLen dstNetwork
    else [])

def forwardTrafficRules (family : Family) (srcItfName dstItfName : String) (srcNetwork dstNetwork : Prefix)
    (withNat : Bool) : List Rule :=
  { table := family, chain := "forward"
    exprs := ifnameExprs .iifname srcItfName ++ ifnameExprs .oifname dstItfName ++
      (srcDstExprs family srcNetwork dstNetwork ++ [.verdict .accept]) } ::
    (if withNat then
      [{ table := family, chain := "nat_postrouting"
         exprs := ifnameExprs .oifname dstItfName ++ (srcDstExprs family srcNetwork dstNetwork ++ [.masq]) }]
    else [])

def forwardTrafficKey (srcItfName dstItfName : String) (srcNetwork dstNetwork : Prefix) : String :=
  srcItfName ++ ":" ++ srcNetwork.text ++ ">" ++ dstItfName ++ ":" ++ dstNetwork.text

def forwardTraffic (deps : Deps) (srcItfName dstItfName : String) (srcNetwork dstNetwork : Prefix) (withNat : Bool) :
    RouterM String := do
  if srcNetwork.addr.bitLen ≠ dstNetwork.addr.bitLen then throw (.error .incompatibleNetworks)
  getTable
  let ruleKey := forwardTrafficKey srcItfName dstItfName srcNetwork dstNetwork
  saveFilterRules deps.nft ruleKey
    (forwardTrafficRules (familyOf srcNetwork.addr.is4) srcItfName dstItfName srcNetwork dstNetwork withNat) false
  return ruleKey

def deleteForwardTraffic (deps : Deps) (srcItfName dstItfName : String) (srcNetwork dstNetwork : Prefix) : RouterM Unit :=
  deleteFilter deps.nft (forwardTrafficKey srcItfName dstItfName srcNetwork dstNetwork)

/-! Deny and allow lists. -/

inductive IPList where
  | deny | allow
deriving DecidableEq, Repr

/-- The set of a list, and the key its rules are filed under. -/
def IPList.name : IPList → String
  | deny => "ip_denylist"
  | allow => "ip_allowlist"

def createIPSetElements (ips : List Addr) : Family → List SetElement
  | .ipv4 => (ips.filter (·.is4)).map fun ip => ⟨ip.asSlice, none⟩
  | .ipv6 => (ips.filter (!·.is4)).map fun ip => ⟨ip.asSlice, none⟩

/-- The set slices are indexed before the call; its error is assigned to nothing. -/
def addIPSetElements (list : IPList) (ips : List Addr) : RouterM Unit :=
  forM families fun table => do
    if !(← get).router.made then throw (.panic .indexOutOfRange)
    let _ ← attempt (queueCall .ipSetAddElements (.setAddElements table list.name (createIPSetElements ips table)))

def setSize (list : IPList) (table : Family) : RouterM Nat := do
  match ← attempt (getSetElements .ipSetGetElements table list.name) with
  | .error _ => return 0
  | .ok elements => return elements.entries.length

def deleteIPSetElements (deps : Deps) (list : IPList) (ips : List Addr) : RouterM (Nat × Nat) := do
  forM families fun table => do
    if !(← get).router.made then throw (.panic .indexOutOfRange)
    let _ ← attempt (queueCall .ipSetDeleteElements (.setDeleteElements table list.name (createIPSetElements ips table)))
  flush deps.nft .ipSetFlush
  let size4 ← setSize list .ipv4
  let size6 ← setSize list .ipv6
  return (size4, size6)

def saddrExprs (table : Family) : Expr :=
  .payload 1 .networkHeader (ipHeaderOffsets table).srcOffset (ipHeaderOffsets table).addrLen

def denyListRules (table : Family) : List Rule :=
  [{ table, chain := "prerouting", exprs := [saddrExprs table, .lookup 1 "ip_denylist" false false, .verdict .drop] }]

def allowListRules (table : Family) : List Rule :=
  [{ table, chain := "prerouting", exprs := [.metaLoad .iifname 1, .cmp 1 (textBytes "lo\x00"), .verdict .accept] },
    { table, chain := "prerouting", exprs := [saddrExprs table, .lookup 1 "ip_allowlist" false true, .verdict .drop] }]

def addIPsToDenyList (deps : Deps) (ips : List Addr) : RouterM Unit := do
  if 0 < ips.length then
    addIPSetElements .deny ips
    if (← get).router.ruleMap.lookup "ip_denylist" |>.isNone then
      getChain
      saveFilterRules deps.nft "ip_denylist" (families.flatMap denyListRules) false

/-- The result of saving the rules is dropped: the operation returns nil regardless. -/
def addIPsToAllowList (deps : Deps) (ips : List Addr) : RouterM Unit := do
  if 0 < ips.length then
    addIPSetElements .allow ips
    if (← get).router.ruleMap.lookup "ip_allowlist" |>.isNone then
      getChain
      let _ ← attempt (saveFilterRules deps.nft "ip_allowlist" (families.flatMap allowListRules) false)

def deleteIPsFromList (deps : Deps) (list : IPList) (ips : List Addr) : RouterM Unit := do
  let (size4, size6) ← deleteIPSetElements deps list ips
  if size4 = 0 ∧ size6 = 0 then deleteFilter deps.nft list.name

def deleteIPsFromDenyList (deps : Deps) (ips : List Addr) : RouterM Unit := deleteIPsFromList deps .deny ips

def deleteIPsFromAllowList (deps : Deps) (ips : List Addr) : RouterM Unit := deleteIPsFromList deps .allow ips

def clear (deps : Deps) : RouterM Unit := do
  if (← get).router.tables then
    enqueue (.delTable .ipv4)
    enqueue (.delTable .ipv6)
    let _ ← attempt (flush deps.nft .clearFlush)
    modifyRouter fun router => { router with tables := false }

/-! Runs. -/

inductive Op where
  | setSecurityGroups (sgs : List SecurityGroup) (iifName : String)
  | deleteSecurityGroups (sgs : List SecurityGroup) (iifName : String)
  | forwardPort (dstPort forwardPort : Int) (forwardIP : Addr) (proto : Protocol)
  | deleteForwardPort (dstPort forwardPort : Int) (forwardIP : Addr) (proto : Protocol)
  | forwardPortOnIP (dstPort forwardPort : Int) (dstIP forwardIP : Addr) (proto : Protocol)
  | deleteForwardPortOnIP (dstPort forwardPort : Int) (dstIP forwardIP : Addr) (proto : Protocol)
  | forwardTraffic (srcItfName dstItfName : String) (srcNetwork dstNetwork : Prefix) (withNat : Bool)
  | deleteForwardTraffic (srcItfName dstItfName : String) (srcNetwork dstNetwork : Prefix)
  | addIPsToDenyList (ips : List Addr)
  | deleteIPsFromDenyList (ips : List Addr)
  | addIPsToAllowList (ips : List Addr)
  | deleteIPsFromAllowList (ips : List Addr)
  | deleteFilter (key : String)
  | clear

def Op.exec (deps : Deps) : Op → RouterM Unit
  | setSecurityGroups sgs iifName => Network.setSecurityGroups deps sgs iifName
  | deleteSecurityGroups sgs iifName => Network.deleteSecurityGroups deps sgs iifName
  | forwardPort dstPort port forwardIP proto => discard (Network.forwardPort deps dstPort port forwardIP proto)
  | deleteForwardPort dstPort port forwardIP proto => Network.deleteForwardPort deps dstPort port forwardIP proto
  | forwardPortOnIP dstPort port dstIP forwardIP proto =>
    discard (Network.forwardPortOnIP deps dstPort port dstIP forwardIP proto)
  | deleteForwardPortOnIP dstPort port dstIP forwardIP proto =>
    Network.deleteForwardPortOnIP deps dstPort port dstIP forwardIP proto
  | forwardTraffic srcItfName dstItfName srcNetwork dstNetwork withNat =>
    discard (Network.forwardTraffic deps srcItfName dstItfName srcNetwork dstNetwork withNat)
  | deleteForwardTraffic srcItfName dstItfName srcNetwork dstNetwork =>
    Network.deleteForwardTraffic deps srcItfName dstItfName srcNetwork dstNetwork
  | addIPsToDenyList ips => Network.addIPsToDenyList deps ips
  | deleteIPsFromDenyList ips => Network.deleteIPsFromDenyList deps ips
  | addIPsToAllowList ips => Network.addIPsToAllowList deps ips
  | deleteIPsFromAllowList ips => Network.deleteIPsFromAllowList deps ips
  | deleteFilter key => Network.deleteFilter deps.nft key
  | clear => Network.clear deps

/-- An operation together with the calls that fail while it runs. -/
structure Step where
  op : Op
  faults : Site → Nat → Bool := fun _ _ => false

def World.begin (world : World) (faults : Site → Nat → Bool) : World :=
  { world with faults, calls := fun _ => 0, failed := [] }

def World.run (deps : Deps) (world : World) (step : Step) : EStateM.Result Fault World Unit :=
  (step.op.exec deps).run (world.begin step.faults)

/-- The state an operation leaves behind, whichever way it ends. -/
def World.next (deps : Deps) (world : World) (step : Step) : World := Program.final (world.run deps step)

def World.boot : World := ⟨.unset, .empty, [], fun _ _ => false, fun _ => 0, []⟩

/-- The router `NewFilterRouter` returns when no call fails. -/
def World.fresh (deps : Deps) (denyAll : Bool) : World :=
  Program.final ((newFilterRouter deps denyAll).run (World.boot.begin fun _ _ => false))

/-- `NewFilterRouter` returned a router, over tables that were not there before. -/
def Fresh (deps : Deps) (denyAll : Bool) (world : World) : Prop :=
  ∃ faults, (newFilterRouter deps denyAll).run (World.boot.begin faults) = .ok () world

/-- The states of the runs whose every step is allowed in the state it starts from. -/
def Reaches (deps : Deps) (allowed : World → Step → Prop) : World → World → Prop :=
  Relation.ReflTransGen fun before after => ∃ step, allowed before step ∧ after = before.next deps step

theorem Reaches.step {deps : Deps} {allowed : World → Step → Prop} {start world : World}
    (reached : Reaches deps allowed start world) {step : Step} (taken : allowed world step) :
    Reaches deps allowed start (world.next deps step) :=
  reached.tail ⟨step, taken, rfl⟩

end MycsCommon.Network
