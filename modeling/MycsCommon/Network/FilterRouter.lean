import MycsCommon.Network.SecurityGroup
import MycsCommon.Library.RefCount
import MycsCommon.Library.Slices

/-! The state of the packet filter router, its calls to the nftables package, and the
rule bookkeeping they are made for. A call can fail on its own account; which ones do
is part of the state, so that every order of failures is a run of the model. -/

namespace MycsCommon.Network
open Library

/-- The places in the source where an nftables call can return an error. -/
inductive Site where
  | newAddSet | newFlush | newGetRules
  | inboundSetAddElements
  | ipSetAddElements | ipSetDeleteElements | ipSetFlush | ipSetGetElements
  | vmapAddSet | groupSetAddElements | groupSetDeleteElements | groupGetElements | groupFlush
  | saveGetRules | saveFlush | saveGetHandles
  | deleteDelRule | deleteFlush
  | clearFlush
deriving DecidableEq, Repr

inductive RouterError where
  | nft (site : Site)
  | notInitialized
  | unsupportedProtocol
  | incompatibleNetworks
  | noFilterRules (key : String)
  | noSecurityGroupRules (key : String) (sg : SecurityGroup)
  | savedRuleNotFound (key : String) (rule : Rule)

inductive Panic where
  | indexOutOfRange
  | byteString
deriving DecidableEq, Repr

/-- How an operation can stop short: with a Go error, a panic, or not at all. -/
inductive Fault where
  | error (error : RouterError)
  | panic (panic : Panic)
  | hang

structure Router where
  -- the set slices and the maps exist; false before `NewFilterRouter`
  made : Bool
  -- `table` and `chains` are not nil; false again after `Clear`
  tables : Bool
  forwardChainCtPos : Family → Nat
  inboundChains : List String
  -- each port group vmap with its table
  sgPortVmaps : AList (fun _ : String => Family)
  ruleMap : RefCount.Owners String Rule
  ruleRef : AList (fun _ : String => Int)

def Router.unset : Router := ⟨false, false, fun _ => 0, [], ∅, ∅, ∅⟩

structure World where
  router : Router
  kernel : Kernel
  -- the messages handed to the package since the last flush
  queue : List Msg
  -- whether the n-th call at a site fails
  faults : Site → Nat → Bool
  calls : Site → Nat
  failed : List (Site × Nat)

abbrev RouterM := EStateM Fault World

def modifyRouter (change : Router → Router) : RouterM Unit :=
  modify fun world => { world with router := change world.router }

/-- Go code that keeps an error as a value and goes on. -/
def attempt {α : Type} (program : RouterM α) : RouterM (Except RouterError α) := fun world =>
  match program.run world with
  | .ok value after => .ok (.ok value) after
  | .error (.error error) after => .ok (.error error) after
  | .error fault after => .error fault after

/-! Calls to the package. -/

def count (site : Site) : RouterM Nat :=
  modifyGet fun world => (world.calls site,
    { world with calls := fun other => if other = site then world.calls site + 1 else world.calls other })

def fail {α : Type} (site : Site) (index : Nat) : RouterM α := do
  modify fun world => { world with failed := world.failed ++ [(site, index)] }
  throw (.error (.nft site))

def call (site : Site) : RouterM Unit := do
  let index ← count site
  if (← get).faults site index then fail site index

def enqueue (msg : Msg) : RouterM Unit :=
  modify fun world => { world with queue := world.queue ++ [msg] }

def queueCall (site : Site) (msg : Msg) : RouterM Unit := do
  call site
  enqueue msg

/-- The rules come back as they were added. (The library returns a dnat expression with `Specified` set.) -/
def getRules (site : Site) (table : Family) (chain : String) : RouterM (List Rule) := do
  call site
  return (← get).kernel.chainRules table chain

def getSetElements (site : Site) (table : Family) (name : String) : RouterM Elements := do
  let index ← count site
  let world ← get
  if world.faults site index then fail site index
  else match world.kernel.sets table name with
    | some elements => return elements
    | none => fail site index

/-- The package refuses to delete a rule it has no handle for. -/
def delRule (site : Site) (rule : Rule) : RouterM Unit := do
  let index ← count site
  if (← get).faults site index || rule.handle == 0 then fail site index
  else enqueue (.delRule rule.table rule.chain rule.handle)

/-- An empty queue is not sent; a refused one is dropped. -/
def flush (nft : Nft) (site : Site) : RouterM Unit := do
  if (← get).queue.isEmpty then return ()
  let index ← count site
  let world ← get
  match if world.faults site index then none else (world.kernel.commit nft world.queue).toOption with
  | some kernel => set { world with kernel, queue := [] }
  | none =>
    set { world with queue := [] }
    fail site index

/-! Finding a rule among the committed ones. -/

/-- `checkRuleMatch` over the candidate's expressions: it stops at the first that
differs and indexes the searched rule's data without looking at its length. -/
def matchExprs (nft : Nft) (family : Family) : List Expr → List nft.Wire → Except Panic Bool
  | [], _ => .ok true
  | expr :: exprs, data =>
    match nft.marshal family expr, data with
    | none, _ => .ok false
    | some _, [] => .error .indexOutOfRange
    | some wire, expected :: rest => if wire = expected then matchExprs nft family exprs rest else .ok false

def checkRuleMatch (nft : Nft) (rule : Rule) (data : List nft.Wire) (candidate : Rule) : Except Panic Bool :=
  if candidate.flags = rule.flags ∧ candidate.userData = rule.userData then
    matchExprs nft candidate.table candidate.exprs data
  else .ok false

/-- The first match in the order of the list: the goroutines run one after another. -/
def findRuleInList (nft : Nft) (rule : Rule) (ruleList : List Rule) : Except Panic (Option Rule) :=
  match rule.exprs.mapM (nft.marshal rule.table) with
  | none => .ok none
  | some data => do
    let found ← ruleList.filterM (checkRuleMatch nft rule data)
    return found.head?

def findRule (nft : Nft) (rule : Rule) (ruleList : List Rule) : RouterM (Option Rule) :=
  match findRuleInList nft rule ruleList with
  | .ok found => return found
  | .error panic => throw (.panic panic)

/-! Saving and deleting the rules of a key. -/

def Rule.refKey (rule : Rule) : String := rule.table.tableName ++ "_" ++ rule.handle.repr

def Router.refCount (router : Router) (rule : Rule) : Int := (router.ruleRef.lookup rule.refKey).getD 0

def Router.acquire (router : Router) (rule : Rule) : Router :=
  { router with ruleRef := router.ruleRef.insert rule.refKey (router.refCount rule + 1) }

def Router.file (router : Router) (key : String) (rules : List Rule) : Router :=
  { router with ruleMap := router.ruleMap.insert key (RefCount.held router.ruleMap key ++ rules) }

def queueMissing (nft : Nft) (insert : Bool) : List Rule → RouterM Unit
  | [] => return ()
  | rule :: rules => do
    let savedRules ← getRules .saveGetRules rule.table rule.chain
    let foundRule ← findRule nft rule savedRules
    if foundRule.isNone then enqueue (if insert then .insertRule rule else .addRule rule)
    queueMissing nft insert rules

def captureHandles (nft : Nft) (key : String) : List Rule → RouterM (List Rule)
  | [] => return []
  | rule :: rules => do
    let savedRules ← getRules .saveGetHandles rule.table rule.chain
    match ← findRule nft rule savedRules with
    | none => throw (.error (.savedRuleNotFound key rule))
    | some foundRule =>
      let rule := { rule with handle := foundRule.handle }
      modifyRouter (·.acquire rule)
      return rule :: (← captureHandles nft key rules)

def saveFilterRules (nft : Nft) (key : String) (rules : List Rule) (insert : Bool) : RouterM Unit := do
  queueMissing nft insert rules
  flush nft .saveFlush
  if 0 < rules.length then
    let saved ← captureHandles nft key rules
    modifyRouter (·.file key saved)

def releaseRules : List Rule → RouterM Unit
  | [] => return ()
  | rule :: rules => do
    let ruleRefCount := (← get).router.refCount rule
    if ruleRefCount = 1 then
      delRule .deleteDelRule rule
      modifyRouter fun router => { router with ruleRef := router.ruleRef.erase rule.refKey }
    else
      modifyRouter fun router => { router with ruleRef := router.ruleRef.insert rule.refKey (ruleRefCount - 1) }
    releaseRules rules

def deleteFilter (nft : Nft) (key : String) : RouterM Unit := do
  match (← get).router.ruleMap.lookup key with
  | none => throw (.error (.noFilterRules key))
  | some rules =>
    releaseRules rules
    modifyRouter fun router => { router with ruleMap := router.ruleMap.erase key }
    flush nft .deleteFlush

end MycsCommon.Network
