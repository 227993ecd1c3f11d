import MycsCommon.Network.Netip
import Mathlib.Data.List.AList

/-! The nftables objects the router builds and the kernel that keeps them. Messages
only take effect when a whole batch of them is accepted; the kernel refuses a batch
that names something missing, contradicts a map element or removes a set in use. -/

namespace MycsCommon.Network

inductive Family where
  | ipv4 | ipv6
deriving DecidableEq, Repr

def Family.tableName : Family → String
  | ipv4 => "mycs_router_ipv4"
  | ipv6 => "mycs_router_ipv6"

inductive Policy where
  | accept | drop
deriving DecidableEq, Repr

inductive PayloadBase where
  | networkHeader | transportHeader
deriving DecidableEq, Repr

inductive MetaKey where
  | iifname | oifname | l4proto
deriving DecidableEq, Repr

inductive Verdict where
  | accept | drop
  | jump (chain : String)
deriving DecidableEq, Repr

inductive Expr where
  | payload (destRegister : Nat) (base : PayloadBase) (offset len : Nat)
  | bitwise (sourceRegister destRegister len : Nat) (mask xor : Bytes)
  -- the router compares for equality only
  | cmp (register : Nat) (data : Bytes)
  | metaLoad (key : MetaKey) (register : Nat)
  | ctState (register : Nat)
  -- a verdict map is looked up into register 0, a plain set has no destination
  | lookup (sourceRegister : Nat) (setName : String) (isDestRegSet invert : Bool)
  | verdict (kind : Verdict)
  | immediate (register : Nat) (data : Bytes)
  | dnat (family : Family) (regAddrMin regAddrMax regProtoMin regProtoMax : Nat)
  | masq
deriving DecidableEq, Repr

/-- A rule as the router builds it and as the kernel keeps it. The kernel fills in
the handle; `stamp` is ghost state, the number of rules it had taken before. -/
structure Rule where
  table : Family
  chain : String
  position : Nat := 0
  handle : Nat := 0
  flags : Nat := 0
  userData : Bytes := []
  exprs : List Expr
  stamp : Nat := 0
deriving DecidableEq, Repr

structure SetElement where
  key : Bytes
  verdictData : Option Verdict := none
deriving DecidableEq, Repr

abbrev Elements := AList (fun _ : Bytes => Option Verdict)

structure Kernel where
  -- a hooked chain has a policy, a chain that is only jumped to has none
  chains : Family → String → Option (Option Policy)
  rules : List Rule
  sets : Family → String → Option Elements
  clock : Nat

inductive Msg where
  | addTable (table : Family)
  | delTable (table : Family)
  | addChain (table : Family) (name : String) (policy : Option Policy)
  | addSet (table : Family) (name : String) (elements : List SetElement)
  | delSet (table : Family) (name : String)
  | setAddElements (table : Family) (name : String) (elements : List SetElement)
  | setDeleteElements (table : Family) (name : String) (elements : List SetElement)
  | addRule (rule : Rule)
  | insertRule (rule : Rule)
  | delRule (table : Family) (chain : String) (handle : Nat)

inductive Errno where
  | noEntry | exists | busy
deriving DecidableEq, Repr

/-- What the router relies on in the nftables package beyond the message semantics:
the handles the kernel hands out and the wire form of an expression. -/
structure Nft where
  handle : Nat → List Nat → Nat
  handle_fresh : ∀ clock live, handle clock live ∉ live
  handle_pos : ∀ clock live, 0 < handle clock live
  Wire : Type
  wireEq : DecidableEq Wire
  marshal : Family → Expr → Option Wire
  marshal_total : ∀ family expr, (marshal family expr).isSome
  marshal_injective : ∀ family, Function.Injective (marshal family)

instance (nft : Nft) : DecidableEq nft.Wire := nft.wireEq

private theorem le_highest {handle : Nat} {live : List Nat} (member : handle ∈ live) : handle ≤ live.foldr max 0 := by
  induction live with
  | nil => simp at member
  | cons first live ih =>
    rcases List.mem_cons.mp member with rfl | later
    · exact Nat.le_max_left _ _
    · exact Nat.le_trans (ih later) (Nat.le_max_right _ _)

/-- A package that counts handles up and sends every expression as it is. -/
def Nft.counting : Nft where
  handle _ live := live.foldr max 0 + 1
  handle_fresh := by
    intro _ live member
    have := le_highest member
    omega
  handle_pos := fun _ _ => Nat.succ_pos _
  Wire := Expr
  wireEq := inferInstance
  marshal _ expr := some expr
  marshal_total := fun _ _ => rfl
  marshal_injective := fun _ _ _ same => Option.some.inj same

def Expr.setName? : Expr → Option String
  | .lookup _ setName _ _ => some setName
  | _ => none

def Rule.inChain (table : Family) (chain : String) (rule : Rule) : Bool :=
  rule.table == table && rule.chain == chain

def Rule.uses (table : Family) (setName : String) (rule : Rule) : Bool :=
  rule.table == table && rule.exprs.any (·.setName? == some setName)

def addElement (elements : Elements) (element : SetElement) : Except Errno Elements :=
  match elements.lookup element.key with
  | none => .ok (elements.insert element.key element.verdictData)
  | some data => if data = element.verdictData then .ok elements else .error .exists

def deleteElement (elements : Elements) (element : SetElement) : Except Errno Elements :=
  match elements.lookup element.key with
  | none => .error .noEntry
  | some _ => .ok (elements.erase element.key)

namespace Kernel

def empty : Kernel := ⟨fun _ _ => none, [], fun _ _ => none, 0⟩

/-- The committed rules of a chain, in the order packets meet them. -/
def chainRules (kernel : Kernel) (table : Family) (chain : String) : List Rule :=
  kernel.rules.filter (Rule.inChain table chain)

def handles (kernel : Kernel) (table : Family) : List Nat :=
  (kernel.rules.filter (·.table == table)).map Rule.handle

def setSet (kernel : Kernel) (table : Family) (name : String) (elements : Option Elements) : Kernel :=
  { kernel with sets := fun other set =>
      if other = table ∧ set = name then elements else kernel.sets other set }

/-- A rule is taken only into a chain that exists and with sets that exist. Empty masks and data, which the
kernel refuses as well, come only of networks that are none. -/
def accepts (kernel : Kernel) (rule : Rule) : Bool :=
  (kernel.chains rule.table rule.chain).isSome &&
    rule.exprs.all fun expr => match expr.setName? with
      | some name => (kernel.sets rule.table name).isSome
      | none => true

def enter (nft : Nft) (kernel : Kernel) (rule : Rule) : Rule :=
  { rule with handle := nft.handle kernel.clock (kernel.handles rule.table), stamp := kernel.clock }

def apply (nft : Nft) (kernel : Kernel) : Msg → Except Errno Kernel
  | .addTable _ => .ok kernel
  | .delTable table => .ok { kernel with
      chains := fun other name => if other = table then none else kernel.chains other name
      rules := kernel.rules.filter (·.table != table)
      sets := fun other name => if other = table then none else kernel.sets other name }
  | .addChain table name policy =>
    match kernel.chains table name with
    | some _ => .ok kernel
    | none => .ok { kernel with chains := fun other chain =>
        if other = table ∧ chain = name then some policy else kernel.chains other chain }
  | .addSet table name elements => do
    let added ← elements.foldlM addElement ((kernel.sets table name).getD ∅)
    .ok (kernel.setSet table name (some added))
  | .delSet table name =>
    if (kernel.sets table name).isNone then .error .noEntry
    else if kernel.rules.any (Rule.uses table name) then .error .busy
    else .ok (kernel.setSet table name none)
  | .setAddElements table name elements =>
    match kernel.sets table name with
    | none => .error .noEntry
    | some present => do
      let added ← elements.foldlM addElement present
      .ok (kernel.setSet table name (some added))
  | .setDeleteElements table name elements =>
    match kernel.sets table name with
    | none => .error .noEntry
    | some present => do
      let left ← elements.foldlM deleteElement present
      .ok (kernel.setSet table name (some left))
  | .addRule rule =>
    if kernel.accepts rule then
      .ok { kernel with rules := kernel.rules ++ [kernel.enter nft rule], clock := kernel.clock + 1 }
    else .error .noEntry
  | .insertRule rule =>
    -- a position is the handle of the rule to stand in front of; without one the rule goes first
    let target := fun present : Rule => present.inChain rule.table rule.chain && present.handle == rule.position
    if !kernel.accepts rule then .error .noEntry
    else if rule.position = 0 then
      .ok { kernel with rules := kernel.enter nft rule :: kernel.rules, clock := kernel.clock + 1 }
    else if kernel.rules.any target then
      .ok { kernel with
        rules := kernel.rules.takeWhile (!target ·) ++ kernel.enter nft rule :: kernel.rules.dropWhile (!target ·)
        clock := kernel.clock + 1 }
    else .error .noEntry
  | .delRule table chain handle =>
    let target := fun present : Rule => present.inChain table chain && present.handle == handle
    if kernel.rules.any target then .ok { kernel with rules := kernel.rules.filter (!target ·) }
    else .error .noEntry

/-- A batch is accepted as a whole or refused as a whole. -/
def commit (nft : Nft) (kernel : Kernel) (queue : List Msg) : Except Errno Kernel :=
  queue.foldlM (apply nft) kernel

end Kernel

end MycsCommon.Network
