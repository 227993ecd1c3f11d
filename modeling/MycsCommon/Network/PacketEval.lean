import MycsCommon.Network.Operations
import MycsCommon.Library.Registers

/-! What nftables does with a packet, as its documentation has it: the expressions of a
rule load bytes into registers, compare them and look them up; the first that does not
hold ends the rule, and the first verdict ends the chain. -/

namespace MycsCommon.Network
open Library

/-- Where the IP headers have their fields. -/
structure HeaderLayout where
  source : Nat
  destination : Nat
  length : Nat
  protocol : Nat

def headerLayout : Family → HeaderLayout
  -- the IPv6 field is the next header, the protocol where there are no extension headers
  | .ipv4 => ⟨12, 16, 4, 9⟩
  | .ipv6 => ⟨8, 24, 16, 6⟩

inductive Addresses where
  | ipv4 (source destination : BitVec 32)
  | ipv6 (source destination : BitVec 128)

namespace Addresses

def family : Addresses → Family
  | ipv4 .. => .ipv4
  | ipv6 .. => .ipv6

def source : Addresses → Addr
  | ipv4 source _ => .v4 source
  | ipv6 source _ => .v6 source ""

def destination : Addresses → Addr
  | ipv4 _ destination => .v4 destination
  | ipv6 _ destination => .v6 destination ""

end Addresses

/-- The name of a network interface. -/
structure InterfaceName (name : String) : Prop where
  short : (textBytes name).length ≤ 15
  free : 0 ∉ textBytes name

/-- A packet with the headers it has on the wire. An interface it has not got has the empty name. -/
structure Packet where
  iifName : String
  oifName : String
  incoming : InterfaceName iifName
  outgoing : InterfaceName oifName
  addresses : Addresses
  protocol : UInt8
  ctState : Bytes
  network : Bytes
  transport : Bytes
  ctStateLength : ctState.length = 4
  sourceField : (network.drop (headerLayout addresses.family).source).take (headerLayout addresses.family).length =
    addresses.source.asSlice
  destinationField : (network.drop (headerLayout addresses.family).destination).take (headerLayout addresses.family).length =
    addresses.destination.asSlice
  protocolField : (network.drop (headerLayout addresses.family).protocol).take 1 = [protocol]

namespace Packet

def family (packet : Packet) : Family := packet.addresses.family

/-- The destination port, in both TCP and UDP headers the second field. -/
def port (packet : Packet) : Option (BitVec 16) :=
  match packet.transport.drop 2 with
  | high :: low :: _ => some (high.toBitVec ++ low.toBitVec)
  | _ => none

def header (packet : Packet) : PayloadBase → Bytes
  | .networkHeader => packet.network
  | .transportHeader => packet.transport

end Packet

/-- Registers 1 to 4 have 16 bytes, those from 8 on are the quarters of the same places. -/
def registerPlace (register : Nat) : Nat := if register < 8 then 16 * register else 4 * (register - 4)

/-- A value fills its last four bytes up with zeros. -/
def padded (bytes : Bytes) : Bytes := bytes ++ List.replicate ((4 - bytes.length % 4) % 4) 0

def paddedName (name : String) : Bytes := textBytes name ++ List.replicate (16 - (textBytes name).length) 0

inductive Flow where
  | next | skip
  | verdict (verdict : Verdict)
deriving DecidableEq

/-- The element whose key the registers hold; all keys of a set have the same length. -/
def findElement (elements : Elements) (registers : Registers.File) (place : Nat) : Option (Option Verdict) :=
  (elements.entries.find? fun entry => Registers.fetch registers place entry.1.length = entry.1).map Sigma.snd

def evalLookup (elements : Option Elements) (registers : Registers.File) (place : Nat) (isDestRegSet invert : Bool) : Flow :=
  match elements.bind (findElement · registers place) with
  | some (some verdict) => if isDestRegSet then .verdict verdict else if invert then .skip else .next
  | some none => if isDestRegSet || invert then .skip else .next
  | none => if !isDestRegSet && invert then .next else .skip

def Expr.eval (kernel : Kernel) (packet : Packet) (registers : Registers.File) : Expr → Registers.File × Flow
  | .payload register base offset len =>
    let bytes := (packet.header base).drop offset
    if len ≤ bytes.length then (Registers.store registers (registerPlace register) (padded (bytes.take len)), .next)
    else (registers, .skip)
  | .bitwise source dest len mask xor =>
    let bytes := Registers.fetch registers (registerPlace source) len
    (Registers.store registers (registerPlace dest) (List.zipWith (· ^^^ ·) (List.zipWith (· &&& ·) bytes mask) xor), .next)
  | .cmp register data =>
    (registers, if Registers.fetch registers (registerPlace register) data.length = data then .next else .skip)
  | .metaLoad .iifname register => (Registers.store registers (registerPlace register) (paddedName packet.iifName), .next)
  | .metaLoad .oifname register => (Registers.store registers (registerPlace register) (paddedName packet.oifName), .next)
  | .metaLoad .l4proto register => (Registers.store registers (registerPlace register) (padded [packet.protocol]), .next)
  | .ctState register => (Registers.store registers (registerPlace register) packet.ctState, .next)
  | .lookup register setName isDestRegSet invert =>
    (registers, evalLookup (kernel.sets packet.family setName) registers (registerPlace register) isDestRegSet invert)
  | .verdict kind => (registers, .verdict kind)
  | .immediate register data => (Registers.store registers (registerPlace register) (padded data), .next)
  -- the address translation itself is not modelled, the packet goes on
  | .dnat .. | .masq => (registers, .verdict .accept)

def evalExprs (kernel : Kernel) (packet : Packet) : List Expr → Registers.File → Registers.File × Option Verdict
  | [], registers => (registers, none)
  | expr :: exprs, registers =>
    match expr.eval kernel packet registers with
    | (registers, .next) => evalExprs kernel packet exprs registers
    | (registers, .skip) => (registers, none)
    | (registers, .verdict verdict) => (registers, some verdict)

/-- The rules of a chain, with `jump` for the chains they jump to. -/
def evalRules (kernel : Kernel) (packet : Packet) (jump : String → Registers.File → Registers.File × Option Verdict) :
    List Rule → Registers.File → Registers.File × Option Verdict
  | [], registers => (registers, none)
  | rule :: rules, registers =>
    match evalExprs kernel packet rule.exprs registers with
    | (registers, none) => evalRules kernel packet jump rules registers
    | (registers, some (.jump chain)) =>
      match jump chain registers with
      | (registers, none) => evalRules kernel packet jump rules registers
      | (registers, some verdict) => (registers, some verdict)
    | (registers, some verdict) => (registers, some verdict)

/-- Jumps nest at most as deep as `depth`. -/
def evalChain (kernel : Kernel) (packet : Packet) : Nat → String → Registers.File → Registers.File × Option Verdict
  | 0, _, registers => (registers, none)
  | depth + 1, chain, registers =>
    evalRules kernel packet (evalChain kernel packet depth) (kernel.chainRules packet.family chain) registers

def Policy.verdict : Policy → Verdict
  | accept => .accept
  | drop => .drop

/-- What becomes of a packet at a hooked chain, whatever the registers held before. -/
def Kernel.filter (kernel : Kernel) (packet : Packet) (chain : String) (registers : Registers.File) : Option Verdict :=
  match kernel.chains packet.family chain with
  | some (some policy) => some ((evalChain kernel packet 16 chain registers).2.getD policy.verdict)
  | _ => none

/-! What a security group is meant to say about a packet. -/

namespace Prefix

def contains (network : Prefix) (addr : Addr) : Bool :=
  network.isValid && network.addr.is4 == addr.is4 && addr.masked (network.bitsPlusOne - 1) == network.maskedAddr

end Prefix

def PortGroup.admits (group : PortGroup) (packet : Packet) : Bool :=
  protoNumber group.proto == some packet.protocol &&
    (group.proto == .ICMP || packet.port.any fun port => group.fromPort ≤ port.toNat && (port.toNat : Int) ≤ group.toPort)

namespace SecurityGroup

def matchesNetworks (sg : SecurityGroup) (iifName : String) (packet : Packet) : Bool :=
  (iifName == "" || packet.iifName == iifName) && (!sg.srcNetwork.isValid || sg.srcNetwork.contains packet.addresses.source) &&
    (sg.oifname == "" || packet.oifName == sg.oifname) &&
    (!sg.dstNetwork.isValid || sg.dstNetwork.contains packet.addresses.destination)

def covers (sg : SecurityGroup) (iifName : String) (packet : Packet) : Bool :=
  sg.matchesNetworks iifName packet && (sg.ports.isEmpty || sg.ports.any (·.admits packet))

/-- The hooked chain whose packets the group is about. -/
def hook (sg : SecurityGroup) : String := if sg.dstNetwork.isValid then "forward" else "input"

def decides (sg : SecurityGroup) (denyAll : Bool) (iifName : String) (packet : Packet) : Verdict :=
  if sg.covers iifName packet then sg.verdict else if denyAll then .drop else .accept

end SecurityGroup

end MycsCommon.Network
