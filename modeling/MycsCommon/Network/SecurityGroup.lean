import MycsCommon.Network.Nftables
import MycsCommon.Library.Hex

/-! Security groups: the names they are filed under and the expressions their rules
are made of. -/

namespace MycsCommon.Network
open Library

structure Protocol where
  name : String
deriving DecidableEq, Repr

def Protocol.ICMP : Protocol := ⟨"icmp"⟩
def Protocol.TCP : Protocol := ⟨"tcp"⟩
def Protocol.UDP : Protocol := ⟨"udp"⟩

structure PortGroup where
  proto : Protocol
  fromPort : Int := 0
  toPort : Int := 0
deriving DecidableEq, Repr

structure SecurityGroup where
  deny : Bool := false
  srcNetwork : Prefix := .none
  dstNetwork : Prefix := .none
  oifname : String := ""
  ports : List PortGroup := []
deriving DecidableEq

/-- `utils.HashString`, over the 64-bit HighwayHash keyed by the package's own key.
The key always has the 32 bytes the hash asks for, so the call cannot fail. -/
def hashString (sum64 : Bytes → Bytes) (text label : String) : String :=
  label ++ "_" ++ Hex.encode (sum64 (textBytes text))

namespace SecurityGroup

def networkText (network : Prefix) : String := if network.isValid then "_" ++ network.text else ""

def portGroupText (group : PortGroup) : String :=
  "-" ++ group.proto.name ++
    (if group.proto ≠ .ICMP then "." ++ group.fromPort.repr ++ "-" ++ group.toPort.repr else "")

/-- The part of the signature that names the port group vmaps. -/
def vmapSignature (sg : SecurityGroup) (iifName : String) : String :=
  (if iifName ≠ "" then "_" ++ iifName else "") ++ networkText sg.srcNetwork ++ networkText sg.dstNetwork

def signature (sg : SecurityGroup) (iifName : String) : String :=
  sg.ports.foldl (fun text group => text ++ portGroupText group) (sg.vmapSignature iifName)

def sgKey (sum64 : Bytes → Bytes) (sg : SecurityGroup) (iifName : String) : String :=
  hashString sum64 (sg.signature iifName) "sgs"

def pgVmapName (sum64 : Bytes → Bytes) (sg : SecurityGroup) (iifName : String) : Family → String
  | .ipv4 => hashString sum64 (sg.vmapSignature iifName) "sgs" ++ "_0"
  | .ipv6 => hashString sum64 (sg.vmapSignature iifName) "sgs" ++ "_1"

def createSecurityGroupKeys (sum64 : Bytes → Bytes) (sg : SecurityGroup) (iifName : String) :
    String × (Family → String) :=
  (sg.sgKey sum64 iifName, sg.pgVmapName sum64 iifName)

def mixesFamilies (sg : SecurityGroup) : Bool :=
  sg.srcNetwork.isValid && sg.dstNetwork.isValid && sg.srcNetwork.addr.is4 != sg.dstNetwork.addr.is4

/-- The tables a group applies to: those of its networks, or both without any. -/
def appliesTo (sg : SecurityGroup) (table : Family) : Bool :=
  if sg.srcNetwork.isValid || sg.dstNetwork.isValid then
    match table with
    | .ipv4 => sg.srcNetwork.addr.is4 || sg.dstNetwork.addr.is4
    | .ipv6 => sg.srcNetwork.addr.is6 || sg.dstNetwork.addr.is6
  else true

def verdict (sg : SecurityGroup) : Verdict := if sg.deny then .drop else .accept

end SecurityGroup

structure HeaderOffsets where
  addrLen : Nat
  srcOffset : Nat
  destOffset : Nat
  protoOffset : Nat

def ipHeaderOffsets : Family → HeaderOffsets
  | .ipv4 => ⟨4, 12, 16, 9⟩
  | .ipv6 => ⟨16, 8, 24, 6⟩

def ifnameExprs (key : MetaKey) (name : String) : List Expr :=
  [.metaLoad key 1, .cmp 1 (textBytes (name ++ "\x00"))]

def networkExprs (offset addrLen : Nat) (network : Prefix) : List Expr :=
  [.payload 1 .networkHeader offset addrLen,
    .bitwise 1 1 addrLen (cidrMask network.bits (addrLen * 8)) (List.replicate addrLen 0),
    .cmp 1 network.maskedAddr.asSlice]

def icmpExprs (verdict : Verdict) : List Expr := [.metaLoad .l4proto 1, .cmp 1 [1], .verdict verdict]

def portExprs (protoOffset : Nat) (vmap : String) : List Expr :=
  [.payload 9 .networkHeader protoOffset 1, .payload 10 .transportHeader 2 2, .lookup 9 vmap true false]

def protoNumber (proto : Protocol) : Option UInt8 :=
  if proto = .ICMP then some 1 else if proto = .TCP then some 6 else if proto = .UDP then some 17 else none

/-- `binaryutil.BigEndian.PutUint16(uint16(port))`: the conversion keeps the low 16 bits. -/
def portBytes (port : Int) : Bytes := bigEndian 2 (BitVec.ofInt 16 port)

/-- The key of a port in a port group vmap, each field on a four byte boundary. -/
def createPortVMapKeyData (proto : Protocol) (port : Int) : Option Bytes :=
  (protoNumber proto).map fun number => [number, 0, 0, 0] ++ portBytes port ++ [0, 0]

def maxInt : Int := 2 ^ 63 - 1

/-- The values of `p` in `for p := fromPort; p <= toPort; p++`. The loop does not end
where `toPort` is the largest integer, since `p` then wraps around. -/
def portRange (fromPort toPort : Int) : Option (List Int) :=
  if fromPort ≤ toPort ∧ maxInt ≤ toPort then none
  else some ((List.range (toPort - fromPort + 1).toNat).map fun index => fromPort + index)

end MycsCommon.Network
