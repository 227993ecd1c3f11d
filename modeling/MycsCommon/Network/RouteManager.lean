import MycsCommon.Network.NetworkContext
import MycsCommon.Network.NetworkUtils

/-! Adding an address to an interface and taking its gateway from the subnet, of the route managers. -/

namespace MycsCommon.Network

def v4InV6Prefix : Bytes := List.replicate 10 0 ++ [0xff, 0xff]

/-- The sixteen bytes in which `net.ParseCIDR` returns an address of either family. -/
def Addr.as16 : Addr → Bytes
  | zero => List.replicate 16 0
  | v4 bits => v4InV6Prefix ++ bigEndian 4 bits
  | v6 bits _ => bigEndian 16 bits

/-- `IP.Mask`: nil where the lengths do not fit. -/
def ipMask (ip mask : Bytes) : Option Bytes :=
  let mask := if mask.length = 16 ∧ ip.length = 4 ∧ (mask.take 12).all (· = 0xff) then mask.drop 12 else mask
  let ip := if mask.length = 4 ∧ ip.length = 16 ∧ ip.take 12 = v4InV6Prefix then ip.drop 12 else ip
  if ip.length ≠ mask.length then none else some (List.zipWith (· &&& ·) ip mask)

/-- The mask of the parsed address, or that of a /24 where it has 32 ones. -/
def interfaceMask (network : Prefix) : Bytes :=
  let mask := cidrMask network.bits network.addr.bitLen
  if maskOnes mask = 32 then cidrMask 24 32 else mask

structure Links (Link Fault : Type) where
  linkByName : String → Except Fault Link
  addrAdd : Link → Bytes × Bytes → Except Fault Unit
  linkSetUp : Link → Except Fault Unit

structure RoutableInterface (Link : Type) where
  link : Link
  gatewayAddress : Option Bytes

variable {Link Fault : Type}

/-- The address is what `net.ParseCIDR` makes of its text. `IncIP` of nil leaves it nil. -/
def newRoutableInterface (links : Links Link Fault) (ifaceName : String) (address : Except Fault Prefix) :
    Except Fault (RoutableInterface Link) := do
  let network ← address
  let ip := network.addr.as16
  let mask := interfaceMask network
  let link ← links.linkByName ifaceName
  links.addrAdd link (ip, mask)
  links.linkSetUp link
  return { link, gatewayAddress := (ipMask ip mask).map incIP }

end MycsCommon.Network
