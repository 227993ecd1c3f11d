import MycsCommon.Library.BigEndian
import MycsCommon.Network.Netip
import MycsCommon.Network.Nftables

/-! How the network context reads the routing tables on Linux. Routes, interfaces and their
addresses are what the host answers. -/

namespace MycsCommon.Network

/-- `netip.AddrFromSlice`: four bytes or sixteen. -/
def addrFromSlice (slice : Bytes) : Option Addr :=
  if slice.length = 4 then some (.v4 (BitVec.ofNat 32 (Library.BigEndian.decode slice)))
  else if slice.length = 16 then some (.v6 (BitVec.ofNat 128 (Library.BigEndian.decode slice)) "")
  else none

/-- `IPMask.Size`: how many ones the mask starts with, if it has none after them. -/
def maskOnes (mask : Bytes) : Nat := (go mask).getD 0
where
  go : Bytes → Option Nat
    | [] => some 0
    | byte :: rest =>
      if byte = 0xff then (go rest).map (· + 8)
      else if rest.all (· = 0) then (List.range 8).find? fun ones => byte = ~~~(0xff >>> UInt8.ofNat ones)
      else none

/-- A route of the kernel's tables. A destination has an address and a mask. -/
structure NetlinkRoute where
  linkIndex : Int
  scope : UInt8
  gw : Option Bytes
  src : Option Bytes
  dst : Option (Bytes × Bytes)

/-- The addresses are texts, as `net.Addr` gives them. -/
structure Interface (Fault : Type) where
  name : String
  addrs : Except Fault (List String)

structure Host (Fault : Type) where
  routeList : Family → Except Fault (List NetlinkRoute)
  interfaceByIndex : Int → Except Fault (Interface Fault)
  parsePrefix : String → Except Fault Prefix

structure Route where
  interfaceIndex : Int
  interfaceName : String
  isInterfaceScoped : Bool
  gatewayIP : Addr := .zero
  srcIP : Addr := .zero
  destIP : Addr := .zero
  destCIDR : Prefix := .none

/-- The static routes stand with the table they were read from, which the source does not keep. -/
structure Context where
  defaultIPv4Route : Option Route := none
  defaultIPv6Route : Option Route := none
  staticRoutes : List (Family × Route) := []

def Context.setDefault (network : Context) (r : Route) : Family → Context
  | .ipv4 => { network with defaultIPv4Route := some r }
  | .ipv6 => { network with defaultIPv6Route := some r }

def defaultRoute : Family → Addr × Prefix
  | .ipv4 => (.v4 0, .of (.v4 0) 0)
  | .ipv6 => (.v6 0 "", .of (.v6 0 "") 0)

/-- `err.Error()` of a nil error. -/
inductive NilError where
  | nilError
deriving DecidableEq, Repr

/-- What one turn of the loop comes to: it returns an error, continues, or records a route. -/
inductive Reading (Fault : Type) where
  | stop (fault : Fault)
  | skip
  | default (r : Route)
  | static (r : Route)

variable {Fault : Type}

/-- A malformed entry is logged with whatever error the last call has left, and skipped. -/
def logInvalid : Option Fault → Except NilError (Reading Fault)
  | none => .error .nilError
  | some _ => .ok .skip

def NetlinkRoute.gatewayIP (route : NetlinkRoute) : Option Addr := route.gw.elim (some .zero) addrFromSlice

/-- The route's source address, or else the first one of the interface, with the error it leaves. -/
def NetlinkRoute.srcIP (host : Host Fault) (iface : Interface Fault) (route : NetlinkRoute) : Option (Addr × Option Fault) :=
  match route.src with
  | some src => (addrFromSlice src).map (·, none)
  | none =>
    match iface.addrs with
    | .error fault => some (.zero, some fault)
    | .ok [] => some (.zero, none)
    | .ok (first :: _) =>
      match host.parsePrefix first with
      | .error fault => some (.zero, some fault)
      | .ok network => some (network.addr, none)

def readRoute (host : Host Fault) (family : Family) (route : NetlinkRoute) : Except NilError (Reading Fault) :=
  match host.interfaceByIndex route.linkIndex with
  | .error fault => .ok (.stop fault)
  | .ok iface =>
    match route.gatewayIP with
    | none => logInvalid (none : Option Fault)
    | some gatewayIP =>
      match route.srcIP host iface with
      | none => logInvalid (none : Option Fault)
      | some (srcIP, err) =>
        let r : Route :=
          { interfaceIndex := route.linkIndex, interfaceName := iface.name, isInterfaceScoped := route.scope = 253, gatewayIP, srcIP }
        match route.dst with
        | none => .ok (.default { r with destIP := (defaultRoute family).1, destCIDR := (defaultRoute family).2 })
        | some (ip, mask) =>
          match addrFromSlice ip with
          | none => logInvalid err
          | some destIP => .ok (.static { r with destIP, destCIDR := .of destIP (maskOnes mask) })

def readRoutes (host : Host Fault) (family : Family) : List NetlinkRoute → Context → Except NilError (Option Fault × Context)
  | [], network => .ok (none, network)
  | route :: routes, network =>
    match readRoute host family route with
    | .error panic => .error panic
    | .ok (.stop fault) => .ok (some fault, network)
    | .ok .skip => readRoutes host family routes network
    | .ok (.default r) => readRoutes host family routes (network.setDefault r family)
    | .ok (.static r) => readRoutes host family routes { network with staticRoutes := network.staticRoutes ++ [(family, r)] }

def readTable (host : Host Fault) (family : Family) (network : Context) : Except NilError (Option Fault × Context) :=
  match host.routeList family with
  | .error fault => .ok (some fault, network)
  | .ok routes => readRoutes host family routes network

inductive InitError (Fault : Type) where
  | failed (fault : Fault)
  | noDefault

/-- What goes to `initErr`, and the context that is left. -/
def readNetworkInfo (host : Host Fault) (network : Context) : Except NilError (Option (InitError Fault) × Context) := do
  let (err, network) ← readTable host .ipv4 { network with staticRoutes := [] }
  if let some fault := err then
    return (some (.failed fault), network)
  let (err, network) ← readTable host .ipv6 network
  if let some fault := err then
    return (some (.failed fault), network)
  return (if network.defaultIPv4Route.isNone then some .noDefault else none, network)

end MycsCommon.Network
