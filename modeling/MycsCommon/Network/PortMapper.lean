import MycsCommon.Network.Netip

/-! How the port mapper chooses a router, of common/network/port_mapper.go. The switch has the same code
for each of the three services. -/

namespace MycsCommon.Network

inductive UpnpService where
  | wanIPConnection1 | wanIPConnection2 | wanPPPConnection1
deriving DecidableEq, Repr

/-- A client with its answer to the query for the external address. The source compares the texts and panics on
one that is no address: the answers are addresses. -/
structure UpnpClient (Fault : Type) where
  externalIPAddress : Except Fault Addr
  localAddr : Addr

inductive ConnectError (Fault : Type) where
  | failed (fault : Fault)
  | multipleRoutesFound
  | noRoutersFound
deriving DecidableEq, Repr

structure PortMapper (Fault : Type) where
  upnpClient : UpnpService × UpnpClient Fault
  externalAddr : Addr
  selfAddr : Addr

variable {Fault : Type}

/-- The clients that are asked after the first, up to one that reports another address, and whether there is one. -/
def compareOthers (routerEIP : Addr) : List (UpnpClient Fault) → Nat × Bool
  | [] => (0, false)
  | client :: clients =>
    match client.externalIPAddress with
    | .ok routerEIPn =>
      if routerEIPn ≠ routerEIP then (1, true)
      else let (asked, differs) := compareOthers routerEIP clients; (asked + 1, differs)
    | .error _ => let (asked, differs) := compareOthers routerEIP clients; (asked + 1, differs)

/-- The services of the clients that are asked, and the outcome. -/
def selectRouter (service : UpnpService) : List (UpnpClient Fault) → List UpnpService × Except (ConnectError Fault) (PortMapper Fault)
  | [] => ([], .error .noRoutersFound)
  | client :: clients =>
    match client.externalIPAddress with
    | .error fault => ([service], .error (.failed fault))
    | .ok routerEIP =>
      let (asked, differs) := compareOthers routerEIP clients
      (List.replicate (asked + 1) service,
        if differs then .error .multipleRoutesFound
        else .ok { upnpClient := (service, client), externalAddr := routerEIP, selfAddr := client.localAddr })

def connectFirst : List (UpnpService × List (UpnpClient Fault)) → List UpnpService × Except (ConnectError Fault) (PortMapper Fault)
  | [] => ([], .error .noRoutersFound)
  | (service, clients) :: services => if clients.length > 1 then selectRouter service clients else connectFirst services

/-- `Connect` with the clients that were discovered. -/
def connect (discovered : Except Fault (List (UpnpClient Fault) × List (UpnpClient Fault) × List (UpnpClient Fault))) :
    List UpnpService × Except (ConnectError Fault) (PortMapper Fault) :=
  match discovered with
  | .error fault => ([], .error (.failed fault))
  | .ok (ip1Clients, ip2Clients, ppp1Clients) =>
    connectFirst [(.wanIPConnection1, ip1Clients), (.wanIPConnection2, ip2Clients), (.wanPPPConnection1, ppp1Clients)]

end MycsCommon.Network
