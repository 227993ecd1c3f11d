import MycsCommon.Network.Netip
import MycsCommon.Library.Hex

/-! The parser of tailscale/wireguard_device.go for what the WireGuard device says about
itself. Addresses of peers are not read: the line that would do so is commented out. -/

namespace MycsCommon.Tailscale
open Network Library

/-! Values. -/

abbrev Key := { bytes : Bytes // bytes.length = 32 }

def Key.zero : Key := ⟨List.replicate 32 0, rfl⟩

/-- `time.Time`, as far as it is set: the zero value, or what `time.Unix` gives. -/
inductive Time where
  | zero
  | unix (sec nsec : Int)
deriving DecidableEq, Repr

/-- `net.ParseCIDR`, `wgtypes.NewKey` and `Key.PublicKey`. -/
structure WireguardLibs (IPNet : Type) where
  parseCIDR : Bytes → Option IPNet
  newKey : Bytes → Option Key
  publicKey : Key → Key

structure Peer (IPNet : Type) where
  publicKey : Key
  presharedKey : Key := Key.zero
  lastHandshakeTime : Time := .zero
  transmitBytes : Int := 0
  receiveBytes : Int := 0
  persistentKeepaliveInterval : Int := 0
  allowedIPs : List IPNet := []
  protocolVersion : Int := 0
deriving DecidableEq

structure Device (IPNet : Type) where
  privateKey : Key := Key.zero
  publicKey : Key := Key.zero
  listenPort : Int := 0
  firewallMark : Int := 0
  peers : List (Peer IPNet) := []
deriving DecidableEq

inductive ParseError where
  | invalidPair (line : Bytes)
  | errno (errno : Int)
  -- passed on from encoding/hex, wgtypes, strconv, net and bufio
  | hex | keySize | number | cidr | tooLong
deriving DecidableEq, Repr

/-- The digits of a number, at least one. -/
def digits (bytes : Bytes) : Option Nat :=
  if bytes = [] then none
  else bytes.foldlM (fun number byte => if 48 ≤ byte ∧ byte ≤ 57 then some (10 * number + (byte.toNat - 48)) else none) 0

/-- `strconv.Atoi` and `strconv.ParseInt` to base 10, on 64 bits. -/
def atoi (bytes : Bytes) : Option Int :=
  match bytes with
  | 45 :: rest => (digits rest).bind fun number => if number ≤ 9223372036854775808 then some (-(number : Int)) else none
  | 43 :: rest => (digits rest).bind fun number => if number < 9223372036854775808 then some (number : Int) else none
  | _ => (digits bytes).bind fun number => if number < 9223372036854775808 then some (number : Int) else none

/-- `time.Duration(number) * time.Second`, which may overflow. -/
def seconds (number : Int) : Int := (number * 1000000000).bmod 18446744073709551616

/-- The keys the parser knows. -/
inductive Field where
  | errno | publicKey
  | privateKey | listenPort | fwmark
  | presharedKey | endpoint | lastHandshakeTimeSec | lastHandshakeTimeNsec | txBytes | rxBytes
  | persistentKeepaliveInterval | allowedIP | protocolVersion
  | other
deriving DecidableEq, Repr

def fieldNames : List (String × Field) :=
  [("errno", .errno), ("public_key", .publicKey),
    ("private_key", .privateKey), ("listen_port", .listenPort), ("fwmark", .fwmark),
    ("preshared_key", .presharedKey), ("endpoint", .endpoint), ("last_handshake_time_sec", .lastHandshakeTimeSec),
    ("last_handshake_time_nsec", .lastHandshakeTimeNsec), ("tx_bytes", .txBytes), ("rx_bytes", .rxBytes),
    ("persistent_keepalive_interval", .persistentKeepaliveInterval), ("allowed_ip", .allowedIP),
    ("protocol_version", .protocolVersion)]

def Field.of (key : Bytes) : Field := ((fieldNames.find? fun named => textBytes named.1 = key).map Prod.snd).getD .other

/-! The parser. -/

variable {IPNet : Type}

structure DeviceParser (IPNet : Type) where
  d : Device IPNet := {}
  err : Option ParseError := none
  parsePeers : Bool := false
  peers : Nat := 0
  hsSec : Int := 0
  hsNano : Int := 0

namespace DeviceParser

/-- A value is read only as long as there was no error. -/
def read {α : Type} (parse : Bytes → Except ParseError α) (zero : α) (dp : DeviceParser IPNet) (s : Bytes) :
    α × DeviceParser IPNet :=
  match dp.err with
  | some _ => (zero, dp)
  | none =>
    match parse s with
    | .error err => (zero, { dp with err := some err })
    | .ok value => (value, dp)

end DeviceParser

def keyOf (libs : WireguardLibs IPNet) (s : Bytes) : Except ParseError Key :=
  match Hex.bytes.decode s with
  | none => .error .hex
  | some bytes =>
    match libs.newKey bytes with
    | none => .error .keySize
    | some key => .ok key

def numberOf (s : Bytes) : Except ParseError Int :=
  match atoi s with
  | none => .error .number
  | some value => .ok value

def cidrOf (libs : WireguardLibs IPNet) (s : Bytes) : Except ParseError (Option IPNet) :=
  match libs.parseCIDR s with
  | none => .error .cidr
  | some cidr => .ok (some cidr)

variable (libs : WireguardLibs IPNet)

namespace DeviceParser

def parseKey : DeviceParser IPNet → Bytes → Key × DeviceParser IPNet := read (keyOf libs) Key.zero
def parseInt : DeviceParser IPNet → Bytes → Int × DeviceParser IPNet := read numberOf 0
def parseInt64 : DeviceParser IPNet → Bytes → Int × DeviceParser IPNet := read numberOf 0
def parseCIDR : DeviceParser IPNet → Bytes → Option IPNet × DeviceParser IPNet := read (cidrOf libs) none

/-- `&dp.d.Peers[dp.peers-1]`; nothing where the index is out of range. -/
def curPeer (dp : DeviceParser IPNet) : Option (Peer IPNet) := if dp.peers = 0 then none else dp.d.peers[dp.peers - 1]?

def setPeer (dp : DeviceParser IPNet) (p : Peer IPNet) : DeviceParser IPNet :=
  { dp with d := { dp.d with peers := dp.d.peers.set (dp.peers - 1) p } }

def peerParse (dp : DeviceParser IPNet) (key : Field) (value : Bytes) : Option (DeviceParser IPNet) :=
  dp.curPeer.map fun p =>
    match key with
    | .presharedKey =>
      let (presharedKey, dp) := dp.parseKey libs value
      dp.setPeer { p with presharedKey }
    | .lastHandshakeTimeSec =>
      let (hsSec, dp) := dp.parseInt value
      { dp with hsSec }
    | .lastHandshakeTimeNsec =>
      let (hsNano, dp) := dp.parseInt value
      let dp := { dp with hsNano }
      if dp.hsSec > 0 ∧ dp.hsNano > 0 then dp.setPeer { p with lastHandshakeTime := .unix dp.hsSec dp.hsNano } else dp
    | .txBytes =>
      let (transmitBytes, dp) := dp.parseInt64 value
      dp.setPeer { p with transmitBytes }
    | .rxBytes =>
      let (receiveBytes, dp) := dp.parseInt64 value
      dp.setPeer { p with receiveBytes }
    | .persistentKeepaliveInterval =>
      let (number, dp) := dp.parseInt value
      dp.setPeer { p with persistentKeepaliveInterval := seconds number }
    | .allowedIP =>
      let (cidr, dp) := dp.parseCIDR libs value
      dp.setPeer { p with allowedIPs := p.allowedIPs ++ cidr.toList }
    | .protocolVersion =>
      let (protocolVersion, dp) := dp.parseInt value
      dp.setPeer { p with protocolVersion }
    | _ => dp

/-- The end of `Parse`: a field of the current peer, or of the device. -/
def parseField (dp : DeviceParser IPNet) (key : Field) (value : Bytes) : Option (DeviceParser IPNet) :=
  if dp.parsePeers then dp.peerParse libs key value
  else some <| match key with
    | .privateKey =>
      let (privateKey, dp) := dp.parseKey libs value
      { dp with d := { dp.d with privateKey } }
    | .listenPort =>
      let (listenPort, dp) := dp.parseInt value
      { dp with d := { dp.d with listenPort } }
    | .fwmark =>
      let (firewallMark, dp) := dp.parseInt value
      { dp with d := { dp.d with firewallMark } }
    | _ => dp

/-- `Parse`; nothing where it panics. -/
def parse (dp : DeviceParser IPNet) (key value : Bytes) : Option (DeviceParser IPNet) :=
  match Field.of key with
  | .errno =>
    let (errno, dp) := dp.parseInt value
    if errno ≠ 0 then some { dp with err := some (.errno errno) } else dp.parseField libs .errno value
  | .publicKey =>
    let (publicKey, dp) := { dp with parsePeers := true, peers := dp.peers + 1 : DeviceParser IPNet }.parseKey libs value
    some { dp with d := { dp.d with peers := dp.d.peers ++ [{ publicKey }] } }
  | field => dp.parseField libs field value

def device (dp : DeviceParser IPNet) : Except ParseError (Device IPNet) :=
  match dp.err with
  | some err => .error err
  | none => .ok { dp.d with publicKey := libs.publicKey dp.d.privateKey }

end DeviceParser

/-! Lines. -/

def dropCR (line : Bytes) : Bytes := if line.getLast? = some 13 then line.dropLast else line

/-- What `bufio.ScanLines` cuts the input into: there is no line after the last newline. -/
def rawLines (text : Bytes) : List Bytes :=
  let pieces := text.splitOn 10
  if pieces.getLast? = some [] then pieces.dropLast else pieces

/-- The lines a `bufio.Scanner` gives, and whether it stops at one that does not fit its buffer. -/
def scan (text : Bytes) : List Bytes × Bool :=
  (((rawLines text).takeWhile fun line => line.length < 65536).map dropCR, (rawLines text).any fun line => 65536 ≤ line.length)

inductive ParseFailure where
  | error (error : ParseError)
  | indexOutOfRange
deriving DecidableEq, Repr

/-- The loop over the lines; `tooLong` says how the scanner ended. -/
def parseLines (tooLong : Bool) (dp : DeviceParser IPNet) : List Bytes → Except ParseFailure (DeviceParser IPNet)
  | [] => if tooLong then .error (.error .tooLong) else .ok dp
  | line :: lines =>
    -- an empty line ends the answer
    if line = [] then .ok dp
    else match line.splitOn 61 with
      | [key, value] =>
        match dp.parse libs key value with
        | none => .error .indexOutOfRange
        | some dp => parseLines tooLong dp lines
      | _ => .error (.error (.invalidPair line))

def parseDevice (text : Bytes) : Except ParseFailure (Device IPNet) := do
  let (lines, tooLong) := scan text
  let dp ← parseLines libs tooLong {} lines
  (dp.device libs).mapError .error

end MycsCommon.Tailscale
