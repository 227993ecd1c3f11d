import MycsCommon.Library.Slices
import MycsCommon.Network.Netip
import MycsCommon.Utils.ChunkSeeker

/-! The helpers of the network package: the next free device name, the next address and the addresses of names. -/

namespace MycsCommon.Network
open Library

/-- A device name's first part, of characters that stand for themselves in a pattern, as letters do. -/
structure Stem where
  text : List Char
  literal : ∀ char ∈ text, char ∉ "\\.+*?()|[]\x7b\x7d^$".toList

/-- What `^prefix([0-9]+)$` captures of a name. -/
def Stem.capture (stem : Stem) (name : String) : Option (List Char) :=
  (name.toList.dropPrefix? stem.text).filter fun rest => !rest.isEmpty && rest.all Char.isDigit

/-- `strconv.Atoi` of decimal digits: an error where the number does not fit an int. -/
def digitsAtoi (digits : List Char) : Option Nat :=
  let value := Nat.ofDigitChars 10 digits 0
  if value < 2 ^ 63 then some value else none

/-- One turn of the loop. A name that does not match and an index that is too large are passed over. -/
def Stem.larger (stem : Stem) (maxIndex : Int) (name : String) : Int :=
  match (stem.capture name).bind digitsAtoi with
  | none => maxIndex
  | some devIndex => if maxIndex < devIndex then devIndex else maxIndex

/-- The names are those that `net.Interfaces` lists, or its error. -/
def getNextAvailabeInterface {Fault : Type} (stem : Stem) (interfaces : Except Fault (List String)) : Except Fault String := do
  let ifaces ← interfaces
  let maxIndex := ifaces.foldl stem.larger (-1)
  return String.ofList stem.text ++ (Utils.int64 (maxIndex + 1)).repr

/-- From the last byte on: each is increased until one does not wrap to zero. -/
def incIP (ip : Bytes) : Bytes := (go ip.reverse).reverse
where
  go : Bytes → Bytes
    | [] => []
    | byte :: bytes => if byte + 1 > 0 then (byte + 1) :: bytes else (byte + 1) :: go bytes

/-- The inner loop of `ResolveNames`, from an index on: the name's own slice and the flat list. -/
def appendIPs (flatten : Bool) : List String → Nat → Slices.Heap String → Slices.Slice → List String → Slices.Heap String × List String
  | [], _, heap, _, ipsFlat => (heap, ipsFlat)
  | ipAddr :: resolvedIPs, i, heap, ips, ipsFlat =>
    let (heap, ips) := Slices.append heap ips [ipAddr]
    appendIPs flatten resolvedIPs (i + 1) heap ips (if flatten then ipsFlat ++ [ipAddr] else if i = 0 then ipsFlat ++ [ipAddr] else ipsFlat)

/-- The loop over the names, with what `net.LookupIP` answers for each. The name's slice is recorded before it is filled. -/
def resolveEach {Fault : Type} (flatten : Bool) : List (String × Except Fault (List String)) →
    Slices.Heap String → List String → List Slices.Slice → Except Fault (Slices.Heap String × List String × List Slices.Slice)
  | [], heap, ipsFlat, namedIPs => .ok (heap, ipsFlat, namedIPs)
  | (_, .error err) :: _, _, _, _ => .error err
  | (_, .ok resolvedIPs) :: dnsNames, heap, ipsFlat, namedIPs =>
    let (heap, ipsFlat) := appendIPs flatten resolvedIPs 0 heap Slices.empty ipsFlat
    resolveEach flatten dnsNames heap ipsFlat (namedIPs ++ [Slices.empty])

/-- What the caller reads of the two lists. -/
def resolveNames {Fault : Type} (dnsNames : List (String × Except Fault (List String))) (flatten : Bool) :
    Except Fault (List String × List (List String)) := do
  let (heap, ipsFlat, namedIPs) ← resolveEach flatten dnsNames [] [] []
  return (ipsFlat, namedIPs.map (Slices.read heap))

end MycsCommon.Network
