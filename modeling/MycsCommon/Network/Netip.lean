import Mathlib.Data.BitVec

/-! The parts of Go's `net/netip` and `net` that the packet filter router calls:
addresses, prefixes, their texts and their masks. -/

namespace MycsCommon.Network

abbrev Bytes := List UInt8

/-- The bytes of a Go string. -/
def textBytes (text : String) : Bytes := text.toList.flatMap String.utf8EncodeChar

/-- The low `8 * count` bits, most significant byte first. -/
def bigEndian (count : Nat) {width : Nat} (bits : BitVec width) : Bytes :=
  (List.range count).map fun index => UInt8.ofBitVec (bits.extractLsb' (8 * (count - 1 - index)) 8)

inductive Addr where
  | zero
  | v4 (bits : BitVec 32)
  | v6 (bits : BitVec 128) (zone : String)
deriving DecidableEq, Repr

namespace Addr

def isValid : Addr → Bool
  | zero => false
  | _ => true

def is4 : Addr → Bool
  | v4 _ => true
  | _ => false

/-- Also true of IPv4-mapped IPv6 addresses. -/
def is6 : Addr → Bool
  | v6 _ _ => true
  | _ => false

def bitLen : Addr → Nat
  | zero => 0
  | v4 _ => 32
  | v6 _ _ => 128

def asSlice : Addr → Bytes
  | zero => []
  | v4 bits => bigEndian 4 bits
  | v6 bits _ => bigEndian 16 bits

def withoutZone : Addr → Addr
  | v6 bits _ => v6 bits ""
  | addr => addr

/-- The address with all but its first `ones` bits cleared. -/
def masked (ones : Nat) : Addr → Addr
  | zero => zero
  | v4 bits => v4 (bits &&& BitVec.allOnes 32 <<< (32 - ones))
  | v6 bits zone => v6 (bits &&& BitVec.allOnes 128 <<< (128 - ones)) zone

def text4 (bits : BitVec 32) : String :=
  ".".intercalate ((bigEndian 4 bits).map fun byte => byte.toNat.repr)

def hexText (group : BitVec 16) : String := String.ofList (Nat.toDigits 16 group.toNat)

def groups (bits : BitVec 128) : List (BitVec 16) :=
  (List.range 8).map fun index => bits.extractLsb' (16 * (7 - index)) 16

/-- The zero groups the text leaves out, as start and end: the first of the longest
runs, if it has at least two groups. -/
def zeroRun (parts : List (BitVec 16)) : Nat × Nat :=
  (List.range 8).foldl (fun (start, stop) index =>
    let run := ((parts.drop index).takeWhile (· == 0)).length
    if 2 ≤ run ∧ stop - start < run then (index, index + run) else (start, stop)) (255, 255)

def text6 (bits : BitVec 128) : String :=
  let parts := groups bits
  let (start, stop) := zeroRun parts
  if start = 255 then ":".intercalate (parts.map hexText)
  else ":".intercalate ((parts.take start).map hexText) ++ "::" ++ ":".intercalate ((parts.drop stop).map hexText)

def is4In6 (bits : BitVec 128) : Bool := bits.extractLsb' 32 96 == 0xffff

def text : Addr → String
  | zero => "invalid IP"
  | v4 bits => text4 bits
  | v6 bits zone =>
    (if is4In6 bits then "::ffff:" ++ text4 (bits.extractLsb' 0 32) else text6 bits) ++
      (if zone = "" then "" else "%" ++ zone)

end Addr

/-- A prefix keeps its length plus one, so that zero marks an invalid prefix. An
invalid prefix may still carry an address. -/
structure Prefix where
  addr : Addr
  bitsPlusOne : Nat
  fits : 0 < bitsPlusOne → addr ≠ .zero ∧ bitsPlusOne ≤ addr.bitLen + 1
  zoneless : addr.withoutZone = addr
deriving DecidableEq

namespace Prefix

/-- The zero value `netip.Prefix{}`. -/
def none : Prefix := ⟨.zero, 0, fun impossible => absurd impossible (Nat.lt_irrefl 0), rfl⟩

def isValid (network : Prefix) : Bool := 0 < network.bitsPlusOne

def bits (network : Prefix) : Int := network.bitsPlusOne - 1

/-- `Masked().Addr()`: the zero address where the prefix is invalid. -/
def maskedAddr (network : Prefix) : Addr :=
  if network.isValid then network.addr.masked (network.bitsPlusOne - 1) else .zero

def text (network : Prefix) : String :=
  if network.isValid then network.addr.text ++ "/" ++ (network.bitsPlusOne - 1).repr else "invalid Prefix"

/-- `netip.PrefixFrom`. -/
def of (addr : Addr) (bits : Int) : Prefix :=
  if fits : addr ≠ .zero ∧ 0 ≤ bits ∧ bits ≤ addr.bitLen then
    ⟨addr.withoutZone, bits.toNat + 1, fun _ => by
      obtain ⟨valid, low, high⟩ := fits
      cases addr with
      | zero => exact absurd rfl valid
      | v4 | v6 => exact ⟨nofun, by simp only [Addr.withoutZone, Addr.bitLen] at high ⊢; omega⟩, by cases addr <;> rfl⟩
  else ⟨addr.withoutZone, 0, fun impossible => absurd impossible (Nat.lt_irrefl 0), by cases addr <;> rfl⟩

end Prefix

def maskBytes : Nat → Nat → Bytes
  | 0, _ => []
  | count + 1, ones =>
    if 8 ≤ ones then 0xff :: maskBytes count (ones - 8)
    else ~~~(0xff >>> UInt8.ofNat ones) :: maskBytes count 0

/-- `net.CIDRMask`: nil unless the lengths are those of an IPv4 or IPv6 mask. -/
def cidrMask (ones bits : Int) : Bytes :=
  if bits ≠ 32 ∧ bits ≠ 128 then []
  else if ones < 0 ∨ bits < ones then []
  else maskBytes (bits / 8).toNat ones.toNat

end MycsCommon.Network
