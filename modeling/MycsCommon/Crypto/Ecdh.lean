import MycsCommon.Library.Base64
import MycsCommon.Library.BigEndian
import MycsCommon.Library.Slices
import MycsCommon.Network.Netip

/-! ECDH keys of crypto/ecdh.go, over whatever curve the public keys are parsed to, and
the form of a P-256 public key that is exchanged with NodeJS. -/

namespace MycsCommon.Crypto
open Network Library

/-- Parsing a DER public key, and the first coordinate of the product with a private key. -/
structure Curve (ECDHKey PublicKey : Type) where
  parsePKIXPublicKey : Bytes → Option PublicKey
  scalarMult : ECDHKey → PublicKey → Bytes

section

variable {ECDHKey PublicKey : Type}

/-- A key that is not base64 gives neither a secret nor an error. -/
def sharedSecret (curve : Curve ECDHKey PublicKey) (key : ECDHKey) (otherPublicKey : Bytes) : Option Bytes :=
  match Base64.decode otherPublicKey with
  | none => some []
  | some der => (curve.parsePKIXPublicKey der).map (curve.scalarMult key)

end

/-- The coordinates of an `ecdsa.PublicKey`. -/
@[ext] structure Point where
  X : Nat
  Y : Nat
deriving DecidableEq, Repr

namespace P256

def p : Nat := 2 ^ 256 - 2 ^ 224 + 2 ^ 192 + 2 ^ 96 - 1

def b : Nat := 0x5ac635d8aa3a93e7b3ebbd55769886bc651d06b0cc53b0f63bce3c3e27d2604b

def OnCurve (point : Point) : Prop :=
  point.X < p ∧ point.Y < p ∧ point.Y ^ 2 % p = (point.X ^ 3 + (p - 3) * point.X + b) % p

instance (point : Point) : Decidable (OnCurve point) := inferInstanceAs (Decidable (_ ∧ _))

/-- The points crypto/elliptic multiplies; `(0, 0)` stands for the point at infinity. -/
def Operand (point : Point) : Prop := point = ⟨0, 0⟩ ∨ OnCurve point

instance (point : Point) : Decidable (Operand point) := inferInstanceAs (Decidable (_ ∨ _))

end P256

/-- A private key with the point that belongs to it. -/
structure ECDHKey where
  D : Nat
  point : Point
  onCurve : P256.OnCurve point

/-- Nothing is returned where x509 refuses the key. -/
def ECDHKey.publicKey (marshalPKIXPublicKey : Point → Option Bytes) (key : ECDHKey) : Option Bytes :=
  (marshalPKIXPublicKey key.point).map Base64.encode

/-- Go's `copy(buffer[offset:], bytes)`. -/
def copyAt (buffer : Bytes) (offset : Nat) (bytes : Bytes) : Bytes :=
  Slices.overwrite (bytes.take (buffer.length - offset)) offset buffer

def nodeBuffer (publicKey : Point) : Bytes :=
  let buffer := (List.replicate 65 (0 : UInt8)).set 0 4
  let buffer := copyAt buffer 1 (BigEndian.encode publicKey.X)
  copyAt buffer 33 (BigEndian.encode publicKey.Y)

def ECDHKey.publicKeyForNodeJS (key : ECDHKey) : Bytes := Base64.encode (nodeBuffer key.point)

/-- What stops the program: a key too short to cut, or coordinates of no point. -/
inductive NodePanic
  | sliceBounds
  | invalidPoint
deriving DecidableEq, Repr

def nodePoint (buffer : Bytes) : Except NodePanic Point :=
  if buffer.length < 33 then .error .sliceBounds
  else .ok ⟨BigEndian.decode ((buffer.drop 1).take 32), BigEndian.decode (buffer.drop 33)⟩

/-- Here too a key that is not base64 gives neither a secret nor an error. -/
def ECDHKey.sharedSecretFromNodeJS (curve : Curve ECDHKey Point) (key : ECDHKey) (otherPublicKey : Bytes) :
    Except NodePanic Bytes :=
  match Base64.decode otherPublicKey with
  | none => .ok []
  | some buffer => do
    let publicKey ← nodePoint buffer
    if P256.Operand publicKey then .ok (curve.scalarMult key publicKey) else .error .invalidPoint

end MycsCommon.Crypto
