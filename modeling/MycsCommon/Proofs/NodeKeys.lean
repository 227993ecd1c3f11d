import MycsCommon.Crypto.Ecdh
import MycsCommon.Library.LittleEndian

/-! Public keys exchanged with NodeJS. A coordinate is written from the left of its field
with only the bytes it needs, and read as the whole field: it comes back exactly when it
fills the field or is zero. -/

namespace MycsCommon.Crypto
open Network Library List Base64 BigEndian ECDHKey LittleEndian

def FillsField (coordinate : Nat) : Prop := coordinate = 0 ∨ 256 ^ 31 ≤ coordinate

instance (coordinate : Nat) : Decidable (FillsField coordinate) := inferInstanceAs (Decidable (_ ∨ _))

theorem copyAt_zeros (written bytes : Bytes) {room} (fits : bytes.length ≤ room) :
    copyAt (written ++ List.replicate room 0) written.length bytes =
      written ++ bytes ++ List.replicate (room - bytes.length) 0 := by
  have whole : bytes.take ((written ++ List.replicate room (0 : UInt8)).length - written.length) = bytes := by
    apply take_of_length_le
    simpa using fits
  rw [copyAt, whole, Slices.overwrite, take_left, drop_append, drop_eq_nil_of_le (by omega),
    Nat.add_sub_cancel_left, drop_replicate, nil_append]

theorem length_leftAligned {width number} (fits : number < 256 ^ width) :
    (leftAligned width number).length = width := by
  have within := (length_encode_le number width).mpr fits
  rw [leftAligned, length_append, length_replicate]
  omega

theorem nodeBuffer_eq {point} (fitsX : point.X < 256 ^ 32) (fitsY : point.Y < 256 ^ 32) :
    nodeBuffer point = 4 :: (leftAligned 32 point.X ++ leftAligned 32 point.Y) := by
  have shortX := (length_encode_le point.X 32).mpr fitsX
  have shortY := (length_encode_le point.Y 32).mpr fitsY
  have start : (List.replicate 65 (0 : UInt8)).set 0 4 = [4] ++ List.replicate 64 0 := rfl
  have first : copyAt ([4] ++ List.replicate 64 0) 1 (encode point.X) =
      4 :: leftAligned 32 point.X ++ List.replicate 32 0 := by
    have rest : 64 - (BigEndian.encode point.X).length = 32 - (BigEndian.encode point.X).length + 32 := by omega
    have copied := copyAt_zeros [4] (encode point.X) (show _ ≤ 64 by omega)
    rw [rest, replicate_add] at copied
    simpa only [leftAligned, length_singleton, append_assoc, cons_append,
      nil_append] using copied
  have filled : (4 :: leftAligned 32 point.X).length = 33 := by
    rw [length_cons, length_leftAligned fitsX]
  have second := copyAt_zeros (4 :: leftAligned 32 point.X) (encode point.Y) shortY
  rw [filled] at second
  simp only [nodeBuffer, start, first, second]
  simp [leftAligned]

theorem nodePoint_nodeBuffer {point} (fitsX : point.X < 256 ^ 32) (fitsY : point.Y < 256 ^ 32) :
    nodePoint (nodeBuffer point) =
      .ok ⟨BigEndian.decode (BigEndian.leftAligned 32 point.X), BigEndian.decode (BigEndian.leftAligned 32 point.Y)⟩ := by
  have widthX := length_leftAligned fitsX
  have widthY := length_leftAligned fitsY
  have long : ¬ (4 :: (leftAligned 32 point.X ++ leftAligned 32 point.Y)).length < 33 := by
    rw [length_cons, length_append]
    omega
  rw [nodeBuffer_eq fitsX fitsY, nodePoint, if_neg long, drop_succ_cons, drop_zero, take_left' widthX,
    drop_succ_cons, drop_left' widthX]

theorem nodePoint_returns_iff {point} (fitsX : point.X < 256 ^ 32) (fitsY : point.Y < 256 ^ 32) :
    nodePoint (nodeBuffer point) = .ok point ↔ FillsField point.X ∧ FillsField point.Y := by
  have returnsX := decode_leftAligned_iff fitsX
  have returnsY := decode_leftAligned_iff fitsY
  rw [nodePoint_nodeBuffer fitsX fitsY, Except.ok.injEq, Point.ext_iff]
  exact and_congr returnsX returnsY

/-- x509 encodes the points of the curve, and parses what it encoded. -/
def Marshals (curve : Curve ECDHKey Point) (marshalPKIXPublicKey : Point → Option Bytes) : Prop :=
  ∀ point, P256.OnCurve point →
    ∃ der, marshalPKIXPublicKey point = some der ∧ curve.parsePKIXPublicKey der = some point

/-- Both ways to exchange the key give `other` the same secret. -/
def SecretsAgree (curve : Curve ECDHKey Point) (marshalPKIXPublicKey : Point → Option Bytes) (other key : ECDHKey) :
    Prop :=
  ∃ text secret, key.publicKey marshalPKIXPublicKey = some text ∧ sharedSecret curve other text = some secret ∧
    other.sharedSecretFromNodeJS curve key.publicKeyForNodeJS = .ok secret

section Keys

variable {curve : Curve ECDHKey Point} {marshalPKIXPublicKey : Point → Option Bytes} {other key : ECDHKey}

theorem sharedSecretFromNodeJS_of_returns (returns : nodePoint (nodeBuffer key.point) = .ok key.point) :
    other.sharedSecretFromNodeJS curve key.publicKeyForNodeJS = .ok (curve.scalarMult other key.point) := by
  have operand : P256.Operand key.point := .inr key.onCurve
  rw [ECDHKey.sharedSecretFromNodeJS, ECDHKey.publicKeyForNodeJS, Base64.decode_encode]
  simp only [returns]
  exact if_pos operand

theorem sharedSecret_publicKey (marshals : Marshals curve marshalPKIXPublicKey) :
    ∃ text, key.publicKey marshalPKIXPublicKey = some text ∧
      sharedSecret curve other text = some (curve.scalarMult other key.point) := by
  obtain ⟨der, marshalled, parsed⟩ := marshals key.point key.onCurve
  refine ⟨encode der, by rw [publicKey, marshalled, Option.map_some], ?_⟩
  rw [sharedSecret, Base64.decode_encode]
  simp [parsed]

theorem secretsAgree_of_returns (marshals : Marshals curve marshalPKIXPublicKey)
    (returns : nodePoint (nodeBuffer key.point) = .ok key.point) :
    SecretsAgree curve marshalPKIXPublicKey other key := by
  obtain ⟨text, exported, agreed⟩ := @sharedSecret_publicKey curve marshalPKIXPublicKey other key marshals
  exact ⟨text, _, exported, agreed, sharedSecretFromNodeJS_of_returns returns⟩

end Keys

/-- What is read from the encoded key is the point that was encoded. -/
def RoundTrips (point : Point) : Prop :=
  (Base64.decode (Base64.encode (nodeBuffer point))).map nodePoint = some (.ok point)

theorem roundTrips_iff_nodePoint (point : Point) : RoundTrips point ↔ nodePoint (nodeBuffer point) = .ok point := by
  rw [RoundTrips, Base64.decode_encode, Option.map_some, Option.some_inj]

theorem coordinate_width : 2 ^ 256 = 256 ^ 32 := by decide +kernel

theorem roundTrips_iff_fills {point} (fitsX : point.X < 2 ^ 256) (fitsY : point.Y < 2 ^ 256) :
    RoundTrips point ↔ FillsField point.X ∧ FillsField point.Y := by
  rw [coordinate_width] at fitsX fitsY
  rw [roundTrips_iff_nodePoint]
  exact nodePoint_returns_iff fitsX fitsY

theorem P256.OnCurve.fits {point} (onCurve : P256.OnCurve point) : point.X < 2 ^ 256 ∧ point.Y < 2 ^ 256 := by
  have small : P256.p < 2 ^ 256 := by decide +kernel
  exact ⟨lt_trans onCurve.1 small, lt_trans onCurve.2.1 small⟩

/-- A key survives the exchange with NodeJS exactly when both coordinates of its point fill
their fields; then the secret is the one of the exchange by DER. -/
theorem nodeKey_exchanged_iff {curve : Curve ECDHKey Point} {marshalPKIXPublicKey : Point → Option Bytes}
    (marshals : Marshals curve marshalPKIXPublicKey) :
    (∀ point : Point, point.X < 2 ^ 256 → point.Y < 2 ^ 256 →
      (RoundTrips point ↔ FillsField point.X ∧ FillsField point.Y)) ∧
    ∀ key : ECDHKey,
      ((RoundTrips key.point ∧ ∀ other, SecretsAgree curve marshalPKIXPublicKey other key) ↔
        FillsField key.point.X ∧ FillsField key.point.Y) := by
  refine ⟨fun point fitsX fitsY => roundTrips_iff_fills fitsX fitsY, fun key => ?_⟩
  obtain ⟨fitsX, fitsY⟩ := key.onCurve.fits
  constructor
  · rintro ⟨returned, -⟩
    exact (roundTrips_iff_fills fitsX fitsY).mp returned
  · intro fills
    have returned := (roundTrips_iff_fills fitsX fitsY).mpr fills
    exact ⟨returned, fun other => secretsAgree_of_returns marshals ((roundTrips_iff_nodePoint _).mp returned)⟩

def generatorKey : ECDHKey where
  D := 1
  point := ⟨0x6b17d1f2e12c4247f8bce6e563a440f277037d812deb33a0f4a13945d898c296,
    0x4fe342e2fe1a7f9b8ee7eb4a7c0f9e162bce33576b315ececbb6406837bf51f5⟩
  onCurve := by decide +kernel

def fieldCurve : Curve ECDHKey Point where
  parsePKIXPublicKey der := some ⟨LittleEndian.decode (der.take 32), LittleEndian.decode (der.drop 32)⟩
  scalarMult _ point := encode point.X

def fieldMarshal (point : Point) : Option Bytes :=
  some (encode 32 point.X ++ encode 32 point.Y)

theorem marshals_fieldCurve : Marshals fieldCurve fieldMarshal := by
  intro point onCurve
  obtain ⟨fitsX, fitsY⟩ := onCurve.fits
  rw [coordinate_width] at fitsX fitsY
  refine ⟨_, rfl, ?_⟩
  simp only [fieldCurve]
  rw [take_left' (length_encode 32 point.X), drop_left' (length_encode 32 point.X),
    LittleEndian.decode_encode, LittleEndian.decode_encode, Nat.mod_eq_of_lt fitsX, Nat.mod_eq_of_lt fitsY]

theorem generatorKey_exchanged :
    RoundTrips generatorKey.point ∧ ∀ other, SecretsAgree fieldCurve fieldMarshal other generatorKey :=
  ((nodeKey_exchanged_iff marshals_fieldCurve).2 generatorKey).mpr (by decide +kernel)

def shortKey : ECDHKey where
  D := 43
  point := ⟨0x986ae2506f1ff104d04230861d8f4b498f4bc4c6d009b30f7544dc129b82d28d,
    0x3cccc0a6460e0ae328a4d97d3c7b61d86fc6289c189f2525110c441bb07e97⟩
  onCurve := by decide +kernel

/-- The coordinates that are read belong to no point, and the multiplication panics. -/
theorem shortKey_not_exchanged :
    ¬ RoundTrips shortKey.point ∧ ∀ curve : Curve ECDHKey Point, ∀ other : ECDHKey,
      other.sharedSecretFromNodeJS curve shortKey.publicKeyForNodeJS = .error .invalidPoint := by
  have fits := shortKey.onCurve.fits
  have short : ¬ (FillsField shortKey.point.X ∧ FillsField shortKey.point.Y) := by decide +kernel
  refine ⟨mt (roundTrips_iff_fills fits.1 fits.2).mp short, fun curve other => ?_⟩
  have read := nodePoint_nodeBuffer (coordinate_width ▸ fits.1) (coordinate_width ▸ fits.2)
  have off : ¬ P256.Operand ⟨BigEndian.decode (BigEndian.leftAligned 32 shortKey.point.X),
      BigEndian.decode (BigEndian.leftAligned 32 shortKey.point.Y)⟩ := by decide +kernel
  rw [ECDHKey.sharedSecretFromNodeJS, ECDHKey.publicKeyForNodeJS, Base64.decode_encode]
  simp [read, bind, Except.bind, if_neg off]

end MycsCommon.Crypto
