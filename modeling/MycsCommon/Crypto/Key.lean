import MycsCommon.Network.Netip

/-! Keys derived from a passphrase and a seed, of crypto/key.go. -/

namespace MycsCommon.Crypto
open Network

abbrev Hash := { bytes : Bytes // bytes.length = 32 }

/-- The bytes of a seed, the lowest first; the shift keeps the sign. -/
def xorBytes (seed : Int64) : Bytes :=
  (List.range 8).map fun i => UInt8.ofBitVec ((seed.toBitVec.sshiftRight (8 * i)).setWidth 8)

/-- The loop over the first 32 bytes of a key. -/
def xorKey (seed : Int64) (key : Bytes) : Bytes :=
  key.mapIdx fun i byte => if i < 32 then byte ^^^ (xorBytes seed).getD (i % 8) 0 else byte

def keyFromPassphrase (sum256 : Bytes → Hash) (passphrase : Bytes) (seed : Int64) : Bytes :=
  let key := sum256 passphrase
  if seed ≠ 0 then xorKey seed key.val else key.val

/-- Nothing where the index is out of range. -/
def reseedKey (key : Bytes) (origSeed newSeed : Int64) : Option Bytes :=
  if key.length < 32 then none else some (xorKey newSeed (xorKey origSeed key))

/-- A key that is reseeded again and again, each time from the seed it got last. -/
def reseedAll (key : Bytes) (origSeed : Int64) : List Int64 → Option Bytes
  | [] => some key
  | newSeed :: seeds => (reseedKey key origSeed newSeed).bind fun key => reseedAll key newSeed seeds

end MycsCommon.Crypto
