import Mathlib.Data.List.Basic
import MycsCommon.Crypto.Key

/-! Reseeding a key is deriving it with the new seed. -/

namespace MycsCommon.Crypto
open Network List

@[simp] theorem length_xorKey (seed : Int64) (key : Bytes) : (xorKey seed key).length = key.length := length_mapIdx

theorem xorKey_twice (seed : Int64) (key : Bytes) : xorKey seed (xorKey seed key) = key := by
  apply ext_getElem?
  intro i
  simp only [xorKey, getElem?_mapIdx, Option.map_map]
  cases key[i]? with
  | none => rfl
  | some byte =>
    simp only [Option.map_some, Function.comp_apply, Option.some.injEq]
    split
    · rw [UInt8.xor_assoc, UInt8.xor_self, UInt8.xor_zero]
    · rfl

theorem xorKey_zero (key : Bytes) : xorKey 0 key = key := by
  have zeros : ∀ i < 8, (xorBytes 0).getD i 0 = 0 := by decide
  apply ext_getElem?
  intro i
  simp only [xorKey, getElem?_mapIdx, zeros (i % 8) (Nat.mod_lt i (by decide)), UInt8.xor_zero, ite_self]
  cases key[i]? <;> rfl

/-- The special case for the seed zero is none. -/
theorem keyFromPassphrase_eq (sum256 : Bytes → Hash) (passphrase : Bytes) (seed : Int64) :
    keyFromPassphrase sum256 passphrase seed = xorKey seed (sum256 passphrase).val := by
  unfold keyFromPassphrase
  split
  · rfl
  next zero =>
    obtain rfl := not_not.mp zero
    exact (xorKey_zero _).symm

theorem reseedKey_xorKey (hash : Hash) (origSeed newSeed : Int64) :
    reseedKey (xorKey origSeed hash.val) origSeed newSeed = some (xorKey newSeed hash.val) := by
  rw [reseedKey, if_neg (by simp [hash.property]), xorKey_twice]

theorem reseedAll_xorKey (hash : Hash) (origSeed : Int64) (seeds : List Int64) :
    reseedAll (xorKey origSeed hash.val) origSeed seeds = some (xorKey (seeds.getLastD origSeed) hash.val) := by
  induction seeds generalizing origSeed with
  | nil => rfl
  | cons newSeed seeds ih =>
    rw [reseedAll, reseedKey_xorKey, Option.bind_some, ih, getLastD_cons]

theorem reseeding_is_deriving (sum256 : Bytes → Hash) (passphrase : Bytes) (seed : Int64) :
    (∀ newSeed, reseedKey (keyFromPassphrase sum256 passphrase seed) seed newSeed = some (keyFromPassphrase sum256 passphrase newSeed)) ∧
    (∀ seeds, reseedAll (keyFromPassphrase sum256 passphrase seed) seed seeds =
      some (keyFromPassphrase sum256 passphrase (seeds.getLastD seed))) ∧
    (∀ (key : Hash) seeds lastSeed, reseedAll key.val seed (seeds ++ [lastSeed]) = reseedKey key.val seed lastSeed) ∧
    ∀ key : Hash, reseedKey key.val seed seed = some key.val := by
  simp only [keyFromPassphrase_eq]
  refine ⟨reseedKey_xorKey _ seed, reseedAll_xorKey _ seed, fun key seeds lastSeed => ?_, fun key => ?_⟩
  · -- every key is what its own unseeded form derives
    have derived := reseedAll_xorKey ⟨xorKey seed key.val, by simp [key.property]⟩ seed (seeds ++ [lastSeed])
    have once := reseedKey_xorKey ⟨xorKey seed key.val, by simp [key.property]⟩ seed lastSeed
    simp only [xorKey_twice, getLastD_concat] at derived once
    rw [derived, once]
  · rw [reseedKey, if_neg (by simp [key.property]), xorKey_twice]

end MycsCommon.Crypto
