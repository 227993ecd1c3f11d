import Mathlib.Data.List.Basic

/-! A register file addressed by bytes. Registers of different widths overlap in it. -/

namespace Library.Registers
open List

/-- The content of every place. -/
abbrev File := Nat → UInt8

/-- The file after the bytes were written from a place on. -/
def store (file : File) (start : Nat) (bytes : List UInt8) : File := fun place =>
  if place < start then file place else (bytes[place - start]?).getD (file place)

def fetch (file : File) (start count : Nat) : List UInt8 := (List.range count).map fun index => file (start + index)

variable {file : File} {start count : Nat} {bytes : List UInt8}

@[simp] theorem length_fetch : (fetch file start count).length = count := by simp [fetch]

theorem fetch_append (more : Nat) :
    fetch file start (count + more) = fetch file start count ++ fetch file (start + count) more := by
  simp only [fetch, range_add, map_append, map_map]
  congr 1
  apply map_congr_left
  intro index _
  simp [Nat.add_assoc]

theorem fetch_store (within : count ≤ bytes.length) : fetch (store file start bytes) start count = bytes.take count := by
  apply ext_getElem (by simp [within])
  intro index bound _
  have below : index < count := by simpa using bound
  have inside : ¬ start + index < start := by omega
  simp only [fetch, store, getElem_map, getElem_range, if_neg inside]
  simp [show index < bytes.length by omega]

theorem fetch_store_all : fetch (store file start bytes) start bytes.length = bytes := by
  rw [fetch_store (Nat.le_refl _), take_length]

end Library.Registers
