import Mathlib.Data.List.Basic

/-! Go slices over shared backing arrays. Appending to a slice with spare capacity
writes into the array it shares with every other slice cut from it; appending to a
full one copies. Every slice here starts at the first cell of its array. -/

namespace Library.Slices
open List

variable {α : Type}

/-- The written cells of each backing array, in the order of allocation. -/
abbrev Heap (α : Type) := List (List α)

structure Slice where
  array : Nat
  len : Nat
  cap : Nat
deriving DecidableEq, Repr

/-- The literal `[]T{}`: no elements and no capacity. -/
def empty : Slice := ⟨0, 0, 0⟩

def cells (heap : Heap α) (slice : Slice) : List α := heap.getD slice.array []

def read (heap : Heap α) (slice : Slice) : List α := (cells heap slice).take slice.len

/-- The capacity of the array `append` allocates: twice the old one, unless more
elements are needed. It is exact for two-word elements up to 256 bytes, where every
multiple of 16 bytes is a size class of its own. -/
def growCap (oldCap newLen : Nat) : Nat := if 2 * oldCap < newLen then newLen else 2 * oldCap

def overwrite (items : List α) (len : Nat) (old : List α) : List α :=
  old.take len ++ items ++ old.drop (len + items.length)

def append (heap : Heap α) (slice : Slice) (items : List α) : Heap α × Slice :=
  if slice.len + items.length ≤ slice.cap then
    (heap.modify slice.array (overwrite items slice.len), { slice with len := slice.len + items.length })
  else
    (heap ++ [read heap slice ++ items],
      ⟨heap.length, slice.len + items.length, growCap slice.cap (slice.len + items.length)⟩)

/-- `append` with any way of choosing the capacity of a new array. -/
def appendBy (grow : Nat → Nat → Nat) (heap : Heap α) (slice : Slice) (items : List α) : Heap α × Slice :=
  if slice.len + items.length ≤ slice.cap then
    (heap.modify slice.array (overwrite items slice.len), { slice with len := slice.len + items.length })
  else
    (heap ++ [read heap slice ++ items],
      ⟨heap.length, slice.len + items.length, grow slice.cap (slice.len + items.length)⟩)

/-- A new array has room for what is appended. -/
def Roomy (grow : Nat → Nat → Nat) : Prop := ∀ oldCap newLen, newLen ≤ grow oldCap newLen

theorem roomy_growCap : Roomy growCap := by
  intro oldCap newLen
  unfold growCap
  split <;> omega

/-- A slice whose elements are written cells of an array of the heap. -/
structure Valid (heap : Heap α) (slice : Slice) : Prop where
  written : slice.len ≤ (cells heap slice).length
  bounded : slice.len ≤ slice.cap
  allocated : 0 < slice.cap → slice.array < heap.length

/-- No room for these elements: the append has to allocate. -/
def Full (slice : Slice) (count : Nat) : Prop := slice.cap < slice.len + count

instance (slice : Slice) (count : Nat) : Decidable (Full slice count) := inferInstanceAs (Decidable (_ < _))

theorem valid_empty (heap : Heap α) : Valid heap empty :=
  ⟨Nat.zero_le _, Nat.le_refl _, fun impossible => absurd impossible (Nat.lt_irrefl 0)⟩

theorem length_read {heap : Heap α} {slice : Slice} (valid : Valid heap slice) :
    (read heap slice).length = slice.len := by
  simp [read, Nat.min_eq_left valid.written]

section Grow

variable {grow : Nat → Nat → Nat} {heap : Heap α} {slice other : Slice} {items : List α}

theorem appendBy_full (full : Full slice items.length) :
    appendBy grow heap slice items = (heap ++ [read heap slice ++ items],
      ⟨heap.length, slice.len + items.length, grow slice.cap (slice.len + items.length)⟩) := by
  simp [appendBy, if_neg (Nat.not_le.mpr full)]

theorem appendBy_spare (spare : ¬ Full slice items.length) :
    appendBy grow heap slice items = (heap.modify slice.array (overwrite items slice.len),
      { slice with len := slice.len + items.length }) := by
  simp [appendBy, if_pos (Nat.not_lt.mp spare)]

end Grow

theorem append_full {heap : Heap α} {slice : Slice} {items : List α} (full : Full slice items.length) :
    append heap slice items = (heap ++ [read heap slice ++ items],
      ⟨heap.length, slice.len + items.length, growCap slice.cap (slice.len + items.length)⟩) :=
  appendBy_full full

theorem append_spare {heap : Heap α} {slice : Slice} {items : List α} (spare : ¬ Full slice items.length) :
    append heap slice items = (heap.modify slice.array (overwrite items slice.len),
      { slice with len := slice.len + items.length }) :=
  appendBy_spare spare

theorem append_len (heap : Heap α) (slice : Slice) (items : List α) :
    (append heap slice items).2.len = slice.len + items.length := by
  unfold append
  split <;> rfl

theorem append_cap (heap : Heap α) (slice : Slice) (items : List α) :
    (append heap slice items).2.cap = if slice.len + items.length ≤ slice.cap then slice.cap
      else growCap slice.cap (slice.len + items.length) := by
  unfold append
  split <;> rfl

private theorem cells_modify (heap : Heap α) (slice : Slice) (change : List α → List α) (other : Slice)
    (allocated : slice.array < heap.length) :
    cells (heap.modify slice.array change) other =
      if slice.array = other.array then change (cells heap other) else cells heap other := by
  simp only [cells, getD_eq_getElem?_getD, getElem?_modify]
  split
  next same =>
    rw [← same, getElem?_eq_getElem allocated]
    simp [same]
  next => simp

theorem cells_append_left {heap : Heap α} {slice : Slice} (allocated : slice.array < heap.length) (more : Heap α) :
    cells (heap ++ more) slice = cells heap slice := by
  simp [cells, getElem?_append_left allocated]

theorem read_grown {heap : Heap α} {slice : Slice} (valid : Valid heap slice) (more : Heap α) :
    read (heap ++ more) slice = read heap slice := by
  by_cases none : slice.cap = 0
  · have short := Nat.le_zero.mp (none ▸ valid.bounded)
    simp [read, short]
  · simp [read, cells_append_left (valid.allocated (Nat.pos_of_ne_zero none))]

theorem valid_grown {heap : Heap α} {slice : Slice} (valid : Valid heap slice) (more : Heap α) :
    Valid (heap ++ more) slice := by
  by_cases none : slice.cap = 0
  · have short := Nat.le_zero.mp (none ▸ valid.bounded)
    exact ⟨by omega, valid.bounded, by omega⟩
  · have allocated := valid.allocated (Nat.pos_of_ne_zero none)
    refine ⟨?_, valid.bounded, fun _ => by simp only [length_append]; omega⟩
    rw [cells_append_left allocated]
    exact valid.written

section Grow

variable {grow : Nat → Nat → Nat} {heap : Heap α} {slice other : Slice} {items : List α}

theorem valid_appendBy (roomy : Roomy grow) (valid : Valid heap slice) :
    Valid (appendBy grow heap slice items).1 (appendBy grow heap slice items).2 := by
  by_cases full : Full slice items.length
  · rw [appendBy_full full]
    refine ⟨?_, roomy _ _, fun _ => by simp⟩
    simp [cells, length_read valid]
  · rw [appendBy_spare full]
    have room := Nat.not_lt.mp full
    by_cases none : slice.cap = 0
    · have short : slice.len + items.length = 0 := by omega
      exact ⟨by simp [short], by simp [short], fun some => absurd some (by simp [none])⟩
    · have allocated := valid.allocated (Nat.pos_of_ne_zero none)
      refine ⟨?_, room, fun _ => by simpa using allocated⟩
      have written := valid.written
      have shape := cells_modify heap slice (overwrite items slice.len) ⟨slice.array, slice.len + items.length, slice.cap⟩
        allocated
      simp only [if_true] at shape
      rw [shape]
      have same : cells heap ⟨slice.array, slice.len + items.length, slice.cap⟩ = cells heap slice := rfl
      simp only [same, overwrite, length_append, length_take, length_drop]
      omega

theorem read_appendBy (valid : Valid heap slice) :
    read (appendBy grow heap slice items).1 (appendBy grow heap slice items).2 = read heap slice ++ items := by
  have length := length_read valid
  by_cases full : Full slice items.length
  · rw [appendBy_full full]
    have whole : (read heap slice ++ items).length = slice.len + items.length := by simp [length]
    simp only [read, cells, getD_eq_getElem?_getD, getElem?_concat_length, Option.getD_some]
    rw [← whole]
    exact take_length
  · rw [appendBy_spare full]
    have room := Nat.not_lt.mp full
    by_cases none : slice.cap = 0
    · have short : slice.len = 0 := by omega
      have nothing : items = [] := length_eq_zero_iff.mp (by omega)
      simp [read, short, nothing]
    · have allocated := valid.allocated (Nat.pos_of_ne_zero none)
      have shape := cells_modify heap slice (overwrite items slice.len) ⟨slice.array, slice.len + items.length, slice.cap⟩
        allocated
      simp only [if_true] at shape
      have same : cells heap ⟨slice.array, slice.len + items.length, slice.cap⟩ = cells heap slice := rfl
      simp only [read, shape, same, overwrite]
      rw [append_assoc, ← append_assoc, take_append_of_le_length]
      · rw [take_of_length_le]
        simp [Nat.min_eq_left valid.written]
      · simp [Nat.min_eq_left valid.written]

/-- An append never touches a slice of another array, nor one that ends before the
cells it writes. -/
theorem read_appendBy_of_apart (valid : Valid heap slice) (kept : Valid heap other)
    (apart : Full slice items.length ∨ other.array ≠ slice.array ∨ other.len ≤ slice.len) :
    read (appendBy grow heap slice items).1 other = read heap other := by
  by_cases full : Full slice items.length
  · rw [appendBy_full full]
    exact read_grown kept _
  · rw [appendBy_spare full]
    by_cases none : slice.cap = 0
    · have room := Nat.not_lt.mp full
      have short : slice.len = 0 := by omega
      have nothing : items = [] := length_eq_zero_iff.mp (by omega)
      have idle : (overwrite items slice.len : List α → List α) = id := by
        funext old
        simp [overwrite, short, nothing]
      simp [idle]
    · have allocated := valid.allocated (Nat.pos_of_ne_zero none)
      simp only [read, cells_modify heap slice _ other allocated]
      split
      next same =>
        have before : other.len ≤ slice.len := by
          rcases apart with impossible | different | before
          · exact absurd impossible full
          · exact absurd same.symm different
          · exact before
        have shared : cells heap other = cells heap slice := by simp only [cells, same]
        have written := valid.written
        simp only [overwrite, shared, append_assoc]
        rw [take_append_of_le_length (by simp only [length_take]; omega), take_take,
          Nat.min_eq_left before]
      next => rfl

theorem valid_appendBy_other (valid : Valid heap slice) (kept : Valid heap other) :
    Valid (appendBy grow heap slice items).1 other := by
  by_cases full : Full slice items.length
  · rw [appendBy_full full]
    exact valid_grown kept _
  · rw [appendBy_spare full]
    refine ⟨?_, kept.bounded, fun some => by simpa using kept.allocated some⟩
    by_cases none : slice.array < heap.length
    · rw [cells_modify heap slice _ other none]
      split
      next same =>
        have shared : cells heap other = cells heap slice := by simp only [cells, same]
        have written := kept.written
        have spare := Nat.not_lt.mp full
        have owned := valid.written
        rw [shared] at written ⊢
        simp only [overwrite, length_append, length_take, length_drop]
        omega
      next => exact kept.written
    · rw [modify_eq_self (Nat.not_lt.mp none)]
      exact kept.written

/-- A slice of an array that is there, even without room. -/
structure Owned (heap : Heap α) (slice : Slice) : Prop extends Valid heap slice where
  present : slice.array < heap.length

theorem length_appendBy : heap.length ≤ (appendBy grow heap slice items).1.length := by
  unfold appendBy
  split <;> simp

theorem owned_appendBy (roomy : Roomy grow) (owned : Owned heap slice) :
    Owned (appendBy grow heap slice items).1 (appendBy grow heap slice items).2 := by
  refine ⟨valid_appendBy roomy owned.toValid, ?_⟩
  unfold appendBy
  split
  · simpa using owned.present
  · simp

theorem owned_appendBy_other (owned : Owned heap slice) (kept : Owned heap other) :
    Owned (appendBy grow heap slice items).1 other :=
  ⟨valid_appendBy_other owned.toValid kept.toValid, Nat.lt_of_lt_of_le kept.present length_appendBy⟩

theorem array_appendBy_ne (kept : Owned heap other) (apart : other.array ≠ slice.array) :
    other.array ≠ (appendBy grow heap slice items).2.array := by
  have inside := kept.present
  unfold appendBy
  split
  · exact apart
  · exact Nat.ne_of_lt inside

/-- Slices that share no array: what is written through one of them is not seen through another. -/
structure Separate (heap : Heap α) (slices : List Slice) : Prop where
  owned : ∀ slice ∈ slices, Owned heap slice
  apart : (slices.map Slice.array).Nodup

variable {others : List Slice}

theorem Separate.perm {slices reordered : List Slice} (separate : Separate heap slices) (same : reordered.Perm slices) :
    Separate heap reordered :=
  ⟨fun slice member => separate.owned slice (same.subset member), (same.map _).nodup_iff.mpr separate.apart⟩

theorem Separate.sublist {slices fewer : List Slice} (separate : Separate heap slices) (part : fewer.Sublist slices) :
    Separate heap fewer :=
  ⟨fun slice member => separate.owned slice (part.subset member), separate.apart.sublist (part.map _)⟩

theorem Separate.tail (separate : Separate heap (slice :: others)) : Separate heap others :=
  ⟨fun other member => separate.owned other (mem_cons_of_mem _ member), (nodup_cons.mp separate.apart).2⟩

theorem Separate.ne (separate : Separate heap (slice :: others)) (member : other ∈ others) : other.array ≠ slice.array := by
  intro same
  exact (nodup_cons.mp separate.apart).1 (mem_map.mpr ⟨other, member, same⟩)

theorem Separate.cons (separate : Separate heap others) (owned : Owned heap slice)
    (apart : ∀ other ∈ others, other.array ≠ slice.array) : Separate heap (slice :: others) := by
  refine ⟨forall_mem_cons.mpr ⟨owned, separate.owned⟩, nodup_cons.mpr ⟨?_, separate.apart⟩⟩
  intro member
  obtain ⟨other, present, same⟩ := mem_map.mp member
  exact apart other present same

theorem Separate.read_other (separate : Separate heap (slice :: others)) (member : other ∈ others) :
    read (appendBy grow heap slice items).1 other = read heap other :=
  read_appendBy_of_apart (separate.owned slice (by simp)).toValid
    (separate.owned other (mem_cons_of_mem _ member)).toValid (.inr (.inl (separate.ne member)))

theorem Separate.append (roomy : Roomy grow) (separate : Separate heap (slice :: others)) :
    Separate (appendBy grow heap slice items).1 ((appendBy grow heap slice items).2 :: others) := by
  have owned := separate.owned slice (by simp)
  have kept : Separate (appendBy grow heap slice items).1 others :=
    ⟨fun other member => owned_appendBy_other owned (separate.tail.owned other member), separate.tail.apart⟩
  exact kept.cons (owned_appendBy roomy owned) fun other member =>
    array_appendBy_ne (separate.tail.owned other member) (separate.ne member)

/-- The slice of a new array that starts with the given elements. -/
def fresh (heap : Heap α) (items : List α) (cap : Nat) : Slice := ⟨heap.length, items.length, cap⟩

theorem owned_grown (owned : Owned heap slice) (more : Heap α) : Owned (heap ++ more) slice :=
  ⟨valid_grown owned.toValid more, by
    have := owned.present
    simp only [length_append]
    omega⟩

theorem read_fresh (cap : Nat) : read (heap ++ [items]) (fresh heap items cap) = items := by
  simp [read, cells, fresh]

theorem Separate.alloc (separate : Separate heap others) {cap : Nat} (room : items.length ≤ cap) :
    Separate (heap ++ [items]) (fresh heap items cap :: others) := by
  have kept : Separate (heap ++ [items]) others :=
    ⟨fun other member => owned_grown (separate.owned other member) _, separate.apart⟩
  refine kept.cons ⟨⟨?_, room, fun _ => ?_⟩, ?_⟩ fun other member => ?_
  · simp [cells, fresh]
  · simp [fresh]
  · simp [fresh]
  · exact Nat.ne_of_lt (separate.owned other member).present

theorem appendBy_empty (some : items ≠ []) :
    appendBy grow heap empty items = (heap ++ [items], fresh heap items (grow 0 items.length)) := by
  have full : Full empty items.length := by
    have := length_pos_iff.mpr some
    simpa [Full, empty] using this
  rw [appendBy_full full]
  simp [empty, read, fresh]

theorem Separate.reset (separate : Separate heap (slice :: others)) :
    Separate heap ({ slice with len := 0 } :: others) := by
  have owned := separate.owned slice (by simp)
  exact separate.tail.cons ⟨⟨Nat.zero_le _, Nat.zero_le _, owned.allocated⟩, owned.present⟩
    fun other member => separate.ne member

theorem read_reset : read heap { slice with len := 0 } = [] := by simp [read]

end Grow

section

variable {heap : Heap α} {slice : Slice} (valid : Valid heap slice)
include valid

theorem valid_append {items : List α} :
    Valid (append heap slice items).1 (append heap slice items).2 :=
  valid_appendBy roomy_growCap valid

theorem read_append {items : List α} :
    read (append heap slice items).1 (append heap slice items).2 = read heap slice ++ items :=
  read_appendBy valid

theorem read_append_of_apart {other : Slice} {items : List α} (kept : Valid heap other)
    (apart : Full slice items.length ∨ other.array ≠ slice.array ∨ other.len ≤ slice.len) :
    read (append heap slice items).1 other = read heap other :=
  read_appendBy_of_apart valid kept apart

theorem valid_append_other {other : Slice} {items : List α} (kept : Valid heap other) : Valid (append heap slice items).1 other :=
  valid_appendBy_other valid kept

end

end Library.Slices
