import Mathlib.Data.List.Basic
import Mathlib.Order.Lattice

/-! Go's `sort.Search`, and keeping a slice sorted by opening a place where it points. -/

namespace Library.SortedInsert
open List

/-- The loop of `sort.Search`: `holds` is false below `low` and true from `high` on. -/
def searchLoop (holds : Nat → Bool) (low high : Nat) : Nat :=
  if low < high then
    if holds ((low + high) / 2) then searchLoop holds low ((low + high) / 2)
    else searchLoop holds ((low + high) / 2 + 1) high
  else low
termination_by high - low

def search (count : Nat) (holds : Nat → Bool) : Nat := searchLoop holds 0 count

/-- The least index from which on the predicate holds. -/
structure Splits (count : Nat) (holds : Nat → Bool) (index : Nat) : Prop where
  inside : index ≤ count
  below : ∀ position, position < index → holds position = false
  above : ∀ position, index ≤ position → position < count → holds position = true

section

variable {count : Nat} {holds : Nat → Bool} (upward : ∀ first last, first ≤ last → last < count → holds first = true → holds last = true)
include upward

theorem searchLoop_splits (low high : Nat)
    (ordered : low ≤ high) (inside : high ≤ count) (below : ∀ position, position < low → holds position = false)
    (above : ∀ position, high ≤ position → position < count → holds position = true) :
    Splits count holds (searchLoop holds low high) := by
  fun_induction searchLoop holds low high with
  | case1 low high going yes ih =>
    refine ih (by omega) (by omega) below ?_
    intro position after bound
    exact upward _ position after bound yes
  | case2 low high going no ih =>
    refine ih (by omega) inside ?_ above
    intro position before
    by_contra held
    exact no (upward position _ (by omega) (by omega) (by simpa using held))
  | case3 low high closed =>
    have met : low = high := by omega
    subst met
    exact ⟨inside, below, above⟩

theorem search_splits :
    Splits count holds (search count holds) := by
  apply searchLoop_splits upward 0 count (Nat.zero_le _) (Nat.le_refl _)
  · intro position impossible
    omega
  · intro position after bound
    omega

end

variable {α κ : Type} [LinearOrder κ]

/-- The slice after `append`, `copy` and an assignment opened a place at an index. -/
def insertAt (items : List α) (index : Nat) (item : α) : List α := items.take index ++ item :: items.drop index

theorem mem_insertAt {items : List α} {index : Nat} {item other : α} :
    other ∈ insertAt items index item ↔ other = item ∨ other ∈ items := by
  have parts : other ∈ items ↔ other ∈ items.take index ∨ other ∈ items.drop index := by
    rw [← mem_append, take_append_drop]
  rw [parts, insertAt, mem_append, mem_cons]
  exact or_left_comm

theorem perm_insertAt (items : List α) (index : Nat) (item : α) : (insertAt items index item).Perm (item :: items) := by
  have middle : (insertAt items index item).Perm (item :: (items.take index ++ items.drop index)) := perm_middle
  rwa [take_append_drop] at middle

theorem map_insertAt {β : Type} (f : α → β) (items : List α) (index : Nat) (item : α) :
    (insertAt items index item).map f = insertAt (items.map f) index (f item) := by
  simp [insertAt]

theorem sublist_insertAt (items : List α) (index : Nat) (item : α) : items.Sublist (insertAt items index item) := by
  have longer := (sublist_cons_self item (items.drop index)).append_left (items.take index)
  rwa [take_append_drop] at longer

/-- Where `sort.Search` places a key in a slice of items: before the first one with a greater key. -/
def placeOf (key : α → κ) (new : κ) (items : List α) : Nat :=
  search items.length fun index => items[index]?.any fun item => decide (new < key item)

section
variable {key : α → κ} {items : List α}

section

variable (sorted : items.Pairwise fun first last => key first ≤ key last)
include sorted

theorem placeOf_splits
    (new : κ) : Splits items.length (fun index => items[index]?.any fun item => decide (new < key item))
      (placeOf key new items) := by
  apply search_splits
  intro first last ordered bound holds
  have start : first < items.length := by omega
  simp only [getElem?_eq_getElem start, getElem?_eq_getElem bound, Option.any_some,
    decide_eq_true_eq] at holds ⊢
  rcases Nat.lt_or_eq_of_le ordered with before | rfl
  · exact lt_of_lt_of_le holds (pairwise_iff_getElem.mp sorted first last start bound before)
  · exact holds

theorem le_of_mem_take_placeOf {new : κ} {other : α}
    (member : other ∈ items.take (placeOf key new items)) : key other ≤ new := by
  obtain ⟨position, -, rfl⟩ := mem_take_iff_getElem.mp member
  have no := (placeOf_splits sorted new).below position (by omega)
  simp only [getElem?_eq_getElem (show position < items.length by omega), Option.any_some,
    decide_eq_false_iff_not] at no
  exact not_lt.mp no

theorem lt_of_mem_drop_placeOf {new : κ} {other : α}
    (member : other ∈ items.drop (placeOf key new items)) : new < key other := by
  obtain ⟨position, -, rfl⟩ := mem_drop_iff_getElem.mp member
  have inside : placeOf key new items + position < items.length := by omega
  have yes := (placeOf_splits sorted new).above _ (Nat.le_add_right _ _) inside
  simpa only [getElem?_eq_getElem inside, Option.any_some, decide_eq_true_eq] using yes

end

theorem pairwise_insertAt {order : α → α → Prop} {item : α} {index : Nat} (sorted : items.Pairwise order)
    (before : ∀ other ∈ items.take index, order other item) (after : ∀ other ∈ items.drop index, order item other) :
    (insertAt items index item).Pairwise order := by
  have divided := (take_append_drop index items).symm ▸ sorted
  obtain ⟨lower, upper, across⟩ := pairwise_append.mp divided
  refine pairwise_append.mpr ⟨lower, pairwise_cons.mpr ⟨after, upper⟩, ?_⟩
  intro first early last late
  rcases mem_cons.mp late with rfl | late
  · exact before first early
  · exact across first early last late

theorem forall_of_pairwise_insertAt {order : α → α → Prop} {item : α} {index : Nat}
    (pairwise : (insertAt items index item).Pairwise order) : ∀ other ∈ items, order other item ∨ order item other := by
  obtain ⟨_, behind, across⟩ := pairwise_append.mp pairwise
  intro other member
  rw [← take_append_drop index items, mem_append] at member
  obtain before | after := member
  · exact .inl (across other before item (by simp))
  · exact .inr ((pairwise_cons.mp behind).1 other after)

theorem mem_head_insertAt {item first : α} {index : Nat} (head : first ∈ (insertAt items index item).head?) :
    first = item ∨ first ∈ items.head? := by
  unfold insertAt at head
  cases index with
  | zero => exact .inl (by simpa using head.symm)
  | succ index =>
    cases items with
    | nil => exact .inl (by simpa using head.symm)
    | cons start items => exact .inr (by simpa using head)

theorem ordered_insertAt (sorted : items.Pairwise fun first last => key first ≤ key last) (item : α) :
    (insertAt items (placeOf key (key item) items) item).Pairwise fun first last => key first ≤ key last :=
  pairwise_insertAt sorted (fun _ member => le_of_mem_take_placeOf sorted member)
    (fun _ member => le_of_lt (lt_of_mem_drop_placeOf sorted member))

theorem sorted_insertAt {item : α} (sorted : items.Pairwise fun first last => key first < key last)
    (fresh : ∀ other ∈ items, key other ≠ key item) :
    (insertAt items (placeOf key (key item) items) item).Pairwise fun first last => key first < key last := by
  have ordered := sorted.imp fun less => le_of_lt less
  refine pairwise_insertAt sorted (fun other member => ?_) (fun _ member => lt_of_mem_drop_placeOf ordered member)
  exact lt_of_le_of_ne (le_of_mem_take_placeOf ordered member) (fresh other (mem_of_mem_take member))

end

end Library.SortedInsert
