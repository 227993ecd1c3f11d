import Mathlib.Data.List.AList
import Mathlib.Algebra.GroupWithZero.Nat

/-! Shared items held by keyed owners. An owner may hold an item more than once and
several owners may hold the same one; the references of an item are counted over all
owners together. -/

namespace Library.RefCount
open List AList

variable {κ ι : Type}

/-- Each key with the items it holds, in the order it took them. -/
abbrev Owners (κ ι : Type) := AList (fun _ : κ => List ι)

/-- How many held items satisfy the predicate, over every owner. -/
def total (owners : Owners κ ι) (chosen : ι → Bool) : Nat :=
  (owners.entries.map fun entry => entry.2.countP chosen).sum

variable [DecidableEq κ]

def held (owners : Owners κ ι) (key : κ) : List ι := (owners.lookup key).getD []

private theorem sum_kerase (chosen : ι → Bool) (key : κ) (entries : List (Sigma fun _ : κ => List ι)) :
    (entries.map fun entry => entry.2.countP chosen).sum =
      ((entries.dlookup key).getD []).countP chosen +
        ((entries.kerase key).map fun entry => entry.2.countP chosen).sum := by
  induction entries with
  | nil => rfl
  | cons entry entries ih =>
    obtain ⟨owner, items⟩ := entry
    by_cases same : key = owner
    · subst same
      simp
    · rw [dlookup_cons_ne entries ⟨owner, items⟩ same, kerase_cons_ne same]
      simp only [map_cons, sum_cons]
      omega

section

variable (owners : Owners κ ι)
include owners

theorem total_split (key : κ) (chosen : ι → Bool) :
    total owners chosen = (held owners key).countP chosen + total (owners.erase key) chosen :=
  sum_kerase chosen key owners.entries

theorem total_insert (key : κ) (items : List ι) (chosen : ι → Bool) :
    total (owners.insert key items) chosen = items.countP chosen + total (owners.erase key) chosen := by
  simp only [total, entries_insert, map_cons, sum_cons]
  rfl

theorem total_append (key : κ) (more : List ι) (chosen : ι → Bool) :
    total (owners.insert key (held owners key ++ more)) chosen = total owners chosen + more.countP chosen := by
  rw [total_insert, total_split owners key, countP_append]
  omega

theorem held_insert (key other : κ) (items : List ι) :
    held (owners.insert key items) other = if other = key then items else held owners other := by
  unfold held
  split
  next same => subst same; simp
  next different => rw [lookup_insert_ne different]

theorem held_erase (key other : κ) :
    held (owners.erase key) other = if other = key then [] else held owners other := by
  unfold held
  split
  next same => subst same; simp
  next different => rw [lookup_erase_ne different]

end

private theorem sum_eq_zero (chosen : ι → Bool) (entries : List (Sigma fun _ : κ => List ι))
    (distinct : entries.NodupKeys) : (entries.map fun entry => entry.2.countP chosen).sum = 0 ↔
      ∀ key, ∀ item ∈ (entries.dlookup key).getD [], chosen item = false := by
  induction entries with
  | nil => simp
  | cons entry entries ih =>
    obtain ⟨owner, items⟩ := entry
    obtain ⟨fresh, distinct⟩ := nodupKeys_cons.mp distinct
    have absent := dlookup_eq_none.mpr fresh
    simp only [map_cons, sum_cons, Nat.add_eq_zero_iff, ih distinct, countP_eq_zero]
    constructor
    · rintro ⟨first, rest⟩ key item member
      by_cases same : key = owner
      · subst same
        simp only [dlookup_cons_eq, Option.getD_some] at member
        simpa using first item member
      · rw [dlookup_cons_ne entries ⟨owner, items⟩ same] at member
        exact rest key item member
    · intro none
      refine ⟨fun item member => by simpa using none owner item (by simpa using member), fun key item member => ?_⟩
      by_cases same : key = owner
      · subst same
        simp [absent] at member
      · exact none key item (by rwa [dlookup_cons_ne entries ⟨owner, items⟩ same])

theorem total_eq_zero (owners : Owners κ ι) (chosen : ι → Bool) :
    total owners chosen = 0 ↔ ∀ key, ∀ item ∈ held owners key, chosen item = false :=
  sum_eq_zero chosen owners.entries owners.nodupKeys

theorem total_pos {owners : Owners κ ι} {chosen : ι → Bool} :
    0 < total owners chosen ↔ ∃ key, ∃ item ∈ held owners key, chosen item = true := by
  rw [Nat.pos_iff_ne_zero, Ne, total_eq_zero]
  push Not
  simp

/-! Counts kept beside the owners, one entry for each name that is in use. -/

section Counts

variable {τ : Type} [DecidableEq τ] {refs : AList (fun _ : τ => Int)} {count : τ → Nat}

/-- Every name has its count, and names that are not in use have no entry. -/
def Exact (refs : AList (fun _ : τ => Int)) (count : τ → Nat) : Prop :=
  ∀ name, refs.lookup name = if count name = 0 then none else some (count name : Int)

section

variable (exact : Exact refs count)
include exact

theorem Exact.getD (name : τ) : (refs.lookup name).getD 0 = count name := by
  rw [exact name]
  split
  next unused => simp [unused]
  next => rfl

theorem Exact.acquire (name : τ) :
    Exact (refs.insert name ((refs.lookup name).getD 0 + 1)) (fun other => count other + if other = name then 1 else 0) := by
  intro other
  by_cases same : other = name
  · subst same
    simp [exact.getD]
  · simp [lookup_insert_ne same, exact other, same]

section

variable {name : τ} {others : τ → Nat} (split : ∀ other, count other = others other + if other = name then 1 else 0)
include split

theorem Exact.release_last (last : others name = 0) :
    Exact (refs.erase name) others := by
  intro other
  by_cases same : other = name
  · subst same
    simp [last]
  · rw [lookup_erase_ne same, exact other, split other, if_neg same, Nat.add_zero]

theorem Exact.release (more : others name ≠ 0) :
    Exact (refs.insert name ((refs.lookup name).getD 0 - 1)) others := by
  intro other
  by_cases same : other = name
  · subst same
    simp [exact.getD, split other, more]
  · rw [lookup_insert_ne same, exact other, split other, if_neg same, Nat.add_zero]

end

end

/-- The items whose name nobody holds any more once the list is given up, each once. -/
def lastHeld (name : ι → τ) (others : τ → Nat) : List ι → List ι
  | [] => []
  | item :: items =>
    if others (name item) + items.countP (name · = name item) = 0 then item :: lastHeld name others items
    else lastHeld name others items

theorem mem_lastHeld {name : ι → τ} {others : τ → Nat} {items : List ι} {item : ι}
    (member : item ∈ lastHeld name others items) : item ∈ items ∧ others (name item) = 0 := by
  induction items with
  | nil => simp [lastHeld] at member
  | cons first items ih =>
    simp only [lastHeld] at member
    split at member
    next last =>
      rcases mem_cons.mp member with rfl | member
      · exact ⟨by simp, by omega⟩
      · exact ⟨by simp [(ih member).1], (ih member).2⟩
    next => exact ⟨by simp [(ih member).1], (ih member).2⟩

theorem exists_lastHeld {name : ι → τ} {others : τ → Nat} {items : List ι} {target : τ}
    (named : ∃ item ∈ items, name item = target) (unheld : others target = 0) :
    ∃ last ∈ lastHeld name others items, name last = target := by
  induction items with
  | nil => simp at named
  | cons first items ih =>
    simp only [lastHeld]
    by_cases later : ∃ item ∈ items, name item = target
    · obtain ⟨last, member, same⟩ := ih later
      refine ⟨last, ?_, same⟩
      split
      · simp [member]
      · exact member
    · -- the name does not come up again
      obtain ⟨item, member, same⟩ := named
      rcases mem_cons.mp member with rfl | member
      · have none : items.countP (name · = name item) = 0 := by
          rw [countP_eq_zero]
          intro other held equal
          exact later ⟨other, held, (of_decide_eq_true equal).trans same⟩
        refine ⟨item, ?_, same⟩
        rw [if_pos (by rw [none, same, unheld])]
        simp
      · exact absurd ⟨item, member, same⟩ later

end Counts

end Library.RefCount
