import Mathlib.Data.List.Basic
import MycsCommon.Library.Text
import MycsCommon.Network.NetworkUtils

/-! The next device name is free. A name that is taken and is spelled as the next one
would have an index above the largest. -/

namespace MycsCommon.Network
open List Option String

/-- One of the names is the stem and decimal digits, which may start with zeros, for an index that fits an int. -/
def Indexed (stem : Stem) (names : List String) (index : Nat) : Prop :=
  ∃ digits, ofList (stem.text ++ digits) ∈ names ∧ digits ≠ [] ∧ (∀ char ∈ digits, char.isDigit) ∧
    Nat.ofDigitChars 10 digits 0 = index ∧ index < 2 ^ 63

theorem capture_eq_some_iff {stem : Stem} {name digits} : stem.capture name = some digits ↔
      name = ofList (stem.text ++ digits) ∧ digits ≠ [] ∧ ∀ char ∈ digits, char.isDigit := by
  simp only [Stem.capture, filter_eq_some_iff, dropPrefix?_eq_some_iff, beq_iff_eq]
  constructor
  · rintro ⟨⟨_, spelled, rfl⟩, digitsOnly⟩
    refine ⟨?_, by simpa using digitsOnly⟩
    rw [← spelled, ofList_toList]
  · rintro ⟨rfl, digitsOnly⟩
    exact ⟨⟨_, by simp, rfl⟩, by simpa using digitsOnly⟩

theorem not_indexed_nil (stem : Stem) (index : Nat) : ¬ Indexed stem [] index :=
  fun ⟨_, listed, _⟩ => absurd listed not_mem_nil

theorem indexed_cons_iff {stem : Stem} {name names index} :
    Indexed stem (name :: names) index ↔ (stem.capture name).bind digitsAtoi = some index ∨ Indexed stem names index := by
  constructor
  · rintro ⟨digits, listed, some, digitsOnly, value, fits⟩
    obtain here | later := mem_cons.mp listed
    · have captured := capture_eq_some_iff.mpr ⟨here.symm, some, digitsOnly⟩
      exact .inl (by rw [captured, bind_some, digitsAtoi, value, if_pos fits])
    · exact .inr ⟨digits, later, some, digitsOnly, value, fits⟩
  · rintro (here | ⟨digits, listed, rest⟩)
    · obtain ⟨digits, captured, parsed⟩ := bind_eq_some_iff.mp here
      obtain ⟨rfl, some, digitsOnly⟩ := capture_eq_some_iff.mp captured
      obtain ⟨fits, value⟩ : Nat.ofDigitChars 10 digits 0 < 2 ^ 63 ∧ Nat.ofDigitChars 10 digits 0 = index := by
        simpa [digitsAtoi] using parsed
      exact ⟨digits, by simp, some, digitsOnly, value, value ▸ fits⟩
    · exact ⟨digits, mem_cons_of_mem _ listed, rest⟩

theorem larger_eq (stem : Stem) (maxIndex : Int) (name : String) :
    stem.larger maxIndex name = ((stem.capture name).bind digitsAtoi).elim maxIndex fun devIndex => max maxIndex devIndex := by
  cases found : (stem.capture name).bind digitsAtoi with
  | none => simp [Stem.larger, found]
  | some devIndex =>
    simp only [Stem.larger, found, elim_some]
    split <;> omega

/-- The loop's result: no index is above it, and it is one of them unless it is where the loop started. -/
theorem foldl_larger (stem : Stem) (names : List String) (start : Int) :
    start ≤ names.foldl stem.larger start ∧ (∀ index, Indexed stem names index → index ≤ names.foldl stem.larger start) ∧
      (names.foldl stem.larger start = start ∨ ∃ index, Indexed stem names index ∧ names.foldl stem.larger start = index) := by
  induction names generalizing start with
  | nil => exact ⟨le_rfl, fun index indexed => absurd indexed (not_indexed_nil stem index), .inl rfl⟩
  | cons name names ih =>
    obtain ⟨above, bounds, reached⟩ := ih (stem.larger start name)
    rw [foldl_cons]
    simp only [indexed_cons_iff]
    have turn := larger_eq stem start name
    cases found : (stem.capture name).bind digitsAtoi with
    | none =>
      rw [found, elim_none] at turn
      rw [turn] at above bounds reached ⊢
      refine ⟨above, ?_, reached.imp id fun ⟨index, indexed, same⟩ => ⟨index, .inr indexed, same⟩⟩
      exact fun index given => bounds index (given.resolve_left (by simp))
    | some devIndex =>
      rw [found, elim_some] at turn
      refine ⟨by omega, ?_, ?_⟩
      · rintro index (here | later)
        · obtain rfl : devIndex = index := by simpa using here
          omega
        · exact bounds index later
      · obtain still | ⟨index, indexed, same⟩ := reached
        · rw [still, turn]
          rcases max_choice start (devIndex : Int) with same | same
          · exact .inl same
          · exact .inr ⟨devIndex, .inl rfl, same⟩
        · exact .inr ⟨index, .inr indexed, same⟩

theorem indexed_of_spelled {stem names index} (fits : index < 2 ^ 63)
    (listed : ofList stem.text ++ index.repr ∈ names) : Indexed stem names index := by
  have spelled : ofList (stem.text ++ Nat.toDigits 10 index) = ofList stem.text ++ index.repr := by
    rw [ofList_append]
    rfl
  refine ⟨Nat.toDigits 10 index, spelled ▸ listed, Nat.toDigits_ne_nil, ?_, Nat.ofDigitChars_ten_toDigits, fits⟩
  exact fun char member => Nat.isDigit_of_mem_toDigits (by decide) (by decide) member

theorem nextInterface_free {Fault : Type} (stem : Stem) (names : List String) (room : ¬ Indexed stem names (2 ^ 63 - 1)) :
    ∃ next : Nat, getNextAvailabeInterface stem (.ok names : Except Fault _) = .ok (ofList stem.text ++ next.repr) ∧
      (next = 0 ∧ (∀ index, ¬ Indexed stem names index) ∨
        ∃ largest, next = largest + 1 ∧ Indexed stem names largest ∧ ∀ index, Indexed stem names index → index ≤ largest) ∧
      ofList stem.text ++ next.repr ∉ names := by
  obtain ⟨-, bounds, reached⟩ := foldl_larger stem names (-1)
  have spelled : ∀ next : Nat, names.foldl stem.larger (-1) + 1 = next → next < 2 ^ 63 →
      getNextAvailabeInterface stem (.ok names : Except Fault _) = .ok (ofList stem.text ++ next.repr) := by
    intro next same fits
    have held : Utils.int64 (next : Int) = next := by
      unfold Utils.int64
      rw [Int.bmod_eq_of_le] <;> omega
    change Except.ok (ofList stem.text ++ (Utils.int64 (names.foldl stem.larger (-1) + 1)).repr) = _
    rw [same, held]
    rfl
  obtain none | ⟨largest, indexed, same⟩ := reached
  · have empty : ∀ index, ¬ Indexed stem names index := fun index indexed => by
      have bound := bounds index indexed
      omega
    exact ⟨0, spelled 0 (by omega) (by decide), .inl ⟨rfl, empty⟩, fun listed => empty 0 (indexed_of_spelled (by decide) listed)⟩
  · have most : ∀ index, Indexed stem names index → index ≤ largest := fun index given => by
      have bound := bounds index given
      omega
    have fits : largest + 1 < 2 ^ 63 := by
      have below := indexed.choose_spec.2.2.2.2
      have other : largest ≠ 2 ^ 63 - 1 := fun top => room (top ▸ indexed)
      omega
    refine ⟨largest + 1, spelled _ (by omega) fits, .inr ⟨largest, rfl, indexed, most⟩, fun listed => ?_⟩
    exact absurd (most _ (indexed_of_spelled fits listed)) (by omega)

def sparseNames : List String := ["utun007", "utun9223372036854775808", "lo9", "utun3"]

def utun : Stem := ⟨['u', 't', 'u', 'n'], by simp⟩

theorem nextInterface_free_sparse :
    getNextAvailabeInterface utun (.ok sparseNames : Except Unit _) = .ok "utun8" ∧
      ∃ next : Nat, ofList utun.text ++ next.repr ∉ sparseNames := by
  refine ⟨by decide, ?_⟩
  obtain ⟨next, -, -, free⟩ := @nextInterface_free Unit utun sparseNames
    (by simp only [sparseNames, indexed_cons_iff, not_indexed_nil, or_false]; decide)
  exact ⟨next, free⟩

end MycsCommon.Network
