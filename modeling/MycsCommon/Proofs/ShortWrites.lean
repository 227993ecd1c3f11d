import MycsCommon.Proofs.ChunkBounds

/-! Writes that a chunk does not take in full. The file may take any part of a write, as long as it
says why. -/

namespace MycsCommon.Utils
open ChunkWriteSeeker

variable {σ ε : Type} {dest : WriterAt σ ε} {seeker : ChunkSeeker} {data : List UInt8} {file : σ}

/-- The contract of `io.WriterAt`: a write that is cut short comes with an error. -/
def WriterAt.Reports (dest : WriterAt σ ε) : Prop :=
  ∀ data position file, (dest.writeAt data position file).1.1 < data.length → (dest.writeAt data position file).1.2 ≠ none

/-- The file together with the bytes that it took, and where. -/
def WriterAt.placing (dest : WriterAt σ ε) : WriterAt (σ × List (Int × List UInt8)) ε where
  writeAt data position file :=
    let (answer, state) := dest.writeAt data position file.1
    (answer, state, file.2 ++ [(position, data.take answer.1)])
  within data position file := dest.within data position file.1

/-- Position and remaining size add up to the size of the chunk, as int64 sums do. -/
def ChunkSeeker.InStep (seeker : ChunkSeeker) : Prop := int64 (seeker.ptr + seeker.remainder) = int64 seeker.chunkSize

/-- A write of fewer bytes comes with an error, reports the bytes that were placed at the position,
and leaves position and remaining size in step. -/
def Obeys (dest : WriterAt σ ε) (data : List UInt8) (seeker : ChunkSeeker) (file : σ) : Prop :=
  let ((n, err), after, _, placed) := write dest.placing data seeker (file, [])
  n < data.length →
    err ≠ none ∧
      (placed.flatMap Prod.snd = data.take n ∧ ∀ place ∈ placed, place.1 = int64 (seeker.offset + seeker.ptr)) ∧
      after.InStep

theorem int64_moved (ptr remainder count : Int) :
    int64 (int64 (ptr + count) + int64 (remainder - count)) = int64 (ptr + remainder) := by
  have same : ptr + count + (remainder - count) = ptr + remainder := by omega
  simp [int64, same]

theorem int64_next (ptr : Int) : int64 (ptr + 1) ≠ int64 ptr := by
  have here := @Int.bmod_emod ptr (2 ^ 64)
  have next := @Int.bmod_emod (ptr + 1) (2 ^ 64)
  intro same
  rw [← int64, same, int64] at next
  omega

theorem int64_int64 (value : Int) : int64 (int64 value) = int64 value := by
  simp [int64]

/-! The branches, with what the file takes. -/

section Branches

variable {count : Nat} {err : Option ε} {file' : σ}

theorem WriterAt.placing_writeAt {position} (answered : dest.writeAt data position file = ((count, err), file')) :
    dest.placing.writeAt data position (file, []) = ((count, err), file', [(position, data.take count)]) := by
  simp [placing, answered]

theorem obeys_within (more : (data.length : Int) < seeker.remainder)
    (answered : dest.writeAt data (int64 (seeker.offset + seeker.ptr)) file = ((count, err), file')) :
    Obeys dest data seeker file ↔ (count < data.length → err ≠ none ∧ seeker.InStep) := by
  rw [Obeys, write_within more (WriterAt.placing_writeAt answered)]
  simp [ChunkSeeker.InStep, int64_moved]

theorem obeys_last (less : ¬ (data.length : Int) < seeker.remainder) (some : 0 < seeker.remainder)
    (answered : dest.writeAt (data.take seeker.remainder.toNat) (int64 (seeker.offset + seeker.ptr)) file =
      ((count, err), file')) (part : count ≤ seeker.remainder.toNat) :
    Obeys dest data seeker file ↔
      (count < data.length → err ≠ none ∧ int64 (seeker.ptr + count) = int64 seeker.chunkSize) := by
  rw [Obeys, write_last less some (WriterAt.placing_writeAt answered)]
  simp [ChunkSeeker.InStep, int64_int64, List.take_take, Nat.min_eq_left part]

theorem obeys_ended (less : ¬ (data.length : Int) < seeker.remainder) (none : ¬ 0 < seeker.remainder) :
    Obeys dest data seeker file ↔ data = [] := by
  rw [Obeys, write_ended less none]
  simp

end Branches

def limitedDest (limit : Nat) : WriterAt Unit Unit where
  writeAt data _ _ := ((min limit data.length, if limit < data.length then some () else none), ())
  within _ _ _ := Nat.min_le_right ..

theorem limitedDest_reports (limit : Nat) : (limitedDest limit).Reports := by
  intro data position file short
  simp only [limitedDest] at short ⊢
  rw [if_pos (by omega)]
  simp

/-- When the rest of the chunk is to be filled, a file that takes everything leaves a cut unreported,
and one that takes nothing leaves the sizes out of step. -/
theorem filled_of_obeys (less : ¬ (data.length : Int) < seeker.remainder) (some : 0 < seeker.remainder)
    (obeys : ∀ limit, Obeys (limitedDest limit) data seeker ()) :
    data.length = 1 ∧ seeker.remainder = 1 ∧ int64 seeker.ptr = int64 seeker.chunkSize := by
  have cut : (data.take seeker.remainder.toNat).length = seeker.remainder.toNat := by
    rw [List.length_take]
    omega
  have answer := fun limit => (@obeys_last _ _ (limitedDest limit) seeker data () _ _ _ less some rfl
    (by omega)).mp (obeys limit)
  have whole : seeker.remainder = data.length := by
    by_contra shorter
    have unreported := (answer data.length (by omega)).1
    rw [if_neg (by omega)] at unreported
    exact unreported rfl
  have nothing := (answer 0 (by omega)).2
  rw [Nat.zero_min, Int.natCast_zero, Int.add_zero] at nothing
  have one : ¬ 1 < data.length := by
    intro several
    have single := (answer 1 (by omega)).2
    rw [Nat.min_eq_left (by omega), ← nothing] at single
    exact int64_next seeker.ptr single
  exact ⟨by omega, by omega, nothing⟩

/-- Whatever part of a write the file takes, the writer of a chunk obeys its contract when the data is
less than what is left and the sizes are in step. Otherwise some file breaks it, but for an empty
write and for the last byte of a chunk whose position is at its end already. -/
theorem obeys_iff (data : List UInt8) (seeker : ChunkSeeker) :
    (∀ (σ ε : Type) (dest : WriterAt σ ε) (file : σ), dest.Reports → Obeys dest data seeker file) ↔
      data = [] ∨ (data.length : Int) < seeker.remainder ∧ seeker.InStep ∨
        data.length = 1 ∧ seeker.remainder = 1 ∧ int64 seeker.ptr = int64 seeker.chunkSize := by
  constructor
  · intro obeys
    have limited := fun limit => obeys Unit Unit (limitedDest limit) () (limitedDest_reports limit)
    by_cases empty : data = []
    · exact .inl empty
    have long := List.length_pos_iff.mpr empty
    by_cases more : (data.length : Int) < seeker.remainder
    · exact .inr (.inl ⟨more, ((obeys_within more rfl).mp (limited 0) (by simpa [limitedDest] using long)).2⟩)
    · by_cases some : 0 < seeker.remainder
      · exact .inr (.inr (filled_of_obeys more some limited))
      · exact .inl ((obeys_ended more some).mp (limited 0))
  · intro clear σ ε dest file reports
    obtain rfl | ⟨more, inStep⟩ | ⟨one, last, atEnd⟩ := clear
    · simp [Obeys]
    · obtain ⟨count, err, file', answered, -⟩ := dest.exists_answer data (int64 (seeker.offset + seeker.ptr)) file
      refine (obeys_within more answered).mpr fun short => ⟨?_, inStep⟩
      have reported := reports data (int64 (seeker.offset + seeker.ptr)) file
      rw [answered] at reported
      exact reported short
    · obtain ⟨count, err, file', answered, part⟩ :=
        dest.exists_answer (data.take seeker.remainder.toNat) (int64 (seeker.offset + seeker.ptr)) file
      have cut : (data.take seeker.remainder.toNat).length = 1 := by
        rw [List.length_take]
        omega
      refine (obeys_last (by omega) (by omega) answered (by omega)).mpr fun short => ?_
      obtain rfl : count = 0 := by omega
      have reported := reports (data.take seeker.remainder.toNat) (int64 (seeker.offset + seeker.ptr)) file
      rw [answered, cut] at reported
      exact ⟨reported Nat.one_pos, by rwa [Int.natCast_zero, Int.add_zero]⟩

/-- Three bytes into a chunk of two are cut without an error, a byte more is taken as none, and a
file that takes one byte of two leaves position and remaining size out of step. -/
theorem writes_cut_short :
    (write plainDest [1, 2, 3] (newChunkWriteSeeker 0 2) ()).1 = (2, none) ∧
    (write plainDest [4] { newChunkWriteSeeker 0 2 with ptr := 2, remainder := 0 } ()).1 = (0, none) ∧
    write (limitedDest 1) [1, 2] (newChunkWriteSeeker 0 2) () =
      ((1, some ()), { offset := 0, chunkSize := 2, ptr := 1, remainder := 0 }, ()) := by
  decide

end MycsCommon.Utils
