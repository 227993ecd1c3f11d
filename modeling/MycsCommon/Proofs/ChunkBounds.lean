import MycsCommon.Utils.ChunkSeeker
import Mathlib.Data.List.Induction

/-! What the chunk readers and writers touch. Position and remaining size stay in step
through every call but a `Seek` to a negative position: that one reports an error, keeps
the remaining size and moves the position out of the chunk. -/

namespace MycsCommon.Utils
open List ChunkReadSeeker ChunkSeeker ChunkWriteSeeker

theorem int64_eq {value} (low : -2 ^ 63 ≤ value) (high : value < 2 ^ 63) : int64 value = value := by
  unfold int64
  apply Int.bmod_eq_of_le_mul_two <;> omega

theorem int64_high (value : Int) : int64 value < 2 ^ 63 := by
  have bound := @Int.bmod_lt value (2 ^ 64) (by decide)
  unfold int64
  omega

/-- The seeker of a chunk that lies in the file, with at most the rest of the chunk left. -/
structure ChunkSeeker.Inside (seeker : ChunkSeeker) : Prop where
  offset : 0 ≤ seeker.offset
  chunkSize : 0 ≤ seeker.chunkSize
  fits : seeker.offset + seeker.chunkSize < 2 ^ 63
  ptr : 0 ≤ seeker.ptr
  small : seeker.ptr < 2 ^ 63
  remainder : seeker.remainder ≤ seeker.chunkSize - seeker.ptr

/-- Everything an access touches lies in a chunk. -/
def Access.Within (access : Access) (offset chunkSize : Int) : Prop :=
  ∀ position, access.position ≤ position → position < access.position + access.size →
    offset ≤ position ∧ position < offset + chunkSize

variable {σ ε : Type} {source : ReaderAt σ ε} {dest : WriterAt σ ε} {seeker : ChunkSeeker} {size : Nat} {file : σ}
  {log : List Access}

theorem ChunkSeeker.target_bounds {offset whence ptr} (found : seeker.target offset whence = some ptr) :
    ptr < 2 ^ 63 := by
  have start := offset.toInt_lt
  unfold target at found
  split at found
  · cases found
    exact start
  · split at found
    · cases found
      exact int64_high _
    · split at found
      · cases found
        exact int64_high _
      · cases found

theorem ChunkSeeker.Inside.moved (inside : seeker.Inside) {count : Nat} {remainder}
    (room : (count : Int) ≤ seeker.remainder) (left : remainder ≤ seeker.remainder - count) :
    { seeker with remainder, ptr := int64 (seeker.ptr + count) }.Inside := by
  obtain ⟨offset, chunkSize, fits, ptr, -⟩ := inside
  have same : int64 (seeker.ptr + count) = seeker.ptr + count := int64_eq (by omega) (by omega)
  refine ⟨offset, chunkSize, fits, ?_, ?_, ?_⟩ <;> simp only [same] <;> omega

theorem ChunkSeeker.Inside.access (inside : seeker.Inside) (room : (size : Int) ≤ seeker.remainder) :
    Access.Within ⟨int64 (seeker.offset + seeker.ptr), size⟩ seeker.offset seeker.chunkSize := by
  obtain ⟨offset, chunkSize, fits, ptr, -⟩ := inside
  intro position low high
  simp only at low high
  have same : int64 (seeker.offset + seeker.ptr) = seeker.offset + seeker.ptr := by
    apply int64_eq <;> omega
  omega

namespace ChunkSeeker

variable {offset : Int64} {whence ptr : Int}

theorem seek_invalid (unknown : seeker.target offset whence = none) :
    seeker.seek offset whence = ((0, some .invalidWhence), seeker) := by
  simp [seek, unknown]

theorem seek_negative (found : seeker.target offset whence = some ptr) (negative : ptr < 0) :
    seeker.seek offset whence = ((0, some .negativePosition), { seeker with ptr }) := by
  simp [seek, found, negative]

theorem seek_forward (found : seeker.target offset whence = some ptr) (forward : 0 ≤ ptr) :
    seeker.seek offset whence = ((ptr, none), { seeker with ptr, remainder := int64 (seeker.chunkSize - ptr) }) := by
  simp [seek, found, Int.not_lt.mpr forward]

theorem Inside.seek (inside : seeker.Inside) (forward : ∀ ptr, seeker.target offset whence = some ptr → 0 ≤ ptr) :
    (seeker.seek offset whence).2.Inside := by
  cases found : seeker.target offset whence with
  | none =>
    rw [seek_invalid found]
    exact inside
  | some ptr =>
    have nonneg := forward ptr found
    have small := target_bounds found
    obtain ⟨start, chunkSize, fits, -, -, -⟩ := inside
    have same : int64 (seeker.chunkSize - ptr) = seeker.chunkSize - ptr := by
      apply int64_eq <;> omega
    rw [seek_forward found nonneg, same]
    exact ⟨start, chunkSize, fits, nonneg, small, Int.le_refl _⟩

end ChunkSeeker

def ChunkSeeker.SameChunk (before after : ChunkSeeker) : Prop :=
  after.offset = before.offset ∧ after.chunkSize = before.chunkSize

theorem ChunkSeeker.sameChunk_seek (offset : Int64) (whence : Int) : seeker.SameChunk (seeker.seek offset whence).2 := by
  unfold seek
  cases seeker.target offset whence with
  | none => exact ⟨rfl, rfl⟩
  | some ptr =>
    by_cases negative : ptr < 0
    · simp [negative, SameChunk]
    · simp [negative, SameChunk]

/-- What a call leaves: the same chunk, a position in it, and only accesses to it. -/
structure Stays (before after : Chunk (σ × List Access)) : Prop where
  inside : after.seeker.Inside
  same : before.seeker.SameChunk after.seeker
  touched : ∃ issued, after.file.2 = before.file.2 ++ issued ∧
    ∀ access ∈ issued, access.Within before.seeker.offset before.seeker.chunkSize

theorem ChunkSeeker.Inside.transfer (inside : seeker.Inside) {file' : σ} {count remainder}
    (room : (size : Int) ≤ seeker.remainder) (part : count ≤ size) (left : remainder ≤ seeker.remainder - count) :
    Stays (⟨seeker, file, log⟩ : Chunk (σ × List Access))
      ⟨{ seeker with remainder, ptr := int64 (seeker.ptr + count) }, file',
        log ++ [⟨int64 (seeker.offset + seeker.ptr), size⟩]⟩ where
  inside := inside.moved (by omega) left
  same := ⟨rfl, rfl⟩
  touched := by
    refine ⟨[_], rfl, ?_⟩
    intro access member
    rw [mem_singleton.mp member]
    exact inside.access room

theorem ChunkSeeker.Inside.remainder_sub (inside : seeker.Inside) {count : Nat} (room : (count : Int) ≤ seeker.remainder) :
    int64 (seeker.remainder - count) = seeker.remainder - count := by
  obtain ⟨offset, -, fits, ptr, -⟩ := inside
  apply int64_eq <;> omega

theorem ReaderAt.noting_readAt {position} {answer} {file' : σ}
    (answered : source.readAt size position file = (answer, file')) :
    source.noting.readAt size position (file, log) = (answer, file', log ++ [⟨position, size⟩]) := by
  simp [noting, answered]

theorem WriterAt.noting_writeAt {data} {position} {answer} {file' : σ}
    (answered : dest.writeAt data position file = (answer, file')) :
    dest.noting.writeAt data position (file, log) = (answer, file', log ++ [⟨position, data.length⟩]) := by
  simp [noting, answered]

theorem ReaderAt.exists_answer (source : ReaderAt σ ε) (size : Nat) (position : Int) (file : σ) :
    ∃ data err file', source.readAt size position file = ((data, err), file') ∧ data.length ≤ size :=
  ⟨_, _, _, rfl, source.within size position file⟩

theorem WriterAt.exists_answer (dest : WriterAt σ ε) (data : List UInt8) (position : Int) (file : σ) :
    ∃ count err file', dest.writeAt data position file = ((count, err), file') ∧ count ≤ data.length :=
  ⟨_, _, _, rfl, dest.within data position file⟩

/-! Each branch of `Read` and `Write`, given what the file answers. -/

section Branches

variable {data : List UInt8} {err : Option (ReadError ε)} {count : Nat} {failure : Option ε} {file' : σ}

theorem read_within (more : (size : Int) < seeker.remainder)
    (answered : source.readAt size (int64 (seeker.offset + seeker.ptr)) file = ((data, err), file')) :
    read source size seeker file =
      ((data, err),
        { seeker with
          remainder := leftAfter seeker.remainder data.length err
          ptr := int64 (seeker.ptr + data.length) }, file') := by
  unfold ChunkReadSeeker.read
  rw [if_pos more, answered]

theorem read_last (less : ¬ (size : Int) < seeker.remainder) (some : 0 < seeker.remainder)
    (answered : source.readAt seeker.remainder.toNat (int64 (seeker.offset + seeker.ptr)) file = ((data, err), file')) :
    read source size seeker file =
      ((data, .some (err.getD .eof)), { seeker with remainder := 0, ptr := int64 (seeker.ptr + data.length) }, file') := by
  unfold ChunkReadSeeker.read
  rw [if_neg less, if_pos some, answered]

theorem read_ended (less : ¬ (size : Int) < seeker.remainder) (none : ¬ 0 < seeker.remainder) :
    read source size seeker file = (([], some .eof), seeker, file) := by
  unfold ChunkReadSeeker.read
  rw [if_neg less, if_neg none]

theorem write_within (more : (data.length : Int) < seeker.remainder)
    (answered : dest.writeAt data (int64 (seeker.offset + seeker.ptr)) file = ((count, failure), file')) :
    write dest data seeker file =
      ((count, failure),
        { seeker with remainder := int64 (seeker.remainder - count), ptr := int64 (seeker.ptr + count) }, file') := by
  unfold write
  rw [if_pos more, answered]

theorem write_last (less : ¬ (data.length : Int) < seeker.remainder) (some : 0 < seeker.remainder)
    (answered : dest.writeAt (data.take seeker.remainder.toNat) (int64 (seeker.offset + seeker.ptr)) file =
      ((count, failure), file')) :
    write dest data seeker file =
      ((count, failure), { seeker with remainder := 0, ptr := int64 (seeker.ptr + count) }, file') := by
  unfold write
  rw [if_neg less, if_pos some, answered]

theorem write_ended (less : ¬ (data.length : Int) < seeker.remainder) (none : ¬ 0 < seeker.remainder) :
    write dest data seeker file = ((0, .none), seeker, file) := by
  unfold write
  rw [if_neg less, if_neg none]

end Branches

theorem stays_read (source : ReaderAt σ ε) (size : Nat) (inside : seeker.Inside) :
    Stays ⟨seeker, file, log⟩
      ⟨(read source.noting size seeker (file, log)).2.1,
        (read source.noting size seeker (file, log)).2.2⟩ := by
  by_cases more : (size : Int) < seeker.remainder
  · obtain ⟨data, err, file', answered, part⟩ := source.exists_answer size (int64 (seeker.offset + seeker.ptr)) file
    rw [read_within more (ReaderAt.noting_readAt answered)]
    apply inside.transfer (Int.le_of_lt more) part
    unfold leftAfter
    split
    · omega
    · exact Int.le_of_eq (inside.remainder_sub (by omega))
  · by_cases some : 0 < seeker.remainder
    · obtain ⟨data, err, file', answered, part⟩ :=
        source.exists_answer seeker.remainder.toNat (int64 (seeker.offset + seeker.ptr)) file
      rw [read_last more some (ReaderAt.noting_readAt answered)]
      exact inside.transfer (by omega) part (by omega)
    · rw [read_ended more some]
      exact ⟨inside, ⟨rfl, rfl⟩, [], by simp, by simp⟩

theorem stays_write (dest : WriterAt σ ε) (data : List UInt8) (inside : seeker.Inside) :
    Stays ⟨seeker, file, log⟩
      ⟨(write dest.noting data seeker (file, log)).2.1,
        (write dest.noting data seeker (file, log)).2.2⟩ := by
  by_cases more : (data.length : Int) < seeker.remainder
  · obtain ⟨count, err, file', answered, part⟩ := dest.exists_answer data (int64 (seeker.offset + seeker.ptr)) file
    rw [write_within more (WriterAt.noting_writeAt answered)]
    apply inside.transfer (Int.le_of_lt more) part
    exact Int.le_of_eq (inside.remainder_sub (by omega))
  · by_cases some : 0 < seeker.remainder
    · obtain ⟨count, err, file', answered, part⟩ :=
        dest.exists_answer (data.take seeker.remainder.toNat) (int64 (seeker.offset + seeker.ptr)) file
      have cut := length_take_le seeker.remainder.toNat data
      rw [write_last more some (WriterAt.noting_writeAt answered)]
      exact inside.transfer (by omega) part (by omega)
    · rw [write_ended more some]
      exact ⟨inside, ⟨rfl, rfl⟩, [], by simp, by simp⟩

theorem stays_call (source : ReaderAt σ ε) (dest : WriterAt σ ε) {chunk} (inside : chunk.seeker.Inside)
    (call : Call)
    (forward : ∀ offset whence ptr, call = .seek offset whence → chunk.seeker.target offset whence = some ptr → 0 ≤ ptr) :
    Stays chunk (chunk.call source.noting dest.noting call).2 := by
  obtain ⟨seeker, file, log⟩ := chunk
  cases call with
  | seek offset whence =>
    exact ⟨inside.seek fun ptr => forward offset whence ptr rfl, sameChunk_seek offset whence, [],
      by simp [Chunk.call], by simp⟩
  | read size => exact stays_read source size inside
  | write data => exact stays_write dest data inside

section Runs

variable (source : ReaderAt σ ε) (dest : WriterAt σ ε) (start : ChunkSeeker) (file : σ) (calls : List Call)

/-- The calls on a new seeker, with the accesses noted. -/
def noted : Chunk (σ × List Access) := Chunk.run source.noting dest.noting ⟨start, file, []⟩ calls

/-- The `Seek` calls go to positions of zero or more, from where they are made. -/
def SeeksForward : Prop :=
  ∀ before offset whence rest, calls = before ++ .seek offset whence :: rest →
    ∀ ptr, (noted source dest start file before).seeker.target offset whence = some ptr → 0 ≤ ptr

/-- Every access of the calls is to the chunk, and a `Seek` that returns an error leaves
the position and the remaining size as they were. -/
structure Confined : Prop where
  touched : ∀ access ∈ (noted source dest start file calls).file.2, access.Within start.offset start.chunkSize
  unmoved : ∀ before offset whence rest, calls = before ++ .seek offset whence :: rest →
    let seeker := (noted source dest start file before).seeker
    (seeker.seek offset whence).1.2 ≠ none →
      (seeker.seek offset whence).2.ptr = seeker.ptr ∧ (seeker.seek offset whence).2.remainder = seeker.remainder

end Runs

variable {start : ChunkSeeker} {calls : List Call}

theorem noted_concat (before : List Call) (call : Call) :
    noted source dest start file (before ++ [call]) =
      ((noted source dest start file before).call source.noting dest.noting call).2 := by
  simp [noted, Chunk.run]

/-- The calls up to any point stay in the chunk if none of them sought a negative position
while the position was in the chunk. -/
theorem stays_noted (inside : start.Inside)
    (forward : ∀ before offset whence rest, calls = before ++ .seek offset whence :: rest →
      (noted source dest start file before).seeker.Inside →
      ∀ ptr, (noted source dest start file before).seeker.target offset whence = some ptr → 0 ≤ ptr)
    (before rest : List Call) (whole : calls = before ++ rest) :
    Stays ⟨start, file, []⟩ (noted source dest start file before) := by
  induction before using List.reverseRecOn generalizing rest with
  | nil => exact ⟨inside, ⟨rfl, rfl⟩, [], rfl, by simp⟩
  | append_singleton before call ih =>
    obtain ⟨still, ⟨sameOffset, sameSize⟩, issued, log, within⟩ := ih (call :: rest) (by simp [whole])
    obtain ⟨inside', ⟨sameOffset', sameSize'⟩, issued', log', within'⟩ :=
      stays_call source dest still call fun offset whence ptr is found =>
        forward before offset whence rest (by simp [whole, is]) still ptr found
    rw [noted_concat]
    refine ⟨inside', ⟨sameOffset'.trans sameOffset, sameSize'.trans sameSize⟩, issued ++ issued', ?_, ?_⟩
    · rw [log', log, append_assoc]
    · intro access member
      rcases mem_append.mp member with old | new
      · exact within access old
      · have within := within' access new
        rwa [sameOffset, sameSize] at within

/-- A new chunk reader or writer keeps to its chunk, and failed `Seek` calls leave it
alone, exactly when no `Seek` goes to a negative position. -/
theorem confined_iff (source : ReaderAt σ ε) (dest : WriterAt σ ε) (file : σ) (calls : List Call) {offset chunkSize : Int}
    (offsetNonneg : 0 ≤ offset) (sizeNonneg : 0 ≤ chunkSize) (fits : offset + chunkSize < 2 ^ 63) {start : ChunkSeeker}
    (made : start = newChunkReadSeeker offset chunkSize ∨ start = newChunkWriteSeeker offset chunkSize) :
    Confined source dest start file calls ↔ SeeksForward source dest start file calls := by
  have inside : start.Inside := by
    rcases made with rfl | rfl
    all_goals exact ⟨offsetNonneg, sizeNonneg, fits, Int.le_refl 0, by simp [newChunkReadSeeker, newChunkWriteSeeker],
      by simp [newChunkReadSeeker, newChunkWriteSeeker]⟩
  constructor
  · intro confined
    -- a seek to a negative position fails and moves a position that was not negative
    have forward : ∀ before offset whence rest, calls = before ++ .seek offset whence :: rest →
        (noted source dest start file before).seeker.Inside →
        ∀ ptr, (noted source dest start file before).seeker.target offset whence = some ptr → 0 ≤ ptr := by
      intro before offset whence rest whole still ptr found
      by_contra negative
      have moved := confined.unmoved before offset whence rest whole
      simp only [seek_negative found (Int.not_le.mp negative)] at moved
      have same := (moved (by simp)).1
      have nonneg := still.ptr
      omega
    intro before offset whence rest whole
    exact forward before offset whence rest whole (stays_noted inside forward before _ whole).inside
  · intro forward
    have stays := stays_noted inside fun before offset whence rest whole _ => forward before offset whence rest whole
    refine ⟨?_, ?_⟩
    · obtain ⟨-, -, issued, log, within⟩ := stays calls [] (by simp)
      rw [log]
      simpa using within
    · intro before offset whence rest whole
      simp only
      cases found : (noted source dest start file before).seeker.target offset whence with
      | none => simp [seek_invalid found]
      | some ptr => simp [seek_forward found (forward before offset whence rest whole ptr found)]

def plainSource : ReaderAt Unit Unit := ⟨fun size _ _ => ((List.replicate size 0, none), ()), by simp⟩

def plainDest : WriterAt Unit Unit := ⟨fun data _ _ => ((data.length, none), ()), by simp⟩

theorem confined_rewound :
    Confined plainSource plainDest (newChunkWriteSeeker 10 5) () [.write [1, 2], .seek (-2) 1, .write [3]] := by
  apply (confined_iff plainSource plainDest () _ (by decide) (by decide) (by decide) (.inr rfl)).mpr
  intro before offset whence rest whole ptr found
  match before, whole with
  | [], whole => simp at whole
  | [call], whole =>
    simp only [cons_append, nil_append, List.cons.injEq, Call.seek.injEq] at whole
    obtain ⟨rfl, ⟨rfl, rfl⟩, rfl⟩ := whole
    have target : (noted plainSource plainDest (newChunkWriteSeeker 10 5) () [.write [1, 2]]).seeker.target (-2) 1 = some 0 := by
      decide
    rw [target] at found
    cases found
    decide
  | [first, second], whole => simp at whole
  | first :: second :: third :: _, whole => simp at whole

/-- After a failed seek to before the chunk, a write lands before the chunk. -/
theorem write_before_chunk :
    ¬ Confined plainSource plainDest (newChunkWriteSeeker 10 5) () [.seek (-3) 0, .write [1]] ∧
      (noted plainSource plainDest (newChunkWriteSeeker 10 5) () [.seek (-3) 0, .write [1]]).file.2 = [⟨7, 1⟩] := by
  have log : (noted plainSource plainDest (newChunkWriteSeeker 10 5) () [.seek (-3) 0, .write [1]]).file.2 = [⟨7, 1⟩] := by
    decide
  refine ⟨fun confined => ?_, log⟩
  have within := confined.touched ⟨7, 1⟩ (by simp [log]) 7 (by decide) (by decide)
  exact absurd within.1 (by decide)

end MycsCommon.Utils
