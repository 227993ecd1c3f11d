import MycsCommon.Proofs.ChunkBounds
import Mathlib.Data.List.Basic

/-! A file transferred chunk by chunk, as the callers of the chunk readers and writers do
it: each chunk is read until the end of it is reported, or written piece by piece, and the
chunks take turns in any order. -/

namespace MycsCommon.Utils
open List ChunkReadSeeker ChunkSeeker

variable {σ ε : Type} {source : ReaderAt σ ε} {dest : WriterAt σ ε} {content : List UInt8} {chunkSize : Nat}

/-- A source of this content. The end may be reported with the last bytes or after them. -/
def ReaderAt.Holds (source : ReaderAt σ ε) (content : List UInt8) : Prop :=
  ∀ size position file, 0 < size → ∃ err file',
    source.readAt size (position : Nat) file = (((content.drop position).take size, err), file') ∧
      (err = none ∧ position + size ≤ content.length ∨ err = some .eof ∧ content.length ≤ position + size)

/-- What bytes become when data is written over them at a position. -/
def overwrite (bytes : List UInt8) (position : Nat) (data : List UInt8) : List UInt8 :=
  if data = [] then bytes
  else (bytes ++ List.replicate (position - bytes.length) 0).take position ++ data ++ bytes.drop (position + data.length)

/-- A destination that takes every write; `holds` reads what it has. -/
structure WriterAt.Stores (dest : WriterAt σ ε) (holds : σ → List UInt8) : Prop where
  whole : ∀ data position file, (dest.writeAt data (position : Nat) file).1 = (data.length, none)
  keeps : ∀ data position file, holds (dest.writeAt data (position : Nat) file).2 = overwrite (holds file) position data

def numChunks (size chunkSize : Nat) : Nat := size / chunkSize + if 0 < size % chunkSize then 1 else 0

def chunkOf (content : List UInt8) (chunkSize index : Nat) : List UInt8 := (content.drop (index * chunkSize)).take chunkSize

/-- Reads with a buffer of a size until the end is reported; `files` are the states in
which the calls find the file, which others read as well. -/
def readToEOF (source : ReaderAt σ ε) (size : Nat) (files : Nat → σ) : Nat → Nat → ChunkSeeker → Option (List UInt8)
  | 0, _, _ => none
  | fuel + 1, call, seeker =>
    match read source size seeker (files call) with
    | ((data, some .eof), _, _) => some data
    | ((_, some (.failed _)), _, _) => none
    | ((data, none), seeker, _) => (readToEOF source size files fuel (call + 1) seeker).map (data ++ ·)

/-- The writer of a chunk: the size of its pieces and what it has left to write. -/
structure ChunkWriting where
  seeker : ChunkSeeker
  size : Nat
  left : List UInt8
deriving DecidableEq, Repr

def ChunkWriting.turn (dest : WriterAt σ ε) (writing : ChunkWriting) (file : σ) : ChunkWriting × σ :=
  if writing.left = [] then (writing, file)
  else
    let ((count, _), seeker, file) := ChunkWriteSeeker.write dest (writing.left.take writing.size) writing.seeker file
    ({ writing with seeker, left := writing.left.drop count }, file)

def writeTurn (dest : WriterAt σ ε) (state : List ChunkWriting × σ) (index : Nat) : List ChunkWriting × σ :=
  match state.1[index]? with
  | none => state
  | some writing =>
    let (writing, file) := writing.turn dest state.2
    (state.1.set index writing, file)

/-- The writers of all chunks before their first turn. -/
def newWriters (content : List UInt8) (chunkSize : Nat) (sizes : Nat → Nat) : List ChunkWriting :=
  (List.range (numChunks content.length chunkSize)).map fun index =>
    ⟨newChunkWriteSeeker (index * chunkSize : Nat) chunkSize, sizes index, chunkOf content chunkSize index⟩

/-! The chunks of a content. -/

theorem length_chunkOf (content : List UInt8) (chunkSize index : Nat) :
    (chunkOf content chunkSize index).length = min chunkSize (content.length - index * chunkSize) := by
  simp [chunkOf]

theorem flatMap_chunkOf (content : List UInt8) (chunkSize count : Nat) :
    (List.range count).flatMap (chunkOf content chunkSize) = content.take (count * chunkSize) := by
  induction count with
  | zero => simp
  | succ count ih => rw [range_succ, flatMap_append, ih, Nat.succ_mul, take_add]; simp [chunkOf]

theorem le_numChunks (size : Nat) (positive : 0 < chunkSize) : size ≤ numChunks size chunkSize * chunkSize := by
  have split := Nat.div_add_mod size chunkSize
  have small := Nat.mod_lt size positive
  unfold numChunks
  rw [Nat.add_mul, Nat.mul_comm (size / chunkSize)]
  split <;> omega

theorem lt_numChunks_iff (size index : Nat) (positive : 0 < chunkSize) :
    index < numChunks size chunkSize ↔ index * chunkSize < size := by
  have split := Nat.div_add_mod size chunkSize
  have small := Nat.mod_lt size positive
  rw [Nat.mul_comm] at split
  unfold numChunks
  constructor
  · intro below
    by_cases partial' : 0 < size % chunkSize
    · rw [if_pos partial'] at below
      have := Nat.mul_le_mul_right chunkSize (show index ≤ size / chunkSize by omega)
      omega
    · rw [if_neg partial'] at below
      have := Nat.mul_le_mul_right chunkSize (show index + 1 ≤ size / chunkSize by omega)
      rw [Nat.succ_mul] at this
      omega
  · intro below
    by_contra beyond
    by_cases partial' : 0 < size % chunkSize
    · rw [if_pos partial'] at beyond
      have := Nat.mul_le_mul_right chunkSize (show size / chunkSize + 1 ≤ index by omega)
      rw [Nat.succ_mul] at this
      omega
    · rw [if_neg partial'] at beyond
      have := Nat.mul_le_mul_right chunkSize (show size / chunkSize ≤ index by omega)
      omega

/-! Reading. -/

def readerAt (offset chunkSize done : Nat) : ChunkSeeker :=
  { offset := offset, chunkSize := chunkSize, ptr := done, remainder := chunkSize - done }

theorem int64_position {offset done : Nat} (small : offset + done < 2 ^ 63) :
    int64 ((offset : Int) + done) = (offset + done : Nat) := by
  rw [int64_eq] <;> omega

theorem readToEOF_chunk (held : source.Holds content) (files : Nat → σ) {size offset done : Nat} (positive : 0 < size)
    (large : content.length < 2 ^ 63) (fits : chunkSize < 2 ^ 63) (inside : done < chunkSize)
    (start : offset + done ≤ content.length) (fuel call : Nat) (enough : chunkSize - done ≤ fuel) :
    readToEOF source size files fuel call (readerAt offset chunkSize done) =
      some ((content.drop (offset + done)).take (chunkSize - done)) := by
  -- one more buffer is read each time, so the rest of the chunk bounds the number of calls
  induction fuel generalizing done call with
  | zero => omega
  | succ fuel ih =>
    have position := int64_position (show offset + done < 2 ^ 63 by omega)
    by_cases more : (size : Int) < (readerAt offset chunkSize done).remainder
    · obtain ⟨err, file', answered, ending⟩ := held size (offset + done) (files call) positive
      rw [← position] at answered
      simp only [readToEOF, read_within more answered]
      simp only [readerAt] at more
      have less : size < chunkSize - done := by omega
      rcases ending with ⟨rfl, room⟩ | ⟨rfl, last⟩
      · have length : ((content.drop (offset + done)).take size).length = size := by simp; omega
        have next : ({ readerAt offset chunkSize done with
            remainder := leftAfter (readerAt offset chunkSize done).remainder size (none : Option (ReadError ε))
            ptr := int64 ((readerAt offset chunkSize done).ptr + size) } : ChunkSeeker) =
            readerAt offset chunkSize (done + size) := by
          simp only [readerAt, leftAfter, mk.injEq, true_and]
          constructor <;> rw [int64_eq] <;> omega
        have split : chunkSize - done = size + (chunkSize - (done + size)) := by omega
        simp only [length, next]
        rw [ih (by omega) (by omega) (call + 1) (by omega), Option.map_some, split, take_add, drop_drop,
          Nat.add_assoc]
      · have all : ∀ count, size ≤ count → (content.drop (offset + done)).take count = content.drop (offset + done) := by
          intro count large
          exact take_of_length_le (by simp; omega)
        rw [all size (Nat.le_refl _), all _ (Nat.le_of_lt less)]
    · have some : 0 < (readerAt offset chunkSize done).remainder := by simp only [readerAt]; omega
      have rest : (readerAt offset chunkSize done).remainder.toNat = chunkSize - done := by simp only [readerAt]; omega
      obtain ⟨err, file', answered, ending⟩ := held (chunkSize - done) (offset + done) (files call) (by omega)
      have reply : err.getD .eof = .eof := by
        rcases ending with ⟨rfl, -⟩ | ⟨rfl, -⟩ <;> rfl
      rw [← position, ← rest] at answered
      simp [readToEOF, read_last more some answered, reply, rest]

/-! Writing. -/

theorem length_overwrite {bytes data} {position} (some : data ≠ []) :
    (overwrite bytes position data).length = max bytes.length (position + data.length) := by
  rw [overwrite, if_neg some]
  simp
  omega

theorem overwrite_inside {bytes data} {position index} (low : position ≤ index)
    (high : index < position + data.length) : (overwrite bytes position data)[index]? = data[index - position]? := by
  have some : data ≠ [] := by
    rintro rfl
    simp at high
    omega
  have front : ((bytes ++ List.replicate (position - bytes.length) 0).take position).length = position := by
    simp
    omega
  rw [overwrite, if_neg some, append_assoc, getElem?_append_right (by omega), front,
    getElem?_append_left (by omega)]

theorem overwrite_outside {bytes data} {position index} (old : index < bytes.length)
    (apart : index < position ∨ position + data.length ≤ index) :
    (overwrite bytes position data)[index]? = bytes[index]? := by
  unfold overwrite
  by_cases none : data = []
  · rw [if_pos none]
  · have front : ((bytes ++ List.replicate (position - bytes.length) 0).take position).length = position := by
      simp
      omega
    rw [if_neg none, append_assoc]
    rcases apart with before | after
    · rw [getElem?_append_left (by omega), getElem?_take_of_lt before, getElem?_append_left old]
    · rw [getElem?_append_right (by omega), front, getElem?_append_right (by omega), getElem?_drop]
      congr 1
      omega

variable {sizes : Nat → Nat} {holds : σ → List UInt8} {offset index done : Nat} {file : σ}

theorem write_fitting (stores : dest.Stores holds) {data} (some : data ≠ []) (room : done + data.length ≤ chunkSize)
    (fits : chunkSize < 2 ^ 63) (small : offset + done < 2 ^ 63) :
    ChunkWriteSeeker.write dest data (readerAt offset chunkSize done) file =
      ((data.length, none), readerAt offset chunkSize (done + data.length),
        (dest.writeAt data (offset + done : Nat) file).2) := by
  have positive := length_pos_iff.mpr some
  have position := int64_position small
  have moved := int64_position (show done + data.length < 2 ^ 63 by omega)
  have answered : dest.writeAt data (int64 ((offset : Int) + done)) file =
      ((data.length, none), (dest.writeAt data (offset + done : Nat) file).2) := by
    rw [position, ← stores.whole data (offset + done) file]
  by_cases more : (data.length : Int) < (readerAt offset chunkSize done).remainder
  · rw [write_within more answered]
    simp only [readerAt, Prod.mk.injEq, mk.injEq, true_and, and_true, moved]
    rw [int64_eq] <;> omega
  · have last : 0 < (readerAt offset chunkSize done).remainder := by simp only [readerAt]; omega
    have rest : (readerAt offset chunkSize done).remainder.toNat = chunkSize - done := by simp only [readerAt]; omega
    have exactly : data.length = chunkSize - done := by
      simp only [readerAt] at more
      omega
    have all : data.take (readerAt offset chunkSize done).remainder.toNat = data := by
      rw [rest, ← exactly, take_length]
    have cut : dest.writeAt (data.take (readerAt offset chunkSize done).remainder.toNat) (int64 ((offset : Int) + done)) file =
        ((data.length, none), (dest.writeAt data (offset + done : Nat) file).2) := by
      rw [all, answered]
    rw [write_last more last cut]
    simp only [readerAt, Prod.mk.injEq, mk.injEq, true_and, and_true, moved]
    omega

/-- The writer of a chunk that has written some of it. -/
def writerAt (content : List UInt8) (chunkSize : Nat) (sizes : Nat → Nat) (index done : Nat) : ChunkWriting :=
  ⟨readerAt (index * chunkSize) chunkSize done, sizes index, (chunkOf content chunkSize index).drop done⟩

def advanced (content : List UInt8) (chunkSize : Nat) (sizes : Nat → Nat) (index done : Nat) : Nat :=
  min (chunkOf content chunkSize index).length (done + sizes index)

theorem turn_writerAt (stores : dest.Stores holds) (large : content.length < 2 ^ 63) (fits : chunkSize < 2 ^ 63)
    (positive : 0 < sizes index) (inside : done ≤ (chunkOf content chunkSize index).length) :
    ((writerAt content chunkSize sizes index done).turn dest file).1 =
        writerAt content chunkSize sizes index (advanced content chunkSize sizes index done) ∧
      holds ((writerAt content chunkSize sizes index done).turn dest file).2 =
        overwrite (holds file) (index * chunkSize + done)
          (((chunkOf content chunkSize index).drop done).take (sizes index)) := by
  have length := length_chunkOf content chunkSize index
  by_cases finished : (chunkOf content chunkSize index).drop done = []
  · have all : done = (chunkOf content chunkSize index).length := by
      have := drop_eq_nil_iff.mp finished
      omega
    have still : advanced content chunkSize sizes index done = done := by simp only [advanced]; omega
    simp [ChunkWriting.turn, writerAt, finished, still, overwrite]
  · have more : done < (chunkOf content chunkSize index).length := by
      by_contra none
      exact finished (drop_eq_nil_iff.mpr (by omega))
    have piece : (((chunkOf content chunkSize index).drop done).take (sizes index)).length =
        advanced content chunkSize sizes index done - done := by
      simp only [advanced, length_take, length_drop]
      omega
    have ahead : done < advanced content chunkSize sizes index done := by simp only [advanced]; omega
    have bound : advanced content chunkSize sizes index done ≤ (chunkOf content chunkSize index).length :=
      Nat.min_le_left _ _
    have some : ((chunkOf content chunkSize index).drop done).take (sizes index) ≠ [] := by
      apply ne_nil_of_length_pos
      omega
    have written := @write_fitting _ _ dest chunkSize holds (index * chunkSize) done file stores _ some (by omega) fits
      (by omega)
    simp only [ChunkWriting.turn, writerAt, finished, if_false, written, piece]
    have sum : done + (advanced content chunkSize sizes index done - done) =
        advanced content chunkSize sizes index done := by omega
    rw [sum, drop_drop, sum]
    exact ⟨rfl, stores.keeps _ _ _⟩

/-- Each writer has come as far as `reached` says, and so has the destination. -/
structure Written (content : List UInt8) (chunkSize : Nat) (sizes : Nat → Nat) (holds : σ → List UInt8)
    (reached : Nat → Nat) (state : List ChunkWriting × σ) : Prop where
  writers : state.1 = (List.range (numChunks content.length chunkSize)).map fun index =>
    writerAt content chunkSize sizes index (reached index)
  inside : ∀ index, reached index ≤ (chunkOf content chunkSize index).length
  short : (holds state.2).length ≤ content.length
  placed : ∀ index done, done < reached index →
    (holds state.2)[index * chunkSize + done]? = content[index * chunkSize + done]?

theorem written_new (short : (holds file).length ≤ content.length) :
    Written content chunkSize sizes holds (fun _ => 0) (newWriters content chunkSize sizes, file) := by
  refine ⟨?_, by simp, short, by simp⟩
  simp [newWriters, newChunkWriteSeeker, writerAt, readerAt]

theorem getElem?_chunkOf (content : List UInt8) {chunkSize index done} (inside : done < chunkSize) :
    (chunkOf content chunkSize index)[done]? = content[index * chunkSize + done]? := by
  rw [chunkOf, getElem?_take_of_lt inside, getElem?_drop]

theorem chunks_apart {chunkSize first second done done' : Nat} (different : first ≠ second) (inside : done < chunkSize)
    (inside' : done' ≤ chunkSize) :
    first * chunkSize + done < second * chunkSize ∨ second * chunkSize + done' ≤ first * chunkSize + done := by
  rcases Nat.lt_or_gt_of_ne different with before | after
  · have := Nat.mul_le_mul_right chunkSize (show first + 1 ≤ second by omega)
    rw [Nat.succ_mul] at this
    omega
  · have := Nat.mul_le_mul_right chunkSize (show second + 1 ≤ first by omega)
    rw [Nat.succ_mul] at this
    omega

theorem set_map_range {α : Type} (count : Nat) (values : Nat → α) (index : Nat) (value : α) :
    ((List.range count).map values).set index value = (List.range count).map (Function.update values index value) := by
  apply ext_getElem?
  intro position
  rw [getElem?_set]
  by_cases same : index = position
  · subst same
    by_cases inside : index < count
    · simp [inside]
    · simp [inside]
  · by_cases inside : position < count
    · simp [same, inside, Function.update_of_ne (Ne.symm same)]
    · simp [same, inside]

theorem Written.known {reached state} (written : Written content chunkSize sizes holds reached state)
    (before : done < reached index) : index * chunkSize + done < (holds state.2).length := by
  have present := written.placed index done before
  have inside := written.inside index
  have length := length_chunkOf content chunkSize index
  by_contra beyond
  rw [getElem?_eq_none (by omega), eq_comm, getElem?_eq_none_iff] at present
  omega

theorem Written.turn {reached state} (written : Written content chunkSize sizes holds reached state)
    (stores : dest.Stores holds) (large : content.length < 2 ^ 63) (fits : chunkSize < 2 ^ 63)
    (positive : 0 < sizes index) (listed : index < numChunks content.length chunkSize) :
    Written content chunkSize sizes holds
      (Function.update reached index (advanced content chunkSize sizes index (reached index)))
      (writeTurn dest state index) := by
  obtain ⟨writers, file⟩ := state
  have known := fun other done (before : done < reached other) => written.known before
  obtain ⟨same, inside, short, placed⟩ := written
  simp only at same short placed known
  have here : writers[index]? = some (writerAt content chunkSize sizes index (reached index)) := by
    simp [same, listed]
  obtain ⟨moved, stored⟩ := @turn_writerAt _ _ dest content chunkSize sizes holds index _ file stores large fits positive
    (inside index)
  have length := length_chunkOf content chunkSize index
  have step : advanced content chunkSize sizes index (reached index) ≤ (chunkOf content chunkSize index).length :=
    Nat.min_le_left _ _
  simp only [writeTurn, here]
  refine ⟨?_, ?_, ?_, ?_⟩
  · simp only [moved, same, set_map_range]
    apply map_congr_left
    intro other _
    by_cases own : other = index
    · subst own
      simp
    · simp [own]
  · intro other
    by_cases own : other = index
    · subst own
      simpa using step
    · simpa [own] using inside other
  · simp only [stored]
    by_cases none : ((chunkOf content chunkSize index).drop (reached index)).take (sizes index) = []
    · simpa [overwrite, none] using short
    · have more : reached index < (chunkOf content chunkSize index).length := by
        by_contra all
        exact none (by rw [drop_eq_nil_iff.mpr (by omega), take_nil])
      rw [length_overwrite none, length_take, length_drop]
      omega
  · intro other done before
    simp only [stored]
    by_cases own : other = index
    · subst own
      rw [Function.update_self] at before
      simp only [advanced] at before
      by_cases old : done < reached other
      · rw [overwrite_outside (known other done old) (by omega), placed other done old]
      · rw [overwrite_inside (by omega) (by simp only [length_take, length_drop]; omega),
          getElem?_take_of_lt (by omega), getElem?_drop]
        have index : reached other + (other * chunkSize + done - (other * chunkSize + reached other)) = done := by omega
        rw [index, getElem?_chunkOf content (by omega)]
    · rw [Function.update_of_ne own] at before
      have there := inside other
      have size := length_chunkOf content chunkSize other
      have apart := chunks_apart own (show done < chunkSize by omega) (Nat.le_refl chunkSize)
      rw [overwrite_outside (known other done before) (by simp only [length_take, length_drop]; omega),
        placed other done before]

theorem writeTurn_absent {state} (absent : state.1[index]? = none) : writeTurn dest state index = state := by
  simp [writeTurn, absent]

theorem count_concat (schedule : List Nat) (last index : Nat) :
    (schedule ++ [last]).count index = schedule.count index + if last = index then 1 else 0 := by
  rw [count_append, count_singleton]
  simp

theorem written_schedule (stores : dest.Stores holds) (chunked : 0 < chunkSize) (large : content.length < 2 ^ 63) (fits : chunkSize < 2 ^ 63)
    (positive : ∀ index, 0 < sizes index) (short : (holds file).length ≤ content.length) (schedule : List Nat) :
    Written content chunkSize sizes holds
      (fun index => min (chunkOf content chunkSize index).length (schedule.count index * sizes index))
      (schedule.foldl (writeTurn dest) (newWriters content chunkSize sizes, file)) := by
  induction schedule using List.reverseRecOn with
  | nil => simpa using written_new short
  | append_singleton schedule last ih =>
    rw [foldl_append, foldl_cons, foldl_nil]
    by_cases listed : last < numChunks content.length chunkSize
    · have turned := ih.turn stores large fits (positive last) listed
      convert turned using 1
      funext index
      rw [count_concat]
      by_cases own : index = last
      · subst own
        simp only [advanced, Function.update_self, if_true, Nat.succ_mul]
        omega
      · simp [own, Ne.symm own]
    · have empty : (chunkOf content chunkSize last).length = 0 := by
        rw [lt_numChunks_iff _ _ chunked] at listed
        rw [length_chunkOf]
        omega
      rw [writeTurn_absent (by simp [ih.writers, listed])]
      convert ih using 1
      funext index
      rw [count_concat]
      by_cases own : index = last
      · subst own
        simp [empty]
      · simp [Ne.symm own]

theorem Written.complete {reached state} (written : Written content chunkSize sizes holds reached state)
    (chunked : 0 < chunkSize) (all : ∀ index, reached index = (chunkOf content chunkSize index).length) :
    holds state.2 = content := by
  apply ext_getElem?
  intro position
  by_cases inside : position < content.length
  · have split := Nat.div_add_mod position chunkSize
    have small := Nat.mod_lt position chunked
    rw [Nat.mul_comm] at split
    rw [← split]
    apply written.placed
    rw [all, length_chunkOf]
    omega
  · have short := written.short
    rw [getElem?_eq_none (by omega), getElem?_eq_none (by omega)]

theorem read_chunks (held : source.Holds content) (chunked : 0 < chunkSize) (fits : chunkSize < 2 ^ 63)
    (large : content.length < 2 ^ 63) (positive : ∀ index, 0 < sizes index) :
    ∃ chunks : List (List UInt8), chunks.length = numChunks content.length chunkSize ∧ chunks.flatten = content ∧
      ∀ index chunk, chunks[index]? = some chunk →
        (∀ files : Nat → σ, ∃ fuel, readToEOF source (sizes index) files fuel 0
          (newChunkReadSeeker (index * chunkSize : Nat) chunkSize) = some chunk) ∧
        (index + 1 < chunks.length → chunk.length = chunkSize) ∧ 0 < chunk.length ∧ chunk.length ≤ chunkSize := by
  refine ⟨(List.range (numChunks content.length chunkSize)).map (chunkOf content chunkSize), by simp, ?_, ?_⟩
  · rw [← flatMap_def, flatMap_chunkOf]
    exact take_of_length_le (le_numChunks content.length chunked)
  · intro index chunk found
    obtain ⟨listed, rfl⟩ : index < numChunks content.length chunkSize ∧ chunkOf content chunkSize index = chunk := by
      obtain ⟨listed, is⟩ := List.getElem?_eq_some_iff.mp found
      exact ⟨by simpa using listed, by simpa using is⟩
    have start := (lt_numChunks_iff content.length index chunked).mp listed
    have new : newChunkReadSeeker (index * chunkSize : Nat) chunkSize = readerAt (index * chunkSize) chunkSize 0 := by
      simp [newChunkReadSeeker, readerAt]
    rw [length_chunkOf]
    refine ⟨fun files => ⟨chunkSize, ?_⟩, ?_, by omega, by omega⟩
    · rw [new, readToEOF_chunk held files (positive index) large fits chunked (by omega) chunkSize 0 (by omega)]
      rfl
    · intro next
      rw [length_map, length_range, lt_numChunks_iff _ _ chunked, Nat.succ_mul] at next
      omega

/-- Reading every chunk to its end and joining the chunks gives the content; writing every
chunk in pieces, with the turns of the writers in any order, leaves it in the destination. -/
theorem chunked_transfer {content : List UInt8} {chunkSize : Nat} {sizes : Nat → Nat} (chunked : 0 < chunkSize)
    (fits : chunkSize < 2 ^ 63) (large : content.length < 2 ^ 63) (positive : ∀ index, 0 < sizes index) :
    (∀ {σ ε : Type} (source : ReaderAt σ ε), source.Holds content → ∃ chunks : List (List UInt8),
      chunks.length = numChunks content.length chunkSize ∧ chunks.flatten = content ∧
      (∀ index chunk, chunks[index]? = some chunk →
        (∀ files : Nat → σ, ∃ fuel, readToEOF source (sizes index) files fuel 0
          (newChunkReadSeeker (index * chunkSize : Nat) chunkSize) = some chunk) ∧
        (index + 1 < chunks.length → chunk.length = chunkSize) ∧ 0 < chunk.length ∧ chunk.length ≤ chunkSize)) ∧
    (∀ {σ ε : Type} (dest : WriterAt σ ε) (holds : σ → List UInt8) (file : σ) (schedule : List Nat), dest.Stores holds →
      (holds file).length ≤ content.length →
      (∀ index, (chunkOf content chunkSize index).length ≤ schedule.count index * sizes index) →
      holds (schedule.foldl (writeTurn dest) (newWriters content chunkSize sizes, file)).2 = content) := by
  constructor
  · intro σ ε source held
    exact read_chunks held chunked fits large positive
  · intro σ ε dest holds file schedule stores short enough
    exact (written_schedule stores chunked large fits positive short schedule).complete chunked fun index =>
      Nat.min_eq_left (enough index)

def listSource (content : List UInt8) : ReaderAt Unit Unit where
  readAt size position _ :=
    (((content.drop position.toNat).take size,
      if position.toNat + size ≤ content.length then none else some .eof), ())
  within _ _ _ := length_take_le _ _

def listDest : WriterAt (List UInt8) Unit where
  writeAt data position file := ((data.length, none), overwrite file position.toNat data)
  within _ _ _ := Nat.le_refl _

theorem chunked_transfer_five :
    (∃ chunks : List (List UInt8), chunks.length = 3 ∧ chunks.flatten = [1, 2, 3, 4, 5]) ∧
      ([2, 0, 1, 0].foldl (writeTurn listDest) (newWriters [1, 2, 3, 4, 5] 2 fun index => index + 1, [])).2 =
        [1, 2, 3, 4, 5] := by
  obtain ⟨read, write⟩ := @chunked_transfer [1, 2, 3, 4, 5] 2 (fun index => index + 1) (by decide) (by decide) (by decide)
    (by simp)
  have held : (listSource [1, 2, 3, 4, 5]).Holds [1, 2, 3, 4, 5] := by
    intro size position file some
    refine ⟨_, _, rfl, ?_⟩
    by_cases room : position + size ≤ 5
    · simp [room]
    · simp [room]
      omega
  refine ⟨?_, ?_⟩
  · obtain ⟨chunks, count, joined, -⟩ := read (listSource _) held
    exact ⟨chunks, count, joined⟩
  · apply write listDest id [] [2, 0, 1, 0] ⟨fun _ _ _ => rfl, fun _ _ _ => rfl⟩ (by simp)
    intro index
    rw [length_chunkOf]
    match index with
    | 0 | 1 | 2 => decide
    | index + 3 =>
      simp only [length_cons, length_nil]
      omega

end MycsCommon.Utils
