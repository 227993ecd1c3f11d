import Mathlib.Data.Int.Order.Basic
import Mathlib.Algebra.Group.Int.Defs
import Mathlib.Algebra.Group.Nat.Defs

/-! The chunk readers and writers of utils/files.go. Each sees a part of a file as a
file of its own: a position and the size that is left are kept apart, and `Seek` exists
twice with the same body. The int64 fields are integers whose sums wrap. The file behind
is whatever its state and its answers are. -/

namespace MycsCommon.Utils

/-- What an int64 expression with this value holds. -/
def int64 (value : Int) : Int := value.bmod (2 ^ 64)

inductive ReadError (ε : Type) where
  | eof
  | failed (err : ε)
deriving DecidableEq, Repr

/-- An `io.ReaderAt`: the bytes it puts into a buffer of a size, and its error. -/
structure ReaderAt (σ ε : Type) where
  readAt : Nat → Int → σ → (List UInt8 × Option (ReadError ε)) × σ
  within : ∀ size position file, (readAt size position file).1.1.length ≤ size

/-- An `io.WriterAt`: how many bytes it took, and its error. -/
structure WriterAt (σ ε : Type) where
  writeAt : List UInt8 → Int → σ → (Nat × Option ε) × σ
  within : ∀ data position file, (writeAt data position file).1.1 ≤ data.length

structure ChunkSeeker where
  offset : Int
  chunkSize : Int
  ptr : Int
  remainder : Int
deriving DecidableEq, Repr

inductive SeekError where
  | invalidWhence
  | negativePosition
deriving DecidableEq, Repr

namespace ChunkSeeker

/-- Where a `Seek` goes; `io.SeekStart`, `io.SeekCurrent` and `io.SeekEnd` are 0, 1 and 2. -/
def target (seeker : ChunkSeeker) (offset : Int64) (whence : Int) : Option Int :=
  if whence = 0 then some offset.toInt
  else if whence = 1 then some (int64 (seeker.ptr + offset.toInt))
  else if whence = 2 then some (int64 (seeker.chunkSize + offset.toInt))
  else none

/-- The position is assigned before it is checked. -/
def seek (seeker : ChunkSeeker) (offset : Int64) (whence : Int) : (Int × Option SeekError) × ChunkSeeker :=
  match seeker.target offset whence with
  | none => ((0, some .invalidWhence), seeker)
  | some ptr =>
    if ptr < 0 then ((0, some .negativePosition), { seeker with ptr })
    else ((ptr, none), { seeker with ptr, remainder := int64 (seeker.chunkSize - ptr) })

end ChunkSeeker

variable {σ ε : Type}

def newChunkReadSeeker (offset chunkSize : Int) : ChunkSeeker :=
  { offset, chunkSize, ptr := 0, remainder := chunkSize }

def newChunkWriteSeeker (offset chunkSize : Int) : ChunkSeeker :=
  { offset, chunkSize, ptr := 0, remainder := chunkSize }

namespace ChunkReadSeeker

/-- The size that is left after some bytes; at the end of the file there is none. -/
def leftAfter (remainder : Int) (count : Nat) : Option (ReadError ε) → Int
  | some .eof => 0
  | _ => int64 (remainder - count)

/-- `Read` into a buffer of a size. -/
def read (source : ReaderAt σ ε) (size : Nat) (seeker : ChunkSeeker) (file : σ) :
    (List UInt8 × Option (ReadError ε)) × ChunkSeeker × σ :=
  if (size : Int) < seeker.remainder then
    let ((data, err), file) := source.readAt size (int64 (seeker.offset + seeker.ptr)) file
    let remainder := leftAfter seeker.remainder data.length err
    ((data, err), { seeker with remainder, ptr := int64 (seeker.ptr + data.length) }, file)
  else if 0 < seeker.remainder then
    let ((data, err), file) := source.readAt seeker.remainder.toNat (int64 (seeker.offset + seeker.ptr)) file
    -- no more bytes in chunk
    ((data, some (err.getD .eof)), { seeker with remainder := 0, ptr := int64 (seeker.ptr + data.length) }, file)
  else (([], some .eof), seeker, file)

end ChunkReadSeeker

namespace ChunkWriteSeeker

def write (dest : WriterAt σ ε) (data : List UInt8) (seeker : ChunkSeeker) (file : σ) :
    (Nat × Option ε) × ChunkSeeker × σ :=
  if (data.length : Int) < seeker.remainder then
    let ((count, err), file) := dest.writeAt data (int64 (seeker.offset + seeker.ptr)) file
    ((count, err),
      { seeker with remainder := int64 (seeker.remainder - count), ptr := int64 (seeker.ptr + count) }, file)
  else if 0 < seeker.remainder then
    let ((count, err), file) :=
      dest.writeAt (data.take seeker.remainder.toNat) (int64 (seeker.offset + seeker.ptr)) file
    ((count, err), { seeker with remainder := 0, ptr := int64 (seeker.ptr + count) }, file)
  else ((0, none), seeker, file)

/-- The second body of `Seek`. -/
def seek (seeker : ChunkSeeker) (offset : Int64) (whence : Int) : (Int × Option SeekError) × ChunkSeeker :=
  seeker.seek offset whence

end ChunkWriteSeeker

/-! Sequences of calls, on a file that notes what it is asked to touch. -/

structure Access where
  position : Int
  size : Nat
deriving DecidableEq, Repr

def ReaderAt.noting (source : ReaderAt σ ε) : ReaderAt (σ × List Access) ε where
  readAt size position file :=
    let (answer, state) := source.readAt size position file.1
    (answer, state, file.2 ++ [⟨position, size⟩])
  within size position file := source.within size position file.1

def WriterAt.noting (dest : WriterAt σ ε) : WriterAt (σ × List Access) ε where
  writeAt data position file :=
    let (answer, state) := dest.writeAt data position file.1
    (answer, state, file.2 ++ [⟨position, data.length⟩])
  within data position file := dest.within data position file.1

inductive Call where
  | seek (offset : Int64) (whence : Int)
  | read (size : Nat)
  | write (data : List UInt8)
deriving DecidableEq, Repr

/-- A seeker and its file. -/
structure Chunk (σ : Type) where
  seeker : ChunkSeeker
  file : σ
deriving DecidableEq, Repr

/-- The chunk after a call, and the error if the call was a `Seek` that returned one. -/
def Chunk.call (source : ReaderAt σ ε) (dest : WriterAt σ ε) (chunk : Chunk σ) : Call → Option SeekError × Chunk σ
  | .seek offset whence =>
    let ((_, err), seeker) := chunk.seeker.seek offset whence
    (err, { chunk with seeker })
  | .read size =>
    let (_, seeker, file) := ChunkReadSeeker.read source size chunk.seeker chunk.file
    (none, { seeker, file })
  | .write data =>
    let (_, seeker, file) := ChunkWriteSeeker.write dest data chunk.seeker chunk.file
    (none, { seeker, file })

def Chunk.run (source : ReaderAt σ ε) (dest : WriterAt σ ε) (chunk : Chunk σ) (calls : List Call) : Chunk σ :=
  calls.foldl (fun chunk call => (chunk.call source dest call).2) chunk

end MycsCommon.Utils
