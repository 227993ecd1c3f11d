import MycsCommon.Library.SortedInsert
import Mathlib.Data.Int.Order.Basic

/-! The buffer of streams/writeat_buffer.go: data written at any position leaves it for
a sink as soon as everything before it has left. Positions are unbounded integers. A
slot keeps the bytes it was given; the source keeps the caller's slice, which the caller
must leave alone. -/

namespace MycsCommon.Streams
open Library.SortedInsert

/-- An `io.Writer`: how many bytes a call took, and its error. -/
structure Writer (σ ε : Type) where
  write : List UInt8 → σ → (Nat × Option ε) × σ

/-- The sink takes every write whole; `holds` reads what it has. -/
structure Accepts {σ ε : Type} (writer : Writer σ ε) (holds : σ → List UInt8) : Prop where
  whole : ∀ data sink, (writer.write data sink).1 = (data.length, none)
  keeps : ∀ data sink, holds (writer.write data sink).2 = holds sink ++ data

structure BufferAt where
  pos : Int
  size : Nat
  data : List UInt8
deriving DecidableEq, Repr

structure WriteAtBuffer (σ : Type) where
  data : σ
  outAt : Int
  bufferSlot : List BufferAt
deriving DecidableEq, Repr

inductive WriteError (ε : Type) where
  | sink (err : ε)
  | behind (outAt pos : Int)
  | unwritten (slots : List BufferAt)
deriving DecidableEq, Repr

variable {σ ε : Type}

def newWriteAtBuffer (data : σ) : WriteAtBuffer σ := { data, outAt := 0, bufferSlot := [] }

def close (buffer : WriteAtBuffer σ) : Option (WriteError ε) :=
  if buffer.bufferSlot.length ≠ 0 then some (.unwritten buffer.bufferSlot) else none

/-- The slot for data that cannot leave yet, before the first slot with a greater position. -/
def saveSlot (buffer : WriteAtBuffer σ) (slot : BufferAt) : WriteAtBuffer σ :=
  if 0 < buffer.bufferSlot.length then
    { buffer with
      bufferSlot := insertAt buffer.bufferSlot (placeOf BufferAt.pos slot.pos buffer.bufferSlot) slot }
  else { buffer with bufferSlot := buffer.bufferSlot ++ [slot] }

/-- The loop over the slots, as they were when it started, that writes out those that are next. -/
def releaseSlots (writer : Writer σ ε) :
    List BufferAt → WriteAtBuffer σ → Option (WriteError ε) × WriteAtBuffer σ
  | [], buffer => (none, buffer)
  | slot :: rest, buffer =>
    if slot.pos < buffer.outAt then (some (.behind buffer.outAt slot.pos), buffer)
    else if buffer.outAt < slot.pos then (none, buffer)
    else
      match writer.write slot.data buffer.data with
      | ((_, some err), sink) => (some (.sink err), { buffer with data := sink })
      | ((count, none), sink) =>
        releaseSlots writer rest
          { data := sink
            outAt := buffer.outAt + count
            -- the last slot of the range leaves a new empty slice behind
            bufferSlot := if rest.isEmpty then [] else buffer.bufferSlot.drop 1 }

/-- What is left to save of a write, and the size to report, once the sink took its part. -/
structure Unsaved where
  retSize : Nat
  outSize : Nat
  offset : Int
  rest : List UInt8

def saveRest (writer : Writer σ ε) (left : Unsaved) (buffer : WriteAtBuffer σ) :
    (Nat × Option (WriteError ε)) × WriteAtBuffer σ :=
  let saved := if 0 < left.outSize then saveSlot buffer ⟨left.offset, left.outSize, left.rest⟩ else buffer
  let (err, released) := releaseSlots writer saved.bufferSlot saved
  ((left.retSize, err), released)

def writeAt (writer : Writer σ ε) (data : List UInt8) (offset : Int) (buffer : WriteAtBuffer σ) :
    (Nat × Option (WriteError ε)) × WriteAtBuffer σ :=
  if offset = buffer.outAt then
    match writer.write data buffer.data with
    | ((count, some err), sink) => ((count, some (.sink err)), { buffer with data := sink })
    | ((count, none), sink) =>
      let after := { buffer with data := sink, outAt := buffer.outAt + count }
      -- the sink may take only a part without an error; the remainder needs a slot
      if count < data.length then
        saveRest writer ⟨count, data.length - count, offset + count, data.drop count⟩ after
      else saveRest writer ⟨data.length, 0, offset, data⟩ after
  else saveRest writer ⟨data.length, data.length, offset, data⟩ buffer

/-- One `WriteAt` per piece of data and offset; the returned values in order. -/
def writeAll (writer : Writer σ ε) :
    List (Nat × List UInt8) → WriteAtBuffer σ → List (Nat × Option (WriteError ε)) × WriteAtBuffer σ
  | [], buffer => ([], buffer)
  | (offset, data) :: writes, buffer =>
    let (result, after) := writeAt writer data offset buffer
    let (results, final) := writeAll writer writes after
    (result :: results, final)

end MycsCommon.Streams
