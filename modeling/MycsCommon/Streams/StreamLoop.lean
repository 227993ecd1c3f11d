import MycsCommon.Streams.ExpectStream
import MycsCommon.Utils.ChunkSeeker

/-! The loop of `startStreamHandler` with its error variable, which the read, the echo and the
expect handler all assign, turn by turn on a stream that may go on for ever. -/

namespace MycsCommon.Streams
open Utils (ReadError)

variable {σ ε : Type}

structure Handling (σ ε : Type) where
  es : ExpectStream σ
  err : Option (ReadError ε) := none
  lineBuffer : List UInt8 := []
  /-- the bytes echoed and the calls of the expect handler: not in the source -/
  echoed : List UInt8 := []
  calls : List (List UInt8 × Bool) := []

namespace Handling

/-- The condition of the loop. -/
def going (handling : Handling σ ε) : Bool := handling.err.isNone && handling.es.running

/-- The loop over the lines in the buffer, which the first error breaks. -/
def showLines (outlets : Outlets σ ε) (side : Side) : List (List UInt8 × Bool) → Handling σ ε → Handling σ ε
  | [], handling => handling
  | (line, newLine) :: shown, handling =>
    let calls := handling.calls ++ [(line, newLine)]
    match ExpectStream.expectHandler outlets side line newLine handling.es with
    | (some err, es) => { handling with es, err := some (.failed err), calls }
    | (none, es) => showLines outlets side shown { handling with es, calls }

/-- A buffer is echoed, and its lines are shown. -/
def pass (outlets : Outlets σ ε) (side : Side) (handling : Handling σ ε) (buffer : List UInt8) : Handling σ ε :=
  match (outlets.echo side).write buffer handling.es.streams with
  | ((_, some err), streams) => { handling with es := { handling.es with streams }, err := some (.failed err) }
  | ((_, none), streams) =>
    let (shown, left) := fragments handling.lineBuffer false buffer
    showLines outlets side shown
      { handling with es := { handling.es with streams }, err := none, lineBuffer := left, echoed := handling.echoed ++ buffer }

/-- One turn, with what the read gives. At the end of input the echo assigns the error again. -/
def turn (outlets : Outlets σ ε) (side : Side) (handling : Handling σ ε) :
    List UInt8 × Option (ReadError ε) → Handling σ ε
  | (_, some (.failed err)) => { handling with err := some (.failed err) }
  | (buffer, some .eof) => handling.pass outlets side buffer
  | (buffer, none) => handling.pass outlets side buffer

/-- The state after so many turns; a loop that has ended makes no more. -/
def after (outlets : Outlets σ ε) (side : Side) (reads : Nat → List UInt8 × Option (ReadError ε)) (start : Handling σ ε) :
    Nat → Handling σ ε
  | 0 => start
  | turns + 1 =>
    let handling := after outlets side reads start turns
    if handling.going then handling.turn outlets side (reads turns) else handling

end Handling

/-- A stream that delivers chunks and then is at its end. -/
def delivers (chunks : List (List UInt8)) (call : Nat) : List UInt8 × Option (ReadError ε) :=
  match chunks[call]? with
  | some chunk => (chunk, none)
  | none => ([], some .eof)

end MycsCommon.Streams
