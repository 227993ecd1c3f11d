import MycsCommon.Library.Machine
import MycsCommon.Streams.ExpectStream
import Mathlib.Logic.Function.Basic

/-! A session of streams/expect.go: the handlers of the two sides run at the same time on one
`ExpectStream`. A step is one look at `running`, one read, or one expect that is shown a line. -/

namespace MycsCommon.Streams

/-- Where a handler is: about to look at `running`, in a read, showing lines, or done. -/
inductive HandlerPhase where
  | looping | reading | showing | ended
deriving DecidableEq, Repr

structure HandlerState where
  phase : HandlerPhase := .looping
  lineBuffer : List UInt8 := []
  /-- the expects that are still to be shown a line of the last read -/
  todo : List (ExpectRef × List UInt8 × Bool) := []

structure Session (σ : Type) where
  es : ExpectStream σ
  handlers : Side → HandlerState := fun _ => {}

inductive SessionAction (σ : Type) where
  | check (side : Side)
  | read (side : Side) (buffer : List UInt8)
  | evaluate (side : Side)
  /-- the other ends of the streams do something -/
  | outside (streams : σ)
  /-- a call of `Close` -/
  | close (streams : σ)

namespace Session

variable {σ ε : Type}

def refs (es : ExpectStream σ) : Side → List ExpectRef
  | .output => es.outRefs
  | .input => es.inRefs

def toShow (es : ExpectStream σ) (side : Side) (shown : List (List UInt8 × Bool)) : List (ExpectRef × List UInt8 × Bool) :=
  shown.flatMap fun fragment => (refs es side).map fun ref => (ref, fragment)

def put (session : Session σ) (side : Side) (handler : HandlerState) : Session σ :=
  { session with handlers := Function.update session.handlers side handler }

def start (es : ExpectStream σ) : Session σ := { es := es.start }

def step (outlets : Outlets σ ε) : SessionAction σ → Session σ → Option (Session σ)
  | .check side, session =>
    if (session.handlers side).phase = .looping then
      some (session.put side
        { session.handlers side with phase := if session.es.running then .reading else .ended })
    else none
  | .read side buffer, session =>
    if (session.handlers side).phase = .reading then
      match (outlets.echo side).write buffer session.es.streams with
      | ((_, some _), streams) =>
        some ({ session with es := { session.es with streams } }.put side { session.handlers side with phase := .ended })
      | ((_, none), streams) =>
        let (shown, left) := fragments (session.handlers side).lineBuffer false buffer
        some ({ session with es := { session.es with streams } }.put side
          { phase := .showing, lineBuffer := left, todo := toShow session.es side shown })
    else none
  | .evaluate side, session =>
    if (session.handlers side).phase = .showing then
      match (session.handlers side).todo with
      | [] => some (session.put side { session.handlers side with phase := .looping })
      | (ref, line, newLine) :: todo =>
        match session.es.evaluate outlets line newLine ref with
        | (some _, es) => some ({ session with es }.put side { session.handlers side with phase := .ended })
        | (none, es) => some ({ session with es }.put side { session.handlers side with todo })
    else none
  | .outside streams, session => some { session with es := { session.es with streams } }
  | .close streams, session => some { session with es := { session.es with running := false, streams } }

end Session

end MycsCommon.Streams
