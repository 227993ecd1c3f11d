import MycsCommon.Streams.FilterWriter

/-! The expects of streams/expect.go. A handler reads a stream, passes it on and shows each
line, also while it is still growing, to the expects of its side, which answer with commands.
Patterns are predicates on lines; an expect has a start pattern (without one the source
panics). Each entry of a list is an expect of its own. -/

namespace MycsCommon.Streams

structure Expect where
  startPattern : Pattern
  endPattern : Option Pattern := none
  command : List UInt8 := []
  onNewLine : Bool := false
  exit : Bool := false
  active : Bool := false

/-- Which expect a handler is at. -/
inductive ExpectRef where
  | serial
  | triggerOut (index : Nat)
  | triggerIn (index : Nat)
deriving DecidableEq, Repr

structure ExpectStream (σ : Type) where
  serialExpects : List Expect := []
  triggerOutExpects : List Expect := []
  triggerInExpects : List Expect := []
  running : Bool := false
  /-- the client's output and the pipe to the service -/
  streams : σ
  /-- the expects that have matched so far, and the commands that were sent: not in the source -/
  matched : List Expect := []
  sent : List (ExpectRef × List UInt8) := []

namespace Expect

/-- What a line does to an expect, and whether it has now matched. -/
def judge (expect : Expect) (line : List UInt8) (newLine : Bool) : Expect × Bool :=
  if !expect.onNewLine || newLine then
    let judged := if !expect.active && expect.startPattern line then { expect with active := true } else expect
    (judged, judged.active && judged.endPattern.all (fun pattern => pattern line))
  else (expect, false)

end Expect

/-- The handlers of the service's output and of the client's input. -/
inductive Side where
  | output | input
deriving DecidableEq, Repr

/-- Where a handler passes on what it reads: the client's output, or the pipe to the service to
which the commands go as well. -/
structure Outlets (σ ε : Type) where
  outputStream : Writer σ ε
  streamWriter : Writer σ ε

def Outlets.echo {σ ε : Type} (outlets : Outlets σ ε) : Side → Writer σ ε
  | .output => outlets.outputStream
  | .input => outlets.streamWriter

namespace ExpectStream

variable {σ ε : Type}

def setShellExitCommand (command : List UInt8) (es : ExpectStream σ) : ExpectStream σ :=
  { es with
    triggerInExpects := es.triggerInExpects ++
      [{ startPattern := fun line => line.contains 4, command, onNewLine := false, exit := true },
        { startPattern := fun line => line == "exit".toUTF8.toList, command, onNewLine := true, exit := true },
        { startPattern := fun line => line == "logout".toUTF8.toList, command, onNewLine := true, exit := true }] }

/-- The result tells whether a command was sent, which is not the same as a match. -/
def processExpect (outlets : Outlets σ ε) (expect : Expect) (line : List UInt8) (newLine : Bool) (es : ExpectStream σ) :
    (Bool × Option ε) × Expect × ExpectStream σ :=
  match expect.judge line newLine with
  | (judged, false) => ((false, none), judged, es)
  | (judged, true) =>
    let running := { es with running := !judged.exit, matched := es.matched ++ [judged] }
    if 0 < judged.command.length then
      let ((_, err), after) := outlets.streamWriter.write judged.command es.streams
      ((err.isNone, err), judged, { running with streams := after })
    else ((false, none), judged, running)

def record (sent : Bool) (ref : ExpectRef) (command : List UInt8) (es : ExpectStream σ) : ExpectStream σ :=
  if sent then { es with sent := es.sent ++ [(ref, command)] } else es

def lookup (es : ExpectStream σ) : ExpectRef → Option Expect
  | .serial => es.serialExpects.head?
  | .triggerOut index => es.triggerOutExpects[index]?
  | .triggerIn index => es.triggerInExpects[index]?

/-- An expect that was shown a line. The head of the serial ones leaves once its command was sent. -/
def store (ref : ExpectRef) (sent : Bool) (judged : Expect) (es : ExpectStream σ) : ExpectStream σ :=
  match ref with
  | .serial =>
    { es with serialExpects := if sent then es.serialExpects.tail else judged :: es.serialExpects.tail }
  | .triggerOut index => { es with triggerOutExpects := es.triggerOutExpects.set index judged }
  | .triggerIn index => { es with triggerInExpects := es.triggerInExpects.set index judged }

/-- One expect is shown a line. -/
def evaluate (outlets : Outlets σ ε) (line : List UInt8) (newLine : Bool) (ref : ExpectRef) (es : ExpectStream σ) :
    Option ε × ExpectStream σ :=
  match es.lookup ref with
  | none => (none, es)
  | some expect =>
    let ((sent, err), judged, after) := processExpect outlets expect line newLine es
    (err, record sent ref judged.command (store ref sent judged after))

/-- The expects of a list in order, up to the first whose command could not be sent. -/
def evaluateAll (outlets : Outlets σ ε) (line : List UInt8) (newLine : Bool) :
    List ExpectRef → ExpectStream σ → Option ε × ExpectStream σ
  | [], es => (none, es)
  | ref :: refs, es =>
    match evaluate outlets line newLine ref es with
    | (some err, es) => (some err, es)
    | (none, es) => evaluateAll outlets line newLine refs es

def outRefs (es : ExpectStream σ) : List ExpectRef := .serial :: (List.range es.triggerOutExpects.length).map .triggerOut

def inRefs (es : ExpectStream σ) : List ExpectRef := (List.range es.triggerInExpects.length).map .triggerIn

def processOutExpects (outlets : Outlets σ ε) (line : List UInt8) (newLine : Bool) (es : ExpectStream σ) :
    Option ε × ExpectStream σ :=
  evaluateAll outlets line newLine es.outRefs es

def processInExpects (outlets : Outlets σ ε) (line : List UInt8) (newLine : Bool) (es : ExpectStream σ) :
    Option ε × ExpectStream σ :=
  evaluateAll outlets line newLine es.inRefs es

def expectHandler (outlets : Outlets σ ε) : Side → List UInt8 → Bool → ExpectStream σ → Option ε × ExpectStream σ
  | .output => processOutExpects outlets
  | .input => processInExpects outlets

end ExpectStream

def endsLine (byte : UInt8) : Bool := byte == 10 || byte == 13

/-- What of a buffer is shown: each line that ends in it, and then the line that has grown in it
and is still open. `grown` tells whether something was added to the line since it was shown. -/
def fragments : List UInt8 → Bool → List UInt8 → List (List UInt8 × Bool) × List UInt8
  | line, grown, [] => (if grown then [(line, false)] else [], line)
  | line, _, byte :: rest =>
    if endsLine byte then
      let (more, left) := fragments [] false rest
      ((line, true) :: more, left)
    else fragments (line ++ [byte]) true rest

namespace ExpectStream

variable {σ ε : Type}

def handleFragments (outlets : Outlets σ ε) (side : Side) :
    List (List UInt8 × Bool) → ExpectStream σ → Option ε × ExpectStream σ
  | [], es => (none, es)
  | (line, newLine) :: shown, es =>
    match expectHandler outlets side line newLine es with
    | (some err, es) => (some err, es)
    | (none, es) => handleFragments outlets side shown es

/-- The loop of a handler over the reads that its stream will give. It looks whether the session
is running before each read; what it has not read is left. -/
def startStreamHandler (outlets : Outlets σ ε) (side : Side) :
    List (List UInt8) → List UInt8 → ExpectStream σ → Option ε × List (List UInt8) × ExpectStream σ
  | [], _, es => (none, [], es)
  | buffer :: reads, lineBuffer, es =>
    if es.running then
      match (outlets.echo side).write buffer es.streams with
      | ((_, some err), after) => (some err, reads, { es with streams := after })
      | ((_, none), after) =>
        let (shown, left) := fragments lineBuffer false buffer
        match handleFragments outlets side shown { es with streams := after } with
        | (some err, es) => (some err, reads, es)
        | (none, es) => startStreamHandler outlets side reads left es
    else (none, buffer :: reads, es)

/-- What `Start` does before the two handlers are at work. -/
def start (es : ExpectStream σ) : ExpectStream σ := { es with running := true }

end ExpectStream

end MycsCommon.Streams
