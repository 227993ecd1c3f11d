import MycsCommon.Streams.FilterWriter

/-! Where the output of a command goes, as in run/cli.go. `ApplyFilter` and
`GetPipedOutputBuffer` each wrap the writer that was there; `cleanUp` takes both off again.
The process is left out but for what it writes: the copying of its output stops at the
first write that fails. The reader of the pipe reads whatever is written. -/

namespace MycsCommon.Run
open Streams

/-- A writer made of the caller's buffer, the pipe and the filter. -/
inductive Output where
  | original
  | pipe
  | multi (first second : Output)
  | filtered (outputBuffer : Output)
deriving DecidableEq, Repr

inductive OutputError where
  | closedPipe | shortWrite | unknownFilterType
deriving DecidableEq, Repr

def passedOn : FilterError OutputError → OutputError
  | .sink err => err
  | .unknownFilterType => .unknownFilterType

/-- What has been received, and the filter writer. -/
structure Buffers where
  original : List UInt8
  piped : List UInt8
  pipeClosed : Bool
  filterWriter : FilterWriter

def Output.write : Output → List UInt8 → Buffers → (Nat × Option OutputError) × Buffers
  | .original, data, buffers => ((data.length, none), { buffers with original := buffers.original ++ data })
  | .pipe, data, buffers =>
    if buffers.pipeClosed then ((0, some .closedPipe), buffers)
    else ((data.length, none), { buffers with piped := buffers.piped ++ data })
  | .multi first second, data, buffers =>
    match first.write data buffers with
    | ((count, some err), buffers) => ((count, some err), buffers)
    | ((count, none), buffers) =>
      if count ≠ data.length then ((count, some .shortWrite), buffers)
      else
        match second.write data buffers with
        | ((count, some err), buffers) => ((count, some err), buffers)
        | ((count, none), buffers) =>
          if count ≠ data.length then ((count, some .shortWrite), buffers) else ((data.length, none), buffers)
  | .filtered outputBuffer, data, buffers =>
    let ((count, err), filterWriter, buffers) :=
      FilterWriter.write ⟨fun data buffers => outputBuffer.write data buffers⟩ data buffers.filterWriter buffers
    ((count, err.map passedOn), { buffers with filterWriter })

structure Cli where
  outputBuffer : Output := .original
  outBuffer : Option Output := none
  outPipeWriter : Bool := false
  outUnfilteredBuffer : Option Output := none
  /-- The filter writer, by the writer it writes to. -/
  outFilteredWriter : Option Output := none
  filteredAll : Bool := false
deriving DecidableEq, Repr

/-- A second filter panics. -/
def Cli.applyFilter (cli : Cli) : Option Cli :=
  if cli.outUnfilteredBuffer.isSome then none
  else some { cli with
    filteredAll := cli.outPipeWriter
    outUnfilteredBuffer := some cli.outputBuffer
    outFilteredWriter := some cli.outputBuffer
    outputBuffer := .filtered cli.outputBuffer }

/-- So does a second pipe. -/
def Cli.getPipedOutputBuffer (cli : Cli) : Option Cli :=
  if cli.outPipeWriter then none
  else some { cli with
    outBuffer := some cli.outputBuffer
    outPipeWriter := true
    outputBuffer := .multi cli.outputBuffer .pipe }

/-- `Close` of the filter writer. -/
def closeFilter (outFilteredWriter : Option Output) (buffers : Buffers) : Buffers :=
  match outFilteredWriter with
  | none => buffers
  | some outputBuffer =>
    let (filterWriter, buffers) := FilterWriter.close ⟨fun data buffers => outputBuffer.write data buffers⟩
      buffers.filterWriter buffers
    { buffers with filterWriter }

def cleanUp (cli : Cli) (buffers : Buffers) : Cli × Buffers :=
  let (outputBuffer, buffers) :=
    match cli.outBuffer with
    | some outBuffer =>
      let buffers := { buffers with pipeClosed := true }
      match cli.outUnfilteredBuffer with
      | some outUnfilteredBuffer =>
        (if cli.filteredAll then outBuffer else outUnfilteredBuffer, closeFilter cli.outFilteredWriter buffers)
      | none => (outBuffer, buffers)
    | none =>
      match cli.outUnfilteredBuffer with
      | some outUnfilteredBuffer => (outUnfilteredBuffer, closeFilter cli.outFilteredWriter buffers)
      | none => (cli.outputBuffer, buffers)
  ({ outputBuffer }, buffers)

/-- Copies what the process writes, until a write fails. -/
def copyOutput (output : Output) : List (List UInt8) → Buffers → Buffers
  | [], buffers => buffers
  | data :: writes, buffers =>
    match output.write data buffers with
    | ((_, some _), buffers) => buffers
    | ((count, none), buffers) => if count ≠ data.length then buffers else copyOutput output writes buffers

/-- `Start` and `Wait` of a command that writes this and ends by itself. -/
def Cli.runCommand (cli : Cli) (writes : List (List UInt8)) (buffers : Buffers) : Cli × Buffers :=
  cleanUp cli (copyOutput cli.outputBuffer writes buffers)

/-- What is asked for before the run. -/
inductive Setup where
  | plain
  | filter (applied : Filter)
  | pipe
  | filterThenPipe (applied : Filter)
  | pipeThenFilter (applied : Filter)

def Setup.prepare (cli : Cli) : Setup → Option Cli
  | plain => some cli
  | filter _ => cli.applyFilter
  | pipe => cli.getPipedOutputBuffer
  | filterThenPipe _ => do (← cli.applyFilter).getPipedOutputBuffer
  | pipeThenFilter _ => do (← cli.getPipedOutputBuffer).applyFilter

def Setup.filter? : Setup → Option Filter
  | filter applied | filterThenPipe applied | pipeThenFilter applied => some applied
  | _ => none

/-- The buffers before a run: a new pipe, and a new filter writer over the filter if there is one. -/
def Setup.buffers (setup : Setup) (original : List UInt8) : Buffers :=
  { original, piped := [], pipeClosed := false, filterWriter := newFilterWriter (setup.filter?.getD {}) }

end MycsCommon.Run
