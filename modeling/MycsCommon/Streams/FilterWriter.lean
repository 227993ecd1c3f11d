import MycsCommon.Streams.WriteAtBuffer

/-! The filter of streams/filter_writer.go. Text is held back line by line until it is
known whether the line passes. Where no pattern can change the outcome any more, the filter
turns into one that passes everything, or nothing, in the middle of a write. Patterns are
predicates on lines. -/

namespace MycsCommon.Streams

inductive FilterType where
  | undefined | passThru | blackHole | applyFilters
deriving DecidableEq, Repr

inductive FilterState where
  | stateInclude | stateExclude
deriving DecidableEq, Repr

abbrev Pattern := List UInt8 → Bool

structure Filter where
  filterType : FilterType := .undefined
  state : FilterState := .stateInclude
  excludeAfterPatterns : List Pattern := []
  includeAfterPatterns : List Pattern := []
  excludePatterns : List Pattern := []
  includePatterns : List Pattern := []
  hasExcludeAfterPatterns : Bool := false
  hasIncludeAfterPatterns : Bool := false
  hasExcludePatterns : Bool := false
  hasIncludePatterns : Bool := false

namespace Filter

/-- The flags that tell whether there are patterns stay as they are. -/
def clearPatterns (filter : Filter) : Filter :=
  { filter with
    filterType := .passThru, state := .stateInclude
    excludeAfterPatterns := [], includeAfterPatterns := [], excludePatterns := [], includePatterns := [] }

def setPassThru (filter : Filter) : Filter := { filter with filterType := .passThru, state := .stateInclude }

def setBlackHole (filter : Filter) : Filter := { filter with filterType := .blackHole, state := .stateExclude }

def addExcludeAfterPattern (pattern : Pattern) (filter : Filter) : Filter :=
  { filter with
    filterType := .applyFilters
    state := if filter.includeAfterPatterns.length = 0 then .stateInclude else filter.state
    excludeAfterPatterns := filter.excludeAfterPatterns ++ [pattern], hasExcludeAfterPatterns := true }

def addIncludeAfterPattern (pattern : Pattern) (filter : Filter) : Filter :=
  { filter with
    filterType := .applyFilters
    state := if filter.excludeAfterPatterns.length = 0 then .stateExclude else filter.state
    includeAfterPatterns := filter.includeAfterPatterns ++ [pattern], hasIncludeAfterPatterns := true }

def addExcludePattern (pattern : Pattern) (filter : Filter) : Filter :=
  { filter with
    filterType := .applyFilters
    excludePatterns := filter.excludePatterns ++ [pattern], hasExcludePatterns := true }

def addIncludePattern (pattern : Pattern) (filter : Filter) : Filter :=
  { filter with
    filterType := .applyFilters
    includePatterns := filter.includePatterns ++ [pattern], hasIncludePatterns := true }

def isMatch (patterns : List Pattern) (line : List UInt8) : Bool := patterns.any fun pattern => pattern line

/-- Whether a line passes while lines are included. -/
def keeps (filter : Filter) (line : List UInt8) : Bool :=
  (!filter.hasIncludePatterns || isMatch filter.includePatterns line) &&
    (!filter.hasExcludePatterns || !isMatch filter.excludePatterns line)

/-- What becomes of the text behind a line in the same write. -/
inductive Onward where
  | nextLine | dropped | passed
deriving DecidableEq, Repr

/-- What the end of a line decides: whether the line is written, and the filter from there on. -/
def endLine (filter : Filter) (line : List UInt8) : Bool × Filter × Onward :=
  match filter.state with
  | .stateInclude =>
    if isMatch filter.excludeAfterPatterns line then
      if !filter.hasIncludeAfterPatterns then
        -- nothing brings the stream back
        (filter.keeps line, { filter with state := .stateExclude, filterType := .blackHole }, .dropped)
      else (filter.keeps line, { filter with state := .stateExclude }, .nextLine)
    else (filter.keeps line, filter, .nextLine)
  | .stateExclude =>
    if isMatch filter.includeAfterPatterns line then
      if !filter.hasExcludeAfterPatterns then
        (false, { filter with state := .stateInclude, filterType := .passThru }, .passed)
      else (false, { filter with state := .stateInclude }, .nextLine)
    else (false, filter, .nextLine)

end Filter

/-- The calls that add a pattern. -/
inductive PatternCall where
  | addExcludeAfterPattern (pattern : Pattern)
  | addIncludeAfterPattern (pattern : Pattern)
  | addExcludePattern (pattern : Pattern)
  | addIncludePattern (pattern : Pattern)

def PatternCall.apply (filter : Filter) : PatternCall → Filter
  | .addExcludeAfterPattern pattern => filter.addExcludeAfterPattern pattern
  | .addIncludeAfterPattern pattern => filter.addIncludeAfterPattern pattern
  | .addExcludePattern pattern => filter.addExcludePattern pattern
  | .addIncludePattern pattern => filter.addIncludePattern pattern

/-- The calls that set up a filter. -/
inductive ConfigCall where
  | add (call : PatternCall)
  | setPassThru
  | setBlackHole

def ConfigCall.apply (filter : Filter) : ConfigCall → Filter
  | .add call => call.apply filter
  | .setPassThru => filter.setPassThru
  | .setBlackHole => filter.setBlackHole

def Filter.extend (filter : Filter) (calls : List PatternCall) : Filter := calls.foldl PatternCall.apply filter

def Filter.configure (filter : Filter) (calls : List ConfigCall) : Filter := calls.foldl ConfigCall.apply filter

structure FilterWriter where
  currentLine : List UInt8
  filter : Filter

def newFilterWriter (filter : Filter) : FilterWriter := { currentLine := [], filter }

inductive FilterError (ε : Type) where
  | sink (err : ε)
  | unknownFilterType
deriving DecidableEq, Repr

def newline : UInt8 := 10

namespace FilterWriter

variable {σ ε : Type}

/-- The loop over the data; the size to report is that of the whole write. -/
def writeLines (sink : Writer σ ε) (size : Nat) :
    List UInt8 → FilterWriter → σ → (Nat × Option (FilterError ε)) × FilterWriter × σ
  | [], writer, output => ((size, none), writer, output)
  | byte :: rest, writer, output =>
    let buffer := writer.currentLine ++ [byte]
    if byte = newline then
      let (kept, filter, onward) := writer.filter.endLine writer.currentLine
      match if kept then sink.write buffer output else ((0, none), output) with
      | ((_, some err), output) => ((0, some (.sink err)), { writer with currentLine := [] }, output)
      | ((_, none), output) =>
        match onward with
        | .nextLine => writeLines sink size rest { currentLine := [], filter } output
        | .dropped => ((size, none), { currentLine := [], filter }, output)
        | .passed =>
          -- an error of the sink is not passed on here
          match sink.write rest output with
          | ((_, some _), output) => ((0, none), { currentLine := [], filter }, output)
          | ((_, none), output) => ((size, none), { currentLine := [], filter }, output)
    else writeLines sink size rest { writer with currentLine := buffer } output

def write (sink : Writer σ ε) (data : List UInt8) (writer : FilterWriter) (output : σ) :
    (Nat × Option (FilterError ε)) × FilterWriter × σ :=
  match writer.filter.filterType with
  | .blackHole => ((data.length, none), writer, output)
  | .passThru =>
    let ((count, err), output) := sink.write data output
    ((count, err.map .sink), writer, output)
  | .applyFilters => writeLines sink data.length data writer output
  | .undefined => ((0, some .unknownFilterType), writer, output)

/-- The line that was held back is written as it is; `Close` itself never fails. -/
def close (sink : Writer σ ε) (writer : FilterWriter) (output : σ) : FilterWriter × σ :=
  let closed := { writer with filter := { writer.filter with filterType := .undefined } }
  match writer.filter.state with
  | .stateInclude =>
    match sink.write writer.currentLine output with
    | ((_, some _), output) => (writer, output)
    | ((_, none), output) => (closed, output)
  | .stateExclude => (closed, output)

/-- One `Write` after the other, whatever they return. -/
def writeAll (sink : Writer σ ε) :
    List (List UInt8) → FilterWriter → σ → List (Nat × Option (FilterError ε)) × FilterWriter × σ
  | [], writer, output => ([], writer, output)
  | data :: writes, writer, output =>
    let (result, writer, output) := write sink data writer output
    let (results, writer, output) := writeAll sink writes writer output
    (result :: results, writer, output)

/-- A new writer over the filter is given the writes and closed. -/
def session (sink : Writer σ ε) (filter : Filter) (writes : List (List UInt8)) (output : σ) :
    List (Nat × Option (FilterError ε)) × FilterWriter × σ :=
  let (results, writer, output) := writeAll sink writes (newFilterWriter filter) output
  (results, close sink writer output)

end FilterWriter

end MycsCommon.Streams
