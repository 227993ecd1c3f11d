import Mathlib.Data.Int.Order.Basic
import Mathlib.Algebra.Group.Int.Defs
import Mathlib.Algebra.Group.Nat.Defs

/-! `SplitString` and `FormatMultilineString` of utils/strings.go. The loop need not end, so it
is run for a number of turns. An index outside of a string is a panic. -/

namespace MycsCommon.Utils

abbrev Line := List UInt8

def isWhitespace (ch : UInt8) : Bool := ch == 32 || ch == 9 || ch == 13 || ch == 10

/-- The loops that move `splitAt` back, over bytes of one kind, to 0 at the least. -/
def scanBack (line : Line) (skip : UInt8 → Bool) : Nat → Option Nat
  | 0 => (line)[0]?.map fun _ => 0
  | splitAt + 1 => (line)[splitAt + 1]?.bind fun ch => if skip ch then scanBack line skip splitAt else some (splitAt + 1)

/-- The loop that moves `nextAt` forward over whitespace, to the end of the line at the most. -/
def scanForward (line : Line) (nextAt : Nat) : Option Nat :=
  if nextAt + 1 = line.length then some (nextAt + 1)
  else
    match here : (line)[nextAt + 1]? with
    | none => none
    | some ch => if isWhitespace ch then scanForward line (nextAt + 1) else some (nextAt + 1)
termination_by line.length - nextAt
decreasing_by
  have := (List.getElem?_eq_some_iff.mp here).1
  omega

/-- The slices `line[:at]` and `line[at:]`. -/
def sliceTo (line : Line) (stop : Int) : Option Line :=
  if 0 ≤ stop ∧ stop ≤ line.length then some (line.take stop.toNat) else none

def sliceFrom (line : Line) (start : Int) : Option Line :=
  if 0 ≤ start ∧ start ≤ line.length then some (line.drop start.toNat) else none

/-- The lines before the last one, `lines[lastLine]`, and `testWidth`. -/
structure Splitting where
  lines : List Line := []
  currentLine : Line
  testWidth : Int
deriving DecidableEq, Repr

namespace Splitting

def going (state : Splitting) : Bool := state.testWidth < state.currentLine.length

/-- The line goes on with what is behind the break, or the break has nothing behind it. -/
def breakOut (state : Splitting) (width : Int) (line : Line) (nextAt : Nat) : Option Splitting :=
  if nextAt < state.currentLine.length then do
    let next ← sliceFrom state.currentLine nextAt
    some { lines := state.lines ++ [line], currentLine := next, testWidth := width }
  else some { state with currentLine := line, testWidth := width }

/-- One turn of the loop. -/
def turn (width : Int) (state : Splitting) : Option Splitting := do
  let line := state.currentLine
  if state.testWidth < 0 then none
  else
    let splitAt ← scanBack line (fun ch => !isWhitespace ch) state.testWidth.toNat
    if 0 < splitAt then
      let nextAt ← scanForward line splitAt
      let splitAt ← scanBack line isWhitespace splitAt
      if splitAt = 0 then
        -- taken for a line of whitespace
        if nextAt < line.length then do
          let next ← sliceFrom line nextAt
          some { state with currentLine := next, testWidth := width }
        else some { state with testWidth := width }
      else
        let line ← sliceTo line (splitAt + 1)
        state.breakOut width line nextAt
    else
      let next ← sliceFrom line width
      let line ← sliceTo line width
      some { lines := state.lines ++ [line], currentLine := next, testWidth := width }

end Splitting

inductive SplitOutcome where
  | running (state : Splitting)
  | returned (lines : List Line)
  | panicked
deriving DecidableEq, Repr

/-- The loop, for at most so many turns. -/
def splitLoop (width : Int) : Nat → Splitting → SplitOutcome
  | 0, state => .running state
  | turns + 1, state =>
    if state.going then
      match state.turn width with
      | none => .panicked
      | some next => splitLoop width turns next
    else .returned (state.lines ++ [state.currentLine])

/-- The sum of the width and the indent may overflow. -/
def splitStart (input : Line) (indent width : Int64) : Splitting :=
  { currentLine := input, testWidth := (if 0 < indent then width + indent else width).toInt }

def splitString (input : Line) (indent width : Int64) (turns : Nat) : SplitOutcome :=
  splitLoop width.toInt turns (splitStart input indent width)

/-- The lines with the indents and the newlines between them. -/
def joinLines (indent : Int64) (padFirstIndent : Bool) : Bool → List Line → Line
  | _, [] => []
  | first, line :: lines =>
    (if 0 < indent ∧ (padFirstIndent || !first) then List.replicate indent.toInt.toNat 32 else []) ++ line ++
      (if lines.isEmpty then [] else [10]) ++ joinLines indent padFirstIndent false lines

/-- The indent and the width that `FormatMultilineString` splits with. -/
def splitArguments (indent width : Int64) (padFirstIndent splitEven : Bool) : Int64 × Int64 :=
  if padFirstIndent || splitEven then (0, width) else (indent, width - indent)

/-- The text, and whether it has several lines, once the lines are there. -/
def formatMultilineString (input : Line) (indent width : Int64) (padFirstIndent splitEven : Bool) (turns : Nat) :
    Option (Line × Bool) :=
  let (splitIndent, splitWidth) := splitArguments indent width padFirstIndent splitEven
  match splitString input splitIndent splitWidth turns with
  | .returned lines => some (joinLines indent padFirstIndent true lines, 1 < lines.length)
  | _ => none

end MycsCommon.Utils
