import Mathlib.Init

/-! The JSON stream parser, token by token. It keeps a path of keys and a stack of
unmarshallers, and tells from the type of the previous element what a token is. -/

namespace MycsCommon.Persistence

inductive ElementType where
  | unknown | object | array | key | value | arrayValue
deriving DecidableEq, Repr

/-- A `json.Token`, and a value handed to an unmarshaller. The token of null is nil,
as is the value that comes with an object or an array. -/
inductive Token where
  | delim (rune : Char)
  | string (text : String)
  | float64 (bits : UInt64)
  | bool (value : Bool)
  | nil
deriving DecidableEq, Repr

/-- An entry of the key path. The code keeps its text only; where the text came from
is ghost state. -/
inductive PathKey where
  | member (key : String)
  | position (index : Int)
deriving DecidableEq, Repr

def PathKey.text : PathKey → String
  | member key => key
  | position index => "@" ++ index.repr

/-- `strconv.Atoi`: the number it returns and whether it returned it without an error.
Go's `int` has no bound here: the arrays of a document have fewer than 2^63 elements. -/
structure Strconv where
  atoi : String → Int × Bool
  atoi_repr : ∀ number : Int, atoi number.repr = (number, true)

inductive ParseError (Error : Type) where
  | unrecognizedToken (rune : Char)
  | keyNotString
  | decoder
  | unmarshaller (error : Error)
deriving DecidableEq

inductive Fault (Error : Type) where
  | error (error : ParseError Error)
  -- an index out of range or a failed type assertion
  | panic
deriving DecidableEq

abbrev ParserM (State Error : Type) := EStateM (Fault Error) State

/-- The interface the parser drives. `unmarshal` returns the unmarshaller of the next
node and that of the current one; `finalize` returns its receiver, whose elements it
may have changed in place. -/
structure Unmarshaller (Node State Error : Type) where
  unmarshal : Node → (path : List PathKey) → (key : PathKey) → ElementType → Token → ParserM State Error (Node × Node)
  finalize : Node → (path : List PathKey) → (key : PathKey) → (node : Node) → ParserM State Error Node

variable {Node State Error : Type}

def typeFromToken (prevType : ElementType) (token : Token) : Except (ParseError Error) ElementType :=
  let scalar (isString : Bool) : Except (ParseError Error) ElementType :=
    match prevType with
    | .key => .ok .value
    | .value => .ok .key
    | .array => .ok .arrayValue
    | .arrayValue => .ok .arrayValue
    | _ => if isString then .ok .key else .error .keyNotString
  match token with
  | .delim rune =>
    if rune = '{' then .ok .object
    else if rune = '[' then .ok .array
    else if rune = '}' ∨ rune = ']' then .ok .unknown
    else .error (.unrecognizedToken rune)
  | .string _ => scalar true
  | .float64 _ => scalar false
  | .bool _ => scalar false
  | .nil => .ok .unknown

structure ParserState (Node : Type) where
  keyPath : List PathKey
  umStack : List Node
  prevType : ElementType
  lastArrayIndex : Int

/-- `keyPath[1:high]`. -/
def pathUpTo (keyPath : List PathKey) (high : Nat) : ParserM State Error (List PathKey) :=
  if 1 ≤ high then return (keyPath.take high).drop 1 else throw .panic

def pushKey (state : ParserState Node) : Token → ParserM State Error (ParserState Node)
  | .string text => return { state with keyPath := state.keyPath ++ [.member text], prevType := .key, lastArrayIndex := -1 }
  | _ => throw .panic

/-- The type and the array index a closed node leaves behind: one whose key starts with
an at sign counts as an array element. -/
def closedAs (strconv : Strconv) (key : PathKey) : ElementType × Int :=
  match key.text.toList with
  | '@' :: index => (.arrayValue, (strconv.atoi (String.ofList index)).1)
  | _ => (.unknown, -1)

def closeNode (strconv : Strconv) (um : Unmarshaller Node State Error) (state : ParserState Node) (lastKey : PathKey)
    (current : Node) : ParserM State Error (ParserState Node) := do
  let keyPath := state.keyPath.dropLast
  let umStack := state.umStack.dropLast
  let (prevType, lastArrayIndex) := closedAs strconv lastKey
  match umStack.getLast? with
  | none => return { keyPath, umStack, prevType, lastArrayIndex }
  | some parent =>
    let path ← pathUpTo keyPath keyPath.length
    let parent ← um.finalize parent path lastKey current
    return { keyPath, umStack := umStack.dropLast ++ [parent], prevType, lastArrayIndex }

/-- An object or array that has no key of its own gets its position for one. -/
def openNode (um : Unmarshaller Node State Error) (state : ParserState Node) (lastKey : PathKey) (current : Node)
    (currType : ElementType) : ParserM State Error (ParserState Node) := do
  let position := PathKey.position (state.lastArrayIndex + 1)
  let (keyPath, lastKey) :=
    if state.umStack.length = state.keyPath.length then (state.keyPath ++ [position], position) else (state.keyPath, lastKey)
  let path ← pathUpTo keyPath (keyPath.length - 1)
  let (next, current) ← um.unmarshal current path lastKey currType .nil
  return { keyPath, umStack := state.umStack.dropLast ++ [current] ++ [next], prevType := currType, lastArrayIndex := -1 }

def setMember (um : Unmarshaller Node State Error) (state : ParserState Node) (lastKey : PathKey) (current : Node)
    (token : Token) : ParserM State Error (ParserState Node) := do
  let path ← pathUpTo state.keyPath (state.keyPath.length - 1)
  let (_, current) ← um.unmarshal current path lastKey .value token
  return { keyPath := state.keyPath.dropLast, umStack := state.umStack.dropLast ++ [current], prevType := .value
           lastArrayIndex := -1 }

def addElement (um : Unmarshaller Node State Error) (state : ParserState Node) (current : Node) (token : Token) :
    ParserM State Error (ParserState Node) := do
  let index := state.lastArrayIndex + 1
  let (_, current) ← um.unmarshal current (state.keyPath.drop 1) (.position index) .arrayValue token
  return { state with umStack := state.umStack.dropLast ++ [current], prevType := .arrayValue, lastArrayIndex := index }

def handle (strconv : Strconv) (um : Unmarshaller Node State Error) (state : ParserState Node) (lastKey : PathKey)
    (current : Node) (token : Token) : ElementType → ParserM State Error (ParserState Node)
  | .key => pushKey state token
  | .unknown => closeNode strconv um state lastKey current
  | .object => openNode um state lastKey current .object
  | .array => openNode um state lastKey current .array
  | .value => setMember um state lastKey current token
  | .arrayValue => addElement um state current token

/-- One turn of the loop: the state after the token, and the node it was read for. -/
def step (strconv : Strconv) (um : Unmarshaller Node State Error) (state : ParserState Node) (token : Token) :
    ParserM State Error (ParserState Node × Node) :=
  match state.keyPath.getLast?, state.umStack.getLast? with
  | some lastKey, some current =>
    match typeFromToken state.prevType token with
    | .error error => throw (.error error)
    | .ok currType => do
      let next ← handle strconv um state lastKey current token currType
      return (next, current)
  | _, _ => throw .panic

/-- How the tokens end. -/
inductive Ending where
  | eof | broken
deriving DecidableEq

/-- The loop; at the end of the input it returns the node of the last token, nil before the first. -/
def parseLoop (strconv : Strconv) (um : Unmarshaller Node State Error) :
    ParserState Node → Option Node → List Token → Ending → ParserM State Error (Option Node)
  | _, current, [], .eof => return current
  | _, _, [], .broken => throw (.error .decoder)
  | state, _, token :: tokens, ending => do
    let (state, current) ← step strconv um state token
    parseLoop strconv um state (some current) tokens ending

def parse (strconv : Strconv) (um : Unmarshaller Node State Error) (root : Node) (tokens : List Token) (ending : Ending) :
    ParserM State Error (Option Node) :=
  match tokens, ending with
  | [], .eof => return some root
  | [], .broken => throw (.error .decoder)
  | token :: tokens, ending =>
    match typeFromToken .unknown token with
    | .error error => throw (.error error)
    | .ok prevType => parseLoop strconv um ⟨[.member ""], [root], prevType, -1⟩ none tokens ending

end MycsCommon.Persistence
