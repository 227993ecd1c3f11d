import Mathlib.Data.List.AList
import MycsCommon.Persistence.JsonStreamParser

/-! The package's own unmarshallers. A `Map` is a reference to a Go map; an `Array` is
a value, so that a copy of it in its parent goes stale as it grows. -/

namespace MycsCommon.Persistence

inductive Value where
  | scalar (token : Token)
  | map (ref : Nat)
  | array (elements : List Value)

abbrev GoMap := AList (fun _ : String => Value)

/-- The Go maps by their references. -/
abbrev Heap := List GoMap

inductive Container where
  | map (ref : Nat)
  | array (elements : List Value)

def Container.value : Container → Value
  | map ref => .map ref
  | array elements => .array elements

inductive ContainerError where
  | invalidMapType (elemType : ElementType)
  | invalidArrayType (elemType : ElementType)
  | nonExistentKey (key : String)
  | invalidIndex (key : String)
deriving DecidableEq

abbrev ContainerM := ParserM Heap ContainerError

def refuse {α : Type} (error : ContainerError) : ContainerM α := throw (.error (.unmarshaller error))

def newMap : ContainerM Nat := modifyGet fun heap => (heap.length, heap ++ [∅])

def newArray : List Value := []

/-- `m[key] = value`. -/
def setKey (ref : Nat) (key : String) (value : Value) : ContainerM Unit :=
  modify fun heap => heap.modify ref (·.insert key value)

def mapUnmarshal (ref : Nat) (key : PathKey) (elemType : ElementType) (value : Token) : ContainerM (Container × Container) :=
  match elemType with
  | .object => do
    let child ← newMap
    setKey ref key.text (.map child)
    return (.map child, .map ref)
  | .array => do
    setKey ref key.text (.array newArray)
    return (.array newArray, .map ref)
  | .value => do
    setKey ref key.text (.scalar value)
    return (.map ref, .map ref)
  | elemType => refuse (.invalidMapType elemType)

def mapFinalize (ref : Nat) (key : PathKey) (node : Container) : ContainerM Container := do
  match node with
  | .array elements =>
    if (((← get).getD ref ∅).lookup key.text).isNone then refuse (.nonExistentKey key.text)
    setKey ref key.text (.array elements)
    return .map ref
  | .map _ => return .map ref

def arrayUnmarshal (elements : List Value) (elemType : ElementType) (value : Token) : ContainerM (Container × Container) :=
  match elemType with
  | .object => do
    let child ← newMap
    return (.map child, .array (elements ++ [.map child]))
  | .array => return (.array newArray, .array (elements ++ [.array newArray]))
  | .value => return (.array elements, .array (elements ++ [.scalar value]))
  | .arrayValue => return (.array elements, .array (elements ++ [.scalar value]))
  | elemType => refuse (.invalidArrayType elemType)

/-- The element is replaced in the elements the receiver shares with its caller. -/
def arrayFinalize (strconv : Strconv) (elements : List Value) (key : PathKey) (node : Container) : ContainerM Container :=
  match node with
  | .array child =>
    match key.text.toList with
    | [] => throw .panic
    | first :: index =>
      -- `key[1:]` cuts a byte off; of a longer character it leaves bytes that are no digits
      let (arrayIndex, valid) := if first.val < 128 then strconv.atoi (String.ofList index) else (0, false)
      if !valid then refuse (.invalidIndex key.text)
      else if 0 ≤ arrayIndex ∧ arrayIndex < elements.length then
        return .array (elements.set arrayIndex.toNat (.array child))
      else throw .panic
  | .map _ => return .array elements

def containers (strconv : Strconv) : Unmarshaller Container Heap ContainerError where
  unmarshal receiver _ key elemType value :=
    match receiver with
    | .map ref => mapUnmarshal ref key elemType value
    | .array elements => arrayUnmarshal elements elemType value
  finalize receiver _ key node :=
    match receiver with
    | .map ref => mapFinalize ref key node
    | .array elements => arrayFinalize strconv elements key node

end MycsCommon.Persistence
