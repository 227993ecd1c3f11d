import MycsCommon.Library.Program
import MycsCommon.Library.Text
import MycsCommon.Proofs.StreamReading

/-! The calls a recording unmarshaller sees, against the traversal of the document. -/

namespace MycsCommon.Persistence
open Library Program Json

inductive Event (Key : Type) where
  | unmarshal (path : List Key) (key : Key) (elemType : ElementType) (value : Token)
  | finalize (path : List Key) (key : Key) (node : Option Nat)
deriving DecidableEq

/-- A call and the node it was made on: the root, or the node an earlier call returned. -/
structure Call (Key : Type) where
  receiver : Option Nat
  event : Event Key
deriving DecidableEq

/-- An unmarshaller that accepts and records every call. -/
def recorder : Unmarshaller (Option Nat) (List (Call PathKey)) Empty where
  unmarshal receiver path key elemType value := do
    let made := (← get).length
    modify (· ++ [⟨receiver, .unmarshal path key elemType value⟩])
    return (if elemType = .object ∨ elemType = .array then some made else receiver, receiver)
  finalize receiver path key node := do
    modify (· ++ [⟨receiver, .finalize path key node⟩])
    return receiver

/-- The calls of a parse, whichever way it ends. -/
def recorded (strconv : Strconv) (tokens : List Token) : List (Call PathKey) :=
  final ((parse strconv recorder none tokens .eof).run [])

namespace Json

mutual

/-- The traversal of a child, when so many calls have been made. -/
def traverse (receiver : Option Nat) (path : List PathKey) (key : PathKey) (made : Nat) : Json → List (Call PathKey)
  | scalar value => [⟨receiver, .unmarshal path key key.scalarType value.token⟩]
  | object members =>
    ⟨receiver, .unmarshal path key .object .nil⟩ ::
      (traverseMembers (some made) (path ++ [key]) (made + 1) members ++ [⟨receiver, .finalize path key (some made)⟩])
  | array elements =>
    ⟨receiver, .unmarshal path key .array .nil⟩ ::
      (traverseElements (some made) (path ++ [key]) (made + 1) 0 elements ++ [⟨receiver, .finalize path key (some made)⟩])

def traverseMembers (receiver : Option Nat) (path : List PathKey) (made : Nat) : List (String × Json) → List (Call PathKey)
  | [] => []
  | (key, value) :: members =>
    let calls := traverse receiver path (.member key) made value
    calls ++ traverseMembers receiver path (made + calls.length) members

def traverseElements (receiver : Option Nat) (path : List PathKey) (made : Nat) : Nat → List Json → List (Call PathKey)
  | _, [] => []
  | index, value :: elements =>
    let calls := traverse receiver path (.position index) made value
    calls ++ traverseElements receiver path (made + calls.length) (index + 1) elements

end

/-- The traversal of a document from its root, which nothing is called for. -/
def traversal : Json → List (Call PathKey)
  | scalar _ => []
  | object members => traverseMembers none [] 0 members
  | array elements => traverseElements none [] 0 0 elements

mutual

/-- The calls for a child as the parser makes them. -/
def heard (strconv : Strconv) (receiver : Option Nat) (path : List PathKey) (key : PathKey) (made : Nat) :
    Json → List (Call PathKey)
  | scalar value => [⟨receiver, .unmarshal path key key.scalarType value.token⟩]
  | object members =>
    ⟨receiver, .unmarshal path key .object .nil⟩ ::
      (heardMembers strconv (some made) (path ++ [key]) (made + 1) none members ++ [⟨receiver, .finalize path key (some made)⟩])
  | array elements =>
    ⟨receiver, .unmarshal path key .array .nil⟩ ::
      (heardElements strconv (some made) (path ++ [key]) (made + 1) 0 elements ++ [⟨receiver, .finalize path key (some made)⟩])

def heardMembers (strconv : Strconv) (receiver : Option Nat) (path : List PathKey) (made : Nat) :
    Option Int → List (String × Json) → List (Call PathKey)
  | _, [] => []
  | none, (key, value) :: members =>
    let calls := heard strconv receiver path (.member key) made value
    calls ++ heardMembers strconv receiver path (made + calls.length) (misread strconv key value) members
  | some index, (key, value) :: members =>
    let calls := heard strconv receiver path (.position (index + 1 + 1)) (made + 1) value
    ⟨receiver, .unmarshal path (.position (index + 1)) .arrayValue (.string key)⟩ ::
      (calls ++ heardMembers strconv receiver path (made + 1 + calls.length) (some (index + 1 + 1)) members)

def heardElements (strconv : Strconv) (receiver : Option Nat) (path : List PathKey) (made : Nat) :
    Int → List Json → List (Call PathKey)
  | _, [] => []
  | index, value :: elements =>
    let calls := heard strconv receiver path (.position index) made value
    calls ++ heardElements strconv receiver path (made + calls.length) (index + 1) elements

end

def heardRoot (strconv : Strconv) : Json → List (Call PathKey)
  | scalar _ => []
  | object members => heardMembers strconv none [] 0 none members
  | array elements => heardElements strconv none [] 0 0 elements

end Json

variable {strconv : Strconv}

theorem unmarshal_run (receiver : Option Nat) (path : List PathKey) (key : PathKey) (elemType : ElementType) (value : Token)
    (log : List (Call PathKey)) : (recorder.unmarshal receiver path key elemType value).run log =
      .ok (if elemType = .object ∨ elemType = .array then some log.length else receiver, receiver)
        (log ++ [⟨receiver, .unmarshal path key elemType value⟩]) := rfl

theorem finalize_run (receiver : Option Nat) (path : List PathKey) (key : PathKey) (node : Option Nat)
    (log : List (Call PathKey)) : (recorder.finalize receiver path key node).run log =
      .ok receiver (log ++ [⟨receiver, .finalize path key node⟩]) := rfl

mutual

theorem visit_run (value : Json) (receiver : Option Nat) (path : List PathKey) (key : PathKey) (log : List (Call PathKey)) :
    (value.visit strconv recorder receiver path key).run log =
      .ok receiver (log ++ value.heard strconv receiver path key log.length) := by
  match value with
  | .scalar value =>
    cases key <;> rfl
  | .object members =>
    simp [visit, heard, unmarshal_run, finalize_run, visitMembers_run members]
  | .array elements =>
    simp [visit, heard, unmarshal_run, finalize_run, visitElements_run elements]

theorem visitMembers_run (members : List (String × Json)) (receiver : Option Nat) (path : List PathKey) (mode : Option Int)
    (log : List (Call PathKey)) : (visitMembers strconv recorder receiver path mode members).run log =
      .ok receiver (log ++ heardMembers strconv receiver path log.length mode members) := by
  match mode, members with
  | mode, [] => simp [visitMembers, heardMembers]
  | none, (key, value) :: members =>
    simp [visitMembers, heardMembers, visit_run value, visitMembers_run members]
  | some index, (key, value) :: members =>
    simp [visitMembers, heardMembers, unmarshal_run, visit_run value, visitMembers_run members, Nat.add_assoc,
      Nat.add_comm 1]

theorem visitElements_run (elements : List Json) (receiver : Option Nat) (path : List PathKey) (index : Int)
    (log : List (Call PathKey)) : (visitElements strconv recorder receiver path index elements).run log =
      .ok receiver (log ++ heardElements strconv receiver path log.length index elements) := by
  match elements with
  | [] => simp [visitElements, heardElements]
  | value :: elements =>
    simp [visitElements, heardElements, visit_run value, visitElements_run elements]

end

theorem parse_run {document : Json} (container : document.isContainer = true) (nullFree : document.NullFree) :
    (parse strconv recorder none document.tokens .eof).run [] = .ok (some none) (document.heardRoot strconv) := by
  rw [parse_document container nullFree]
  cases document with
  | scalar => cases container
  | object members =>
    rw [visitRoot, map_run, visitMembers_run]
    rfl
  | array elements =>
    rw [visitRoot, map_run, visitElements_run]
    rfl

mutual

theorem heard_unsigned (value : Json) (unsigned : value.Unsigned) (receiver : Option Nat) (path : List PathKey) (key : PathKey)
    (made : Nat) : value.heard strconv receiver path key made = value.traverse receiver path key made := by
  match value with
  | .scalar value => rfl
  | .object members => simp only [heard, Json.traverse, heardMembers_unsigned members unsigned]
  | .array elements =>
    simp only [heard, Json.traverse]
    rw [← heardElements_unsigned elements unsigned]
    rfl

theorem heardMembers_unsigned (members : List (String × Json)) (unsigned : MembersUnsigned members) (receiver : Option Nat)
    (path : List PathKey) (made : Nat) :
    heardMembers strconv receiver path made none members = traverseMembers receiver path made members := by
  match members with
  | [] => rfl
  | (key, value) :: members =>
    obtain ⟨plain, first, rest⟩ := unsigned
    simp [heardMembers, traverseMembers, heard_unsigned value first, misread_unsigned plain, heardMembers_unsigned members rest]

theorem heardElements_unsigned (elements : List Json) (unsigned : ElementsUnsigned elements) (receiver : Option Nat)
    (path : List PathKey) (made index : Nat) :
    heardElements strconv receiver path made index elements = traverseElements receiver path made index elements := by
  match elements with
  | [] => rfl
  | value :: elements =>
    simp only [heardElements, traverseElements, heard_unsigned value unsigned.1]
    rw [← heardElements_unsigned elements unsigned.2]
    rfl

end

/-- The parser makes the calls of the document's traversal, in order, and returns the root. -/
theorem parse_traverses {document : Json} (container : document.isContainer = true) (nullFree : document.NullFree)
    (unsigned : document.Unsigned) :
    (parse strconv recorder none document.tokens .eof).run [] = .ok (some none) document.traversal := by
  rw [parse_run container nullFree]
  congr 1
  cases document with
  | scalar => cases container
  | object members => exact heardMembers_unsigned members unsigned none [] 0
  | array elements => exact heardElements_unsigned elements unsigned none [] 0 0

def readDigits (digits : List Char) : Nat × Bool :=
  if digits ≠ [] ∧ digits.all Char.isDigit then (Nat.ofDigitChars 10 digits 0, true) else (0, false)

def readInt : List Char → Int × Bool
  | '-' :: digits => (-(readDigits digits).1, (readDigits digits).2)
  | '+' :: digits => ((readDigits digits).1, (readDigits digits).2)
  | digits => ((readDigits digits).1, (readDigits digits).2)

theorem readDigits_repr (number : Nat) : readDigits number.repr.toList = (number, true) := by
  have digits : number.repr.toList ≠ [] ∧ number.repr.toList.all Char.isDigit = true :=
    ⟨Text.repr_ne_nil number, List.all_eq_true.mpr fun _ => Text.repr_isDigit⟩
  rw [readDigits, if_pos digits, Nat.toList_repr, Nat.ofDigitChars_toDigits (by decide) (by decide)]

theorem readInt_repr (number : Int) : readInt number.repr.toList = (number, true) := by
  cases number with
  | ofNat number =>
    have unsigned : readInt number.repr.toList = (((readDigits number.repr.toList).1 : Int), (readDigits number.repr.toList).2) := by
      cases chars : number.repr.toList with
      | nil => exact absurd chars (Text.repr_ne_nil number)
      | cons first rest =>
        have digit := @Text.repr_isDigit number first (by simp [chars])
        unfold readInt
        split
        next same => cases same; simp at digit
        next same => cases same; simp at digit
        next => rfl
    refine unsigned.trans ?_
    rw [readDigits_repr]
    rfl
  | negSucc number =>
    have signed : (Int.negSucc number).repr.toList = '-' :: (number + 1).repr.toList := by
      rw [show (Int.negSucc number).repr = "-" ++ (number + 1).repr from rfl, String.toList_append]
      rfl
    rw [signed, readInt, readDigits_repr]
    simp [Int.negSucc_eq]

def decimal : Strconv where
  atoi text := readInt text.toList
  atoi_repr := readInt_repr

def sampleDocument : Json :=
  .object [("a", .array [.scalar (.bool true), .array []]), ("b", .object [("c", .scalar (.string "d"))])]

theorem parse_traverses_sample :
    (parse decimal recorder none sampleDocument.tokens .eof).run [] = .ok (some none)
      [⟨none, .unmarshal [] (.member "a") .array .nil⟩,
        ⟨some 0, .unmarshal [.member "a"] (.position 0) .arrayValue (.bool true)⟩,
        ⟨some 0, .unmarshal [.member "a"] (.position 1) .array .nil⟩,
        ⟨some 0, .finalize [.member "a"] (.position 1) (some 2)⟩,
        ⟨none, .finalize [] (.member "a") (some 0)⟩,
        ⟨none, .unmarshal [] (.member "b") .object .nil⟩,
        ⟨some 5, .unmarshal [.member "b"] (.member "c") .value (.string "d")⟩,
        ⟨none, .finalize [] (.member "b") (some 5)⟩] :=
  parse_traverses rfl (by simp [sampleDocument, NullFree, MembersNullFree, ElementsNullFree])
    (by simp [sampleDocument, Unsigned, MembersUnsigned, ElementsUnsigned, atSigned])

end MycsCommon.Persistence
