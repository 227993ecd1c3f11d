import MycsCommon.Library.Program
import MycsCommon.Proofs.StreamNulls

/-! Input that ends early. The loop does not look at its stacks when the input ends, so it only
returns errors of the unmarshaller and, behind a null, of a value that is taken for a key. -/

namespace MycsCommon.Persistence
open Library Program List Json Token

variable {Node State Error Value : Type} {strconv : Strconv} {um : Unmarshaller Node State Error} {parser : ParserState Node}
  {token : Token} {tokens : List Token} {state : State}

/-- A call, with a note of whether one has returned an error. -/
def noted (call : ParserM State Error Value) : ParserM (State × Bool) Error Value := fun (state, failed) =>
  match call.run state with
  | .ok value after => .ok value (after, failed)
  | .error (.error error) after => .error (.error error) (after, true)
  | .error .panic after => .error .panic (after, failed)

def noting (um : Unmarshaller Node State Error) : Unmarshaller Node (State × Bool) Error where
  unmarshal node path key elemType value := noted (um.unmarshal node path key elemType value)
  finalize node path key child := noted (um.finalize node path key child)

/-- The unmarshaller returns an error from one of the calls that are made for the tokens. -/
def Refused (strconv : Strconv) (um : Unmarshaller Node State Error) (root : Node) (tokens : List Token) (state : State) : Prop :=
  (final ((parse strconv (noting um) root tokens .eof).run (state, false))).2 = true

def Token.isNumberOrBool : Token → Bool
  | float64 _ => true
  | bool _ => true
  | _ => false

/-- A number or a boolean comes where the loop looks for a key. -/
structure ParserState.Misplaces (parser : ParserState Node) (token : Token) : Prop where
  path : parser.keyPath ≠ []
  stack : parser.umStack ≠ []
  expects : parser.prevType = .object ∨ parser.prevType = .unknown
  given : token.isNumberOrBool = true

/-- The loop comes to such a token. -/
def Misplaced (strconv : Strconv) (um : Unmarshaller Node State Error) (parser : ParserState Node) (tokens : List Token)
    (state : State) : Prop :=
  ∃ before token after reached middle, tokens = before ++ token :: after ∧
    (advance strconv um parser before).run state = .ok reached middle ∧ reached.Misplaces token

def Json.elemType : Json → ElementType
  | scalar _ => .unknown
  | object _ => .object
  | array _ => .array

/-! Notes. -/

@[simp] theorem noting_unmarshal (node : Node) (path : List PathKey) (key : PathKey) (elemType : ElementType) (value : Token) :
    (noting um).unmarshal node path key elemType value = noted (um.unmarshal node path key elemType value) := rfl

@[simp] theorem noting_finalize (node : Node) (path : List PathKey) (key : PathKey) (child : Node) :
    (noting um).finalize node path key child = noted (um.finalize node path key child) := rfl

@[simp] theorem noted_pure (value : Value) : noted (pure value : ParserM State Error Value) = pure value := rfl

@[simp] theorem noted_bind {Result : Type} (program : ParserM State Error Value) (rest : Value → ParserM State Error Result) :
    noted (program >>= rest) = noted program >>= fun value => noted (rest value) := by
  funext ⟨state, failed⟩
  simp only [noted, EStateM.run, bind, EStateM.bind]
  cases program state with
  | ok => rfl
  | error fault => cases fault <;> rfl

@[simp] theorem noted_map {Result : Type} (change : Value → Result) (program : ParserM State Error Value) :
    noted (change <$> program) = change <$> noted program := by
  simp only [map_eq_pure_bind, noted_bind, noted_pure]

@[simp] theorem noted_pathUpTo (keyPath : List PathKey) (high : Nat) :
    noted (pathUpTo keyPath high : ParserM State Error _) = pathUpTo keyPath high := by
  unfold pathUpTo
  split <;> rfl

mutual

theorem visit_noting (value : Json) (node : Node) (path : List PathKey) (key : PathKey) :
    value.visit strconv (noting um) node path key = noted (value.visit strconv um node path key) := by
  match value with
  | .scalar value => simp [visit]
  | .object members => simp [visit, visitMembers_noting members]
  | .array elements => simp [visit, visitElements_noting elements]

theorem visitMembers_noting (members : List (String × Json)) (node : Node) (path : List PathKey) (mode : Option Int) :
    visitMembers strconv (noting um) node path mode members = noted (visitMembers strconv um node path mode members) := by
  match mode, members with
  | mode, [] => simp [visitMembers]
  | none, (key, value) :: members => simp [visitMembers, visit_noting value, visitMembers_noting members]
  | some index, (key, value) :: members => simp [visitMembers, visit_noting value, visitMembers_noting members]

theorem visitElements_noting (elements : List Json) (node : Node) (path : List PathKey) (index : Int) :
    visitElements strconv (noting um) node path index elements = noted (visitElements strconv um node path index elements) := by
  match elements with
  | [] => simp [visitElements]
  | value :: elements => simp [visitElements, visit_noting value, visitElements_noting elements]

end

/-! The tokens of a document. -/

def Token.Proper (token : Token) : Prop := ∀ rune, token = .delim rune → rune ∈ ['{', '}', '[', ']']

mutual

theorem tokens_proper (value : Json) : ∀ token ∈ value.tokens, token.Proper := by
  match value with
  | .scalar value => cases value <;> simp [Json.tokens, Scalar.token, Proper]
  | .object members => simpa [Json.tokens, Proper, or_imp, forall_and] using membersTokens_proper members
  | .array elements => simpa [Json.tokens, Proper, or_imp, forall_and] using elementsTokens_proper elements

theorem membersTokens_proper (members : List (String × Json)) : ∀ token ∈ membersTokens members, token.Proper := by
  match members with
  | [] => simp [membersTokens]
  | (key, value) :: members =>
    simpa [membersTokens, Proper, or_imp, forall_and] using And.intro (tokens_proper value) (membersTokens_proper members)

theorem elementsTokens_proper (elements : List Json) : ∀ token ∈ elementsTokens elements, token.Proper := by
  match elements with
  | [] => simp [elementsTokens]
  | value :: elements =>
    simpa [elementsTokens, or_imp, forall_and] using And.intro (tokens_proper value) (elementsTokens_proper elements)

end

/-- What stands for a token once the nulls are filled in with the empty text. -/
def Token.filled (token : Token) : Token := if token = .nil then .string "" else token

mutual

theorem tokens_fill (value : Json) : (value.fill (.string "")).tokens = value.tokens.map Token.filled := by
  match value with
  | .scalar value => cases value <;> simp [fill, Json.tokens, Scalar.token, filled]
  | .object members => simp [fill, Json.tokens, membersTokens_fill members, filled]
  | .array elements => simp [fill, Json.tokens, elementsTokens_fill elements, filled]

theorem membersTokens_fill (members : List (String × Json)) :
    membersTokens (fillMembers (.string "") members) = (membersTokens members).map Token.filled := by
  match members with
  | [] => rfl
  | (key, value) :: members => simp [fillMembers, membersTokens, tokens_fill value, membersTokens_fill members, filled]

theorem elementsTokens_fill (elements : List Json) :
    elementsTokens (fillElements (.string "") elements) = (elementsTokens elements).map Token.filled := by
  match elements with
  | [] => rfl
  | value :: elements => simp [fillElements, elementsTokens, tokens_fill value, elementsTokens_fill elements]

end

mutual

theorem nullFree_fill (value : Json) : (value.fill (.string "")).NullFree := by
  match value with
  | .scalar value => cases value <;> simp [fill, NullFree]
  | .object members => exact membersNullFree_fill members
  | .array elements => exact elementsNullFree_fill elements

theorem membersNullFree_fill (members : List (String × Json)) : MembersNullFree (fillMembers (.string "") members) := by
  match members with
  | [] => trivial
  | (key, value) :: members => exact ⟨nullFree_fill value, membersNullFree_fill members⟩

theorem elementsNullFree_fill (elements : List Json) : ElementsNullFree (fillElements (.string "") elements) := by
  match elements with
  | [] => trivial
  | value :: elements => exact ⟨nullFree_fill value, elementsNullFree_fill elements⟩

end

/-! The loop. -/

theorem Misplaced.append (misplaced : Misplaced strconv um parser tokens state) (more : List Token) :
    Misplaced strconv um parser (tokens ++ more) state := by
  obtain ⟨before, token, after, reached, middle, rfl, ran, misplaces⟩ := misplaced
  exact ⟨before, token, after ++ more, reached, middle, by simp, ran, misplaces⟩

end MycsCommon.Persistence
