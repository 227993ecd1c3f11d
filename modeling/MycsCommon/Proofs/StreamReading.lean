import MycsCommon.Persistence.Document

/-! What the loop does with the tokens of a document. Between two children of a node
the path and the stack are as long as each other, and the previous type says whether
the node is read as an object or as an array. A member that holds a container and
whose key starts with an at sign turns the rest of its object into an array. -/

namespace MycsCommon.Persistence
open List Json PathKey

variable {Node State Error : Type} {strconv : Strconv} {um : Unmarshaller Node State Error}

/-- A scalar is a value under a key and an array value at a position. -/
def PathKey.scalarType : PathKey → ElementType
  | member _ => .value
  | position _ => .arrayValue

/-- The index the rest of an object is read on from, as an array, behind this member. -/
def misread (strconv : Strconv) (key : String) (value : Json) : Option Int :=
  if value.isContainer ∧ atSigned key then some (closedAs strconv (.member key)).2 else none

theorem misread_unsigned {key} (unsigned : atSigned key = false) (value : Json) : misread strconv key value = none := by
  simp [misread, unsigned]

namespace Json

mutual

/-- The calls for one child of a node; returns the node. -/
def visit (strconv : Strconv) (um : Unmarshaller Node State Error) (node : Node) (path : List PathKey) (key : PathKey) :
    Json → ParserM State Error Node
  | scalar value => do
    let (_, node) ← um.unmarshal node path key key.scalarType value.token
    return node
  | object members => do
    let (child, node) ← um.unmarshal node path key .object .nil
    let child ← visitMembers strconv um child (path ++ [key]) none members
    um.finalize node path key child
  | array elements => do
    let (child, node) ← um.unmarshal node path key .array .nil
    let child ← visitElements strconv um child (path ++ [key]) 0 elements
    um.finalize node path key child

/-- The calls for the members of an object, of which the rest may be read as an array
that goes on behind an index. -/
def visitMembers (strconv : Strconv) (um : Unmarshaller Node State Error) (node : Node) (path : List PathKey) :
    Option Int → List (String × Json) → ParserM State Error Node
  | _, [] => return node
  | none, (key, value) :: members => do
    let node ← visit strconv um node path (.member key) value
    visitMembers strconv um node path (misread strconv key value) members
  | some index, (key, value) :: members => do
    let (_, node) ← um.unmarshal node path (.position (index + 1)) .arrayValue (.string key)
    let node ← visit strconv um node path (.position (index + 1 + 1)) value
    visitMembers strconv um node path (some (index + 1 + 1)) members

def visitElements (strconv : Strconv) (um : Unmarshaller Node State Error) (node : Node) (path : List PathKey) :
    Int → List Json → ParserM State Error Node
  | _, [] => return node
  | index, value :: elements => do
    let node ← visit strconv um node path (.position index) value
    visitElements strconv um node path (index + 1) elements

end

end Json

/-! Single tokens. -/

/-- Between two children of the node at a path, with the previous type and array index. -/
def between (path : List PathKey) (below : List Node) (node : Node) (last : ElementType × Int) : ParserState Node :=
  ⟨.member "" :: path, below ++ [node], last.1, last.2⟩

/-- The state once the key of a member has been read. -/
def keyed (path : List PathKey) (below : List Node) (node : Node) (text : String) : ParserState Node :=
  ⟨.member "" :: (path ++ [.member text]), below ++ [node], .key, -1⟩

/-- Before the child with a key: the key has been read, or the position comes next. -/
inductive Ready (path : List PathKey) (below : List Node) (node : Node) : PathKey → ParserState Node → Prop where
  | member (key : String) : Ready path below node (.member key) (keyed path below node key)
  | position {prevType : ElementType} (index : Int) (array : prevType = .array ∨ prevType = .arrayValue) :
      Ready path below node (.position (index + 1)) (between path below node (prevType, index))

/-- What a child leaves behind as the previous type and array index. -/
def left (strconv : Strconv) (key : PathKey) (value : Json) : ElementType × Int :=
  if value.isContainer then closedAs strconv key
  else match key with
    | .member _ => (.value, -1)
    | .position index => (.arrayValue, index)

variable {path : List PathKey} {below : List Node} {node parent : Node} {last : ElementType × Int} {key : PathKey}
  {state : ParserState Node}

@[simp] theorem closedAs_position (index : Int) : closedAs strconv (.position index) = (.arrayValue, index) := by
  have text : (position index).text.toList = '@' :: index.repr.toList := by
    rw [text, String.toList_append]
    rfl
  simp only [closedAs, text, String.ofList_toList, strconv.atoi_repr]

@[simp] theorem pathUpTo_concat (path : List PathKey) (key : PathKey) :
    (pathUpTo (.member "" :: (path ++ [key])) (path.length + 1) : ParserM State Error _) = pure path := by
  simp [pathUpTo]

@[simp] theorem pathUpTo_all (path : List PathKey) :
    (pathUpTo (.member "" :: path) (path.length + 1) : ParserM State Error _) = pure path := by
  simp [pathUpTo]

theorem step_key (text : String) (object : last.1 = .object ∨ last.1 = .value ∨ last.1 = .unknown) :
    step strconv um (between path below node last) (.string text) = pure (keyed path below node text, node) := by
  have type : typeFromToken last.1 (.string text) = (.ok .key : Except (ParseError Error) _) := by
    rcases object with prev | prev | prev <;> rw [prev] <;> rfl
  simp [step, handle, between, keyed, type, pushKey, getLast?_cons]

theorem step_scalar (ready : Ready path below node key state) {value} (given : value ≠ .null) :
    step strconv um state value.token = (do
      let (_, after) ← um.unmarshal node path key key.scalarType value.token
      return (between path below after (left strconv key (.scalar value)), node)) := by
  cases ready with
  | member text =>
    have type : typeFromToken .key value.token = (.ok .value : Except (ParseError Error) _) := by
      cases value with
      | null => exact absurd rfl given
      | string | number | bool => rfl
    simp [step, handle, keyed, type, setMember, getLast?_cons, left, isContainer, between, scalarType,
      dropLast_cons_of_ne_nil]
  | position index array =>
    have type : ∀ prevType, prevType = ElementType.array ∨ prevType = .arrayValue →
        typeFromToken prevType value.token = (.ok .arrayValue : Except (ParseError Error) _) := by
      rintro prevType (rfl | rfl) <;> cases value with
      | null => exact absurd rfl given
      | string | number | bool => rfl
    simp [step, handle, type _ array, addElement, getLast?_cons, left, isContainer, between, scalarType]

theorem step_open (ready : Ready path below node key state) {rune : Char} {currType : ElementType}
    (opens : rune = '{' ∧ currType = .object ∨ rune = '[' ∧ currType = .array) (even : below.length = path.length) :
    step strconv um state (.delim rune) = (do
      let (child, after) ← um.unmarshal node path key currType .nil
      return (between (path ++ [key]) (below ++ [after]) child (currType, -1), node)) := by
  have type : ∀ prevType, typeFromToken prevType (.delim rune) = (.ok currType : Except (ParseError Error) _) := by
    rcases opens with ⟨rfl, rfl⟩ | ⟨rfl, rfl⟩ <;> exact fun _ => rfl
  rcases opens with ⟨rfl, rfl⟩ | ⟨rfl, rfl⟩ <;> cases ready with
  | member text => simp [step, handle, type, keyed, openNode, getLast?_cons, between, even]
  | position index array => simp [step, handle, type, openNode, getLast?_cons, between, even]

theorem step_close {rune} (closes : rune = '}' ∨ rune = ']') :
    step strconv um (between (path ++ [key]) (below ++ [parent]) node last) (.delim rune) = (do
      let parent ← um.finalize parent path key node
      return (between path below parent (closedAs strconv key), node)) := by
  have type : typeFromToken last.1 (.delim rune) = (.ok .unknown : Except (ParseError Error) _) := by
    rcases closes with rfl | rfl <;> rfl
  simp [step, handle, between, type, closeNode, getLast?_cons, dropLast_cons_of_ne_nil]

/-! Whole documents. -/

/-- The loop over some tokens, without the nodes it reads them for. -/
def advance (strconv : Strconv) (um : Unmarshaller Node State Error) :
    ParserState Node → List Token → ParserM State Error (ParserState Node)
  | state, [] => return state
  | state, token :: tokens => do
    let (state, _) ← step strconv um state token
    advance strconv um state tokens

theorem advance_append (state : ParserState Node) (tokens more : List Token) :
    advance strconv um state (tokens ++ more) = advance strconv um state tokens >>= (advance strconv um · more) := by
  induction tokens generalizing state with
  | nil => simp [advance]
  | cons token tokens ih => simp [advance, ih]

/-- How the next child is read: as a member, or as an element behind an index. -/
def mode : ElementType × Int → Option Int
  | (.array, index) => some index
  | (.arrayValue, index) => some index
  | _ => none

@[simp] theorem mode_arrayValue (index : Int) : mode (.arrayValue, index) = some index := rfl

theorem mode_left_member (text : String) (value : Json) : mode (left strconv (.member text) value) = misread strconv text value := by
  unfold left misread
  cases value.isContainer with
  | false => rfl
  | true =>
    simp only [if_true, true_and, Json.atSigned, closedAs, PathKey.text]
    split
    next index signed => simp [signed, mode]
    next unsigned =>
      have plain : text.toList.head? ≠ some '@' := by
        intro signed
        obtain ⟨rest, chars⟩ := head?_eq_some_iff.mp signed
        exact unsigned rest chars
      simp [plain, mode]

theorem left_position (index : Int) (value : Json) : left strconv (.position index) value = (.arrayValue, index) := by
  cases value <;> simp [left, isContainer]

theorem left_ne_key (key : PathKey) (value : Json) : (left strconv key value).1 ≠ .key := by
  unfold left closedAs
  split
  · split <;> simp
  · cases key <;> simp

/-- The previous type and array index behind the members of an object. -/
def membersLast (strconv : Strconv) : ElementType × Int → List (String × Json) → ElementType × Int
  | last, [] => last
  | last, (key, value) :: members =>
    match mode last with
    | none => membersLast strconv (left strconv (.member key) value) members
    | some index => membersLast strconv (.arrayValue, index + 1 + 1) members

def elementsLast : ElementType × Int → List Json → ElementType × Int
  | last, [] => last
  | last, _ :: elements => elementsLast (.arrayValue, last.2 + 1) elements

theorem object_of_mode (reads : mode last = none) (behind : last.1 ≠ .key) :
    last.1 = .object ∨ last.1 = .value ∨ last.1 = .unknown := by
  obtain ⟨prevType, index⟩ := last
  cases prevType <;> simp [mode] at reads behind ⊢

theorem array_of_mode {index} (reads : mode last = some index) :
    last = (last.1, index) ∧ (last.1 = .array ∨ last.1 = .arrayValue) := by
  obtain ⟨prevType, held⟩ := last
  cases prevType <;> simp [mode] at reads ⊢ <;> exact reads

mutual

theorem advance_value (value : Json) (nullFree : value.NullFree) {path below} {node key} {state}
    (ready : Ready path below node key state) (even : below.length = path.length) :
    advance strconv um state value.tokens = (do
      let node ← value.visit strconv um node path key
      return between path below node (left strconv key value)) := by
  match value with
  | .scalar value => simp [tokens, visit, advance, step_scalar ready nullFree]
  | .object members =>
    have inside : ∀ child after, advance strconv um (between (path ++ [key]) (below ++ [after]) child (.object, -1))
        (membersTokens members) = _ := fun child after =>
      advance_members members nullFree (show (ElementType.object, (-1 : Int)).1 ≠ .key by simp) (by simp [even])
    simp [tokens, visit, advance, step_open ready (.inl ⟨rfl, rfl⟩) even, advance_append, inside, step_close, left,
      isContainer, mode]
  | .array elements =>
    have inside : ∀ child after, advance strconv um (between (path ++ [key]) (below ++ [after]) child (.array, -1))
        (elementsTokens elements) = _ := fun child after =>
      advance_elements elements nullFree (.inl rfl) (by simp [even])
    simp [tokens, visit, advance, step_open ready (.inr ⟨rfl, rfl⟩) even, advance_append, inside, step_close, left,
      isContainer]

theorem advance_members (members : List (String × Json)) (nullFree : MembersNullFree members) {path below} {node}
    {last} (behind : last.1 ≠ .key) (even : below.length = path.length) :
    advance strconv um (between path below node last) (membersTokens members) = (do
      let node ← visitMembers strconv um node path (mode last) members
      return between path below node (membersLast strconv last members)) := by
  match members with
  | [] => simp [membersTokens, visitMembers, advance, membersLast]
  | (text, value) :: members =>
    cases reads : mode last with
    | none =>
      have read : step strconv um (between path below node last) (.string text) = pure (keyed path below node text, node) :=
        step_key text (object_of_mode reads behind)
      have first : advance strconv um (keyed path below node text) value.tokens = _ :=
        advance_value value nullFree.1 (.member text) even
      have rest : ∀ node, advance strconv um (between path below node (left strconv (.member text) value))
          (membersTokens members) = _ := fun node => advance_members members nullFree.2 (left_ne_key _ _) even
      simp [membersTokens, visitMembers, advance, advance_append, read, first, rest,
        mode_left_member, membersLast, reads]
    | some index =>
      obtain ⟨shape, array⟩ := array_of_mode reads
      have first := @step_scalar _ _ _ strconv um path below node _ _ (.position index array) (.string text) (by simp)
      rw [← shape] at first
      have second : ∀ node, advance strconv um (between path below node (.arrayValue, index + 1)) value.tokens = _ := fun node =>
        advance_value value nullFree.1 (.position (index + 1) (.inr rfl)) even
      have rest : ∀ node, advance strconv um (between path below node (.arrayValue, index + 1 + 1)) (membersTokens members) = _ :=
        fun node => advance_members members nullFree.2 (by simp) even
      simp only [Scalar.token] at first
      simp [membersTokens, visitMembers, advance, advance_append, first, second, rest, left_position, membersLast, reads,
        scalarType]

theorem advance_elements (elements : List Json) (nullFree : ElementsNullFree elements) {path below} {node} {last}
    (array : last.1 = .array ∨ last.1 = .arrayValue) (even : below.length = path.length) :
    advance strconv um (between path below node last) (elementsTokens elements) = (do
      let node ← visitElements strconv um node path (last.2 + 1) elements
      return between path below node (elementsLast last elements)) := by
  match elements with
  | [] => simp [elementsTokens, visitElements, advance, elementsLast]
  | value :: elements =>
    have first : ∀ node, advance strconv um (between path below node last) value.tokens = _ := fun node =>
      advance_value value nullFree.1 (.position last.2 array) even
    have rest : ∀ node, advance strconv um (between path below node (.arrayValue, last.2 + 1)) (elementsTokens elements) = _ :=
      fun node => advance_elements elements nullFree.2 (.inr rfl) even
    simp [elementsTokens, visitElements, advance_append, first, rest, left_position, elementsLast]

end

theorem parseLoop_concat (state : ParserState Node) (current : Option Node) (tokens : List Token) (token : Token) :
    parseLoop strconv um state current (tokens ++ [token]) .eof = (do
      let state ← advance strconv um state tokens
      let (_, node) ← step strconv um state token
      return some node) := by
  induction tokens generalizing state current with
  | nil => simp [parseLoop, advance]
  | cons first tokens ih => simp [parseLoop, advance, ih]

theorem step_close_root {rune} (closes : rune = '}' ∨ rune = ']') :
    step strconv um (between [] [] node last) (.delim rune) = pure (⟨[], [], .unknown, -1⟩, node) := by
  have type : typeFromToken last.1 (.delim rune) = (.ok .unknown : Except (ParseError Error) _) := by
    rcases closes with rfl | rfl <;> rfl
  simp [step, handle, between, type, closeNode, closedAs, text]

/-- The calls for a whole document; nothing is read where a document is a scalar. -/
def Json.visitRoot (strconv : Strconv) (um : Unmarshaller Node State Error) (root : Node) : Json → ParserM State Error Node
  | .scalar _ => return root
  | .object members => visitMembers strconv um root [] none members
  | .array elements => visitElements strconv um root [] 0 elements

theorem parse_document {document : Json} (container : document.isContainer = true) (nullFree : document.NullFree) (root : Node) :
    parse strconv um root document.tokens .eof = some <$> document.visitRoot strconv um root := by
  cases document with
  | scalar => cases container
  | object members =>
    have inside : advance strconv um (between [] [] root (.object, -1)) (membersTokens members) = _ :=
      advance_members members nullFree (by simp) rfl
    have start : parse strconv um root (object members).tokens .eof =
        parseLoop strconv um (between [] [] root (.object, -1)) none (membersTokens members ++ [.delim '}']) .eof := rfl
    rw [start, parseLoop_concat, inside]
    simp [step_close_root, visitRoot, mode]
  | array elements =>
    have inside : advance strconv um (between [] [] root (.array, -1)) (elementsTokens elements) = _ :=
      advance_elements elements nullFree (.inl rfl) rfl
    have start : parse strconv um root (array elements).tokens .eof =
        parseLoop strconv um (between [] [] root (.array, -1)) none (elementsTokens elements ++ [.delim ']']) .eof := rfl
    rw [start, parseLoop_concat, inside]
    simp [step_close_root, visitRoot]

end MycsCommon.Persistence
