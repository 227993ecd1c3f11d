import MycsCommon.Persistence.JsonStreamParser

/-! JSON documents and the tokens `encoding/json` delivers for them, in order. -/

namespace MycsCommon.Persistence

inductive Scalar where
  | string (text : String)
  | number (bits : UInt64)
  | bool (value : Bool)
  | null
deriving DecidableEq, Repr

def Scalar.token : Scalar → Token
  | string text => .string text
  | number bits => .float64 bits
  | bool value => .bool value
  | null => .nil

inductive Json where
  | scalar (value : Scalar)
  | object (members : List (String × Json))
  | array (elements : List Json)

namespace Json

def isContainer : Json → Bool
  | scalar _ => false
  | object _ => true
  | array _ => true

mutual

def tokens : Json → List Token
  | scalar value => [value.token]
  | object members => .delim '{' :: (membersTokens members ++ [.delim '}'])
  | array elements => .delim '[' :: (elementsTokens elements ++ [.delim ']'])

def membersTokens : List (String × Json) → List Token
  | [] => []
  | (key, value) :: members => .string key :: (value.tokens ++ membersTokens members)

def elementsTokens : List Json → List Token
  | [] => []
  | value :: elements => value.tokens ++ elementsTokens elements

end

mutual

/-- The document with every null replaced. -/
def fill (replacement : Scalar) : Json → Json
  | scalar value => scalar (if value = .null then replacement else value)
  | object members => object (fillMembers replacement members)
  | array elements => array (fillElements replacement elements)

def fillMembers (replacement : Scalar) : List (String × Json) → List (String × Json)
  | [] => []
  | (key, value) :: members => (key, value.fill replacement) :: fillMembers replacement members

def fillElements (replacement : Scalar) : List Json → List Json
  | [] => []
  | value :: elements => value.fill replacement :: fillElements replacement elements

end

mutual

/-- The document with its object keys renamed. -/
def rename (change : String → String) : Json → Json
  | scalar value => scalar value
  | object members => object (renameMembers change members)
  | array elements => array (renameElements change elements)

def renameMembers (change : String → String) : List (String × Json) → List (String × Json)
  | [] => []
  | (key, value) :: members => (change key, value.rename change) :: renameMembers change members

def renameElements (change : String → String) : List Json → List Json
  | [] => []
  | value :: elements => value.rename change :: renameElements change elements

end

mutual

def NullFree : Json → Prop
  | scalar value => value ≠ .null
  | object members => MembersNullFree members
  | array elements => ElementsNullFree elements

def MembersNullFree : List (String × Json) → Prop
  | [] => True
  | (_, value) :: members => value.NullFree ∧ MembersNullFree members

def ElementsNullFree : List Json → Prop
  | [] => True
  | value :: elements => value.NullFree ∧ ElementsNullFree elements

end

/-- The key starts with an at sign. -/
def atSigned (key : String) : Bool := key.toList.head? == some '@'

mutual

/-- No object key starts with an at sign. -/
def Unsigned : Json → Prop
  | scalar _ => True
  | object members => MembersUnsigned members
  | array elements => ElementsUnsigned elements

def MembersUnsigned : List (String × Json) → Prop
  | [] => True
  | (key, value) :: members => atSigned key = false ∧ value.Unsigned ∧ MembersUnsigned members

def ElementsUnsigned : List Json → Prop
  | [] => True
  | value :: elements => value.Unsigned ∧ ElementsUnsigned elements

end

end Json

end MycsCommon.Persistence
