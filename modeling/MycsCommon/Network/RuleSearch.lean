import MycsCommon.Network.FilterRouter

/-! `findRuleInList` as goroutines that take turns. Each candidate has a `checkRuleMatch` goroutine, and all of them
marshal into the one variable that the function declares. -/

namespace MycsCommon.Network

variable {nft : Nft}

/-- Before the first test, with expressions left to marshal, with one marshalled and to be compared, and after the result is
sent. The searched rule's data goes along with the expressions, from the index of the next one. -/
inductive Phase (nft : Nft) where
  | start
  | marshal (exprs : List Expr) (data : List nft.Wire)
  | compare (expr : Expr) (exprs : List Expr) (data : List nft.Wire)
  | sent

/-- The shared variable, with the goroutine that wrote it last, which the source does not keep, and the channel's results. -/
structure Search (nft : Nft) where
  exprData : Option nft.Wire
  writer : Option Nat := none
  goroutines : List (Rule × Phase nft)
  results : List (Option Rule) := []
  panicked : Bool := false

namespace Search

def start (data : List nft.Wire) (ruleList : List Rule) : Search nft :=
  { exprData := data.getLast?, goroutines := ruleList.map (·, .start) }

def move (search : Search nft) (index : Nat) (candidate : Rule) (phase : Phase nft) : Search nft :=
  { search with goroutines := search.goroutines.set index (candidate, phase) }

def send (search : Search nft) (index : Nat) (candidate : Rule) (result : Option Rule) : Search nft :=
  { search.move index candidate .sent with results := search.results ++ [result] }

/-- One step of a goroutine. A panic ends the program. -/
def turn (rule : Rule) (data : List nft.Wire) (search : Search nft) (index : Nat) (candidate : Rule) :
    Phase nft → Option (Search nft)
  | .start =>
    if candidate.flags = rule.flags ∧ candidate.userData = rule.userData then some (search.move index candidate (.marshal candidate.exprs data))
    else some (search.send index candidate none)
  | .marshal [] _ => some (search.send index candidate (some candidate))
  | .marshal (expr :: exprs) data =>
    match nft.marshal candidate.table expr with
    | none => some (search.send index candidate none)
    | some wire => some { search.move index candidate (.compare expr exprs data) with exprData := some wire, writer := some index }
  | .compare _ _ [] => some { search with panicked := true }
  | .compare _ exprs (expected :: data) =>
    if search.exprData = some expected then some (search.move index candidate (.marshal exprs data))
    else some (search.send index candidate none)
  | .sent => none

def step (rule : Rule) (data : List nft.Wire) (index : Nat) (search : Search nft) : Option (Search nft) :=
  if search.panicked then none
  else search.goroutines[index]?.bind fun (candidate, phase) => search.turn rule data index candidate phase

/-- What the function returns: the first result that is not nil, or nil when every goroutine has sent one. -/
def answer (search : Search nft) : Option (Option Rule) :=
  match search.results.find? Option.isSome with
  | some found => some found
  | none => if search.results.length = search.goroutines.length then some none else none

end Search

end MycsCommon.Network
