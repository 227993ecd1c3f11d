import MycsCommon.Proofs.StreamCalls

/-! Null values. The token of null has no type of its own and is taken for the end of
a node, so no call is ever made for it. -/

namespace MycsCommon.Persistence
open Library Program List Json Triple

def Call.isNull {Key : Type} (call : Call Key) : Bool :=
  match call.event with
  | .unmarshal _ _ .value .nil => true
  | .unmarshal _ _ .arrayValue .nil => true
  | _ => false

/-- The call with a replacement for the null it reports. -/
def Call.fill {Key : Type} (text : String) (call : Call Key) : Call Key :=
  match call.event with
  | .unmarshal path key .value .nil => ⟨call.receiver, .unmarshal path key .value (.string text)⟩
  | .unmarshal path key .arrayValue .nil => ⟨call.receiver, .unmarshal path key .arrayValue (.string text)⟩
  | _ => call

/-- No index is out of range, every null is reported where it stands, and all other
calls are those for the document with a string instead of the nulls. -/
structure NullsAreValues (strconv : Strconv) (document : Json) : Prop where
  inRange : ∀ log, (parse strconv recorder none document.tokens .eof).run [] ≠ .error .panic log
  reported : ∀ call ∈ document.traversal, call.isNull = true → call ∈ recorded strconv document.tokens
  others : ∀ text, recorded strconv (document.fill (.string text)).tokens = (recorded strconv document.tokens).map (Call.fill text)

variable {strconv : Strconv}

/-! What is recorded. -/

def NoNulls (log : List (Call PathKey)) : Prop := ∀ call ∈ log, call.isNull = false

theorem unmarshal_noNulls {receiver path} {key} {elemType} {value}
    (given : ∀ receiver, (⟨receiver, .unmarshal path key elemType value⟩ : Call PathKey).isNull = false) :
    Keeps NoNulls (recorder.unmarshal receiver path key elemType value) := by
  intro log clean call member
  rcases mem_append.mp member with old | new
  · exact clean call old
  · rw [mem_singleton.mp new]
    exact given receiver

theorem finalize_noNulls (receiver : Option Nat) (path : List PathKey) (key : PathKey) (node : Option Nat) :
    Keeps NoNulls (recorder.finalize receiver path key node) := by
  intro log clean call member
  rcases mem_append.mp member with old | new
  · exact clean call old
  · rw [mem_singleton.mp new]
    rfl

theorem pathUpTo_noNulls (keyPath : List PathKey) (high : Nat) :
    Keeps NoNulls (pathUpTo keyPath high : ParserM (List (Call PathKey)) Empty _) := by
  unfold pathUpTo
  split
  · exact pure _ fun _ clean => clean
  · exact throw _ fun _ clean => clean

theorem typeFromToken_given {prevType currType} {token}
    (type : typeFromToken prevType token = (.ok currType : Except (ParseError Empty) _))
    (scalar : currType = .value ∨ currType = .arrayValue) : token ≠ .nil := by
  rintro rfl
  cases type
  rcases scalar with value | value <;> cases value

theorem step_noNulls (state : ParserState (Option Nat)) (token : Token) : Keeps NoNulls (step strconv recorder state token) := by
  unfold step
  split
  next lastKey current =>
    split
    next => exact throw _ fun _ clean => clean
    next currType type =>
      apply bind (fun _ => NoNulls)
      case rest => exact fun _ => pure _ fun _ clean => clean
      cases currType with
      | key =>
        cases token <;> first | exact pure _ fun _ clean => clean | exact throw _ fun _ clean => clean
      | unknown =>
        simp only [handle, closeNode]
        split
        · exact pure _ fun _ clean => clean
        · refine bind _ (pathUpTo_noNulls _ _) fun _ => bind (fun _ => NoNulls) (finalize_noNulls _ _ _ _) fun _ => ?_
          exact pure _ fun _ clean => clean
      | object | array =>
        refine bind _ (pathUpTo_noNulls _ _) fun _ => bind _ (unmarshal_noNulls fun _ => rfl) fun _ => ?_
        exact pure _ fun _ clean => clean
      | value =>
        have given := typeFromToken_given type (.inl rfl)
        refine bind _ (pathUpTo_noNulls _ _) fun _ => bind _ (unmarshal_noNulls fun _ => ?_) fun _ => ?_
        · cases token <;> first | rfl | exact absurd rfl given
        · exact pure _ fun _ clean => clean
      | arrayValue =>
        have given := typeFromToken_given type (.inr rfl)
        refine bind _ (unmarshal_noNulls fun _ => ?_) fun _ => ?_
        · cases token <;> first | rfl | exact absurd rfl given
        · exact pure _ fun _ clean => clean
  next => exact throw _ fun _ clean => clean

theorem parseLoop_noNulls (state : ParserState (Option Nat)) (current : Option (Option Nat)) (tokens : List Token) :
    Keeps NoNulls (parseLoop strconv recorder state current tokens .eof) := by
  induction tokens generalizing state current with
  | nil => exact pure _ fun _ clean => clean
  | cons token tokens ih => exact bind _ (step_noNulls state token) fun _ => ih _ _

theorem recorded_noNulls (tokens : List Token) : NoNulls (recorded strconv tokens) := by
  have kept : Keeps NoNulls (parse strconv recorder none tokens .eof) := by
    cases tokens with
    | nil => exact pure _ fun _ clean => clean
    | cons token tokens =>
      simp only [parse]
      split
      · exact throw _ fun _ clean => clean
      · exact parseLoop_noNulls _ _ _
  exact kept.final (by simp [NoNulls])

/-! What should be reported. -/

mutual

theorem traverse_null (value : Json) (receiver : Option Nat) (path : List PathKey) (key : PathKey) (made : Nat) :
    NoNulls (value.traverse receiver path key made) ↔ value.NullFree := by
  match value with
  | .scalar value => cases value <;> cases key <;> simp [NoNulls, Json.traverse, NullFree, Call.isNull, Scalar.token, PathKey.scalarType]
  | .object members =>
    have inside := traverseMembers_null members (some made) (path ++ [key]) (made + 1)
    simp only [NoNulls] at inside
    simp [NoNulls, Json.traverse, NullFree, ← inside, or_imp, forall_and, Call.isNull]
  | .array elements =>
    have inside := traverseElements_null elements (some made) (path ++ [key]) (made + 1) 0
    simp only [NoNulls] at inside
    simp [NoNulls, Json.traverse, NullFree, ← inside, or_imp, forall_and, Call.isNull]

theorem traverseMembers_null (members : List (String × Json)) (receiver : Option Nat) (path : List PathKey) (made : Nat) :
    NoNulls (traverseMembers receiver path made members) ↔ MembersNullFree members := by
  match members with
  | [] => simp [NoNulls, traverseMembers, MembersNullFree]
  | (key, value) :: members =>
    rw [MembersNullFree, ← traverse_null value receiver path (.member key) made,
      ← traverseMembers_null members receiver path (made + (value.traverse receiver path (.member key) made).length)]
    simp [NoNulls, traverseMembers, or_imp, forall_and]

theorem traverseElements_null (elements : List Json) (receiver : Option Nat) (path : List PathKey) (made index : Nat) :
    NoNulls (traverseElements receiver path made index elements) ↔ ElementsNullFree elements := by
  match elements with
  | [] => simp [NoNulls, traverseElements, ElementsNullFree]
  | value :: elements =>
    rw [ElementsNullFree, ← traverse_null value receiver path (.position index) made,
      ← traverseElements_null elements receiver path (made + (value.traverse receiver path (.position index) made).length) (index + 1)]
    simp [NoNulls, traverseElements, or_imp, forall_and]

end

mutual

theorem fill_nullFree (value : Json) (replacement : Scalar) (nullFree : value.NullFree) : value.fill replacement = value := by
  match value with
  | .scalar value => simp [fill, show value ≠ .null from nullFree]
  | .object members => rw [fill, fillMembers_nullFree members replacement nullFree]
  | .array elements => rw [fill, fillElements_nullFree elements replacement nullFree]

theorem fillMembers_nullFree (members : List (String × Json)) (replacement : Scalar) (nullFree : MembersNullFree members) :
    fillMembers replacement members = members := by
  match members with
  | [] => rfl
  | (key, value) :: members =>
    rw [fillMembers, fill_nullFree value replacement nullFree.1, fillMembers_nullFree members replacement nullFree.2]

theorem fillElements_nullFree (elements : List Json) (replacement : Scalar) (nullFree : ElementsNullFree elements) :
    fillElements replacement elements = elements := by
  match elements with
  | [] => rfl
  | value :: elements =>
    rw [fillElements, fill_nullFree value replacement nullFree.1, fillElements_nullFree elements replacement nullFree.2]

end

theorem Call.fill_of_not_isNull {Key : Type} {call : Call Key} (given : call.isNull = false) (text : String) : call.fill text = call := by
  obtain ⟨receiver, event⟩ := call
  cases event with
  | finalize => rfl
  | unmarshal path key elemType value => cases elemType <;> cases value <;> first | rfl | cases given

/-- Nulls are values exactly where there are none. -/
theorem nullsAreValues_iff {document : Json} (container : document.isContainer = true) :
    NullsAreValues strconv document ↔ document.NullFree := by
  have whole : NoNulls document.traversal ↔ document.NullFree := by
    cases document with
    | scalar => cases container
    | object members => exact traverseMembers_null members none [] 0
    | array elements => exact traverseElements_null elements none [] 0 0
  constructor
  · intro values
    refine whole.mp fun call member => ?_
    by_contra null
    rw [Bool.not_eq_false] at null
    have absent := recorded_noNulls document.tokens call (values.reported call member null)
    rw [null] at absent
    cases absent
  · intro nullFree
    refine ⟨?_, ?_, ?_⟩
    · intro log
      rw [parse_run container nullFree]
      simp
    · intro call member null
      rw [whole.mpr nullFree call member] at null
      cases null
    · intro text
      rw [fill_nullFree document _ nullFree]
      have same := map_congr_left (l := recorded strconv document.tokens) fun call member =>
        Call.fill_of_not_isNull (recorded_noNulls _ call member) text
      exact (same.trans (map_id _)).symm

/-- The null takes the object off the stack, and its closing bracket finds the stack empty. -/
theorem nulls_not_values :
    let document := object [("a", .scalar .null)]
    (parse decimal recorder none document.tokens .eof).run [] = .error .panic [] ∧ ¬NullsAreValues decimal document := by
  intro document
  refine ⟨rfl, ?_⟩
  intro values
  exact values.inRange [] rfl

theorem nullsAreValues_sample : NullsAreValues decimal sampleDocument :=
  (nullsAreValues_iff rfl).mpr (by simp [sampleDocument, NullFree, MembersNullFree, ElementsNullFree])

end MycsCommon.Persistence
