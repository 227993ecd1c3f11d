import MycsCommon.Proofs.StreamCalls

/-! The spelling of object keys. A position is a text with an at sign in front, so a
key that starts with one can be taken for a position when its node closes. -/

namespace MycsCommon.Persistence
open Library List Call Event Json PathKey

def Event.map {Key Other : Type} (change : Key → Other) : Event Key → Event Other
  | unmarshal path key elemType value => unmarshal (path.map change) (change key) elemType value
  | finalize path key node => finalize (path.map change) (change key) node

def Call.map {Key Other : Type} (change : Key → Other) (call : Call Key) : Call Other := ⟨call.receiver, call.event.map change⟩

def PathKey.rename (change : String → String) : PathKey → PathKey
  | member key => member (change key)
  | position index => position index

namespace Json

mutual

/-- Renaming does not change how a key in front of further members is taken, and where
the members behind it are taken for array elements it leaves their keys as they are. -/
def Respelled (strconv : Strconv) (change : String → String) : Json → Prop
  | scalar _ => True
  | object members => MembersRespelled strconv change false members
  | array elements => ElementsRespelled strconv change elements

def MembersRespelled (strconv : Strconv) (change : String → String) : (listed : Bool) → List (String × Json) → Prop
  | _, [] => True
  | false, (key, value) :: members =>
    value.Respelled strconv change ∧ (members = [] ∨ misread strconv (change key) value = misread strconv key value ∧
      MembersRespelled strconv change (misread strconv key value).isSome members)
  | true, (key, value) :: members =>
    change key = key ∧ value.Respelled strconv change ∧ MembersRespelled strconv change true members

def ElementsRespelled (strconv : Strconv) (change : String → String) : List Json → Prop
  | [] => True
  | value :: elements => value.Respelled strconv change ∧ ElementsRespelled strconv change elements

end

end Json

variable {strconv : Strconv} {change : String → String}

theorem misread_rename (text : String) (value : Json) : misread strconv text (value.rename change) = misread strconv text value := by
  cases value <;> rfl

theorem position_text_injective {index other} (same : (position index).text = (position other).text) :
    index = other := by
  have chars := congrArg String.toList same
  simp only [text, String.toList_append, append_cancel_left_eq] at chars
  exact (@Text.int_repr_split index other [] [] (by simpa using chars) (by simp) (by simp)).1

theorem heard_cons (value : Json) (receiver : Option Nat) (path : List PathKey) (key : PathKey) (made : Nat) :
    ∃ elemType token rest, value.heard strconv receiver path key made = ⟨receiver, .unmarshal path key elemType token⟩ :: rest ∧
      (elemType = key.scalarType ∨ elemType = .object ∨ elemType = .array) := by
  cases value with
  | scalar value => exact ⟨_, _, _, rfl, .inl rfl⟩
  | object members => exact ⟨_, _, _, rfl, .inr (.inl rfl)⟩
  | array elements => exact ⟨_, _, _, rfl, .inr (.inr rfl)⟩

abbrev seen : List (Call PathKey) → List (Call String) := List.map (map text)

abbrev renamed (change : String → String) : List (Call PathKey) → List (Call String) :=
  List.map (map fun key => (key.rename change).text)

/-- Lists that agree with what follows them exactly under a condition, one after the
other; the second depends on the length of the first. -/
private theorem alike_append {α : Type} {first otherFirst} {second otherSecond : Nat → List α}
    {condition next : Prop} (made : Nat)
    (alike : ∀ rest other, otherFirst ++ other = first ++ rest ↔ condition ∧ other = rest)
    (following : ∀ made rest other, otherSecond made ++ other = second made ++ rest ↔ next ∧ other = rest)
    (rest other : List α) :
    otherFirst ++ (otherSecond (made + otherFirst.length) ++ other) = first ++ (second (made + first.length) ++ rest) ↔
      (condition ∧ next) ∧ other = rest := by
  rw [alike, and_assoc]
  refine and_congr_right fun holds => ?_
  have same : otherFirst = first := by simpa using (alike [] []).mpr ⟨holds, rfl⟩
  rw [same]
  exact following _ rest other

private theorem alike_enclosed (receiver : Option Nat) (path : List PathKey) (key : PathKey) (elemType : ElementType) (made : Nat)
    (inner otherInner : List (Call PathKey)) (rest other : List (Call String)) :
    seen (⟨receiver, .unmarshal (path.map (rename change)) (key.rename change) elemType .nil⟩ ::
        (otherInner ++ [⟨receiver, .finalize (path.map (rename change)) (key.rename change) (some made)⟩])) ++ other =
      renamed change (⟨receiver, .unmarshal path key elemType .nil⟩ :: (inner ++ [⟨receiver, .finalize path key (some made)⟩])) ++ rest ↔
    seen otherInner ++ (map (fun key => (key.rename change).text) ⟨receiver, .finalize path key (some made)⟩ :: other) =
      renamed change inner ++ (Call.map (fun key => (key.rename change).text) ⟨receiver, .finalize path key (some made)⟩ :: rest) := by
  simp [Call.map, Event.map, Function.comp_def]

mutual

theorem heard_alike (value : Json) (receiver : Option Nat) (path : List PathKey) (key : PathKey) (made : Nat)
    (rest other : List (Call String)) :
    seen ((value.rename change).heard strconv receiver (path.map (rename change)) (key.rename change) made) ++ other =
      renamed change (value.heard strconv receiver path key made) ++ rest ↔
    value.Respelled strconv change ∧ other = rest := by
  match value with
  | .scalar value =>
    cases key <;> simp [Json.rename, Json.heard, Json.Respelled, Call.map, Event.map, PathKey.rename, PathKey.scalarType]
  | .object members =>
    have inside := heardMembers_alike members (some made) (path ++ [key]) (made + 1) none none
    simp only [map_append, map_cons, map_nil] at inside
    rw [Json.rename, Json.heard, Json.heard, alike_enclosed, inside]
    cases members <;> simp [Respelled, MembersRespelled]
  | .array elements =>
    have inside := heardElements_alike elements (some made) (path ++ [key]) (made + 1) 0
    simp only [map_append, map_cons, map_nil] at inside
    rw [Json.rename, Json.heard, Json.heard, alike_enclosed, inside]
    simp [Respelled]

theorem heardMembers_alike (members : List (String × Json)) (receiver : Option Nat) (path : List PathKey) (made : Nat)
    (mode otherMode : Option Int) (rest other : List (Call String)) :
    seen (heardMembers strconv receiver (path.map (rename change)) made otherMode (renameMembers change members)) ++
        other =
      renamed change (heardMembers strconv receiver path made mode members) ++ rest ↔
    (members = [] ∨ otherMode = mode ∧ MembersRespelled strconv change mode.isSome members) ∧ other = rest := by
  match members with
  | [] => simp [renameMembers, heardMembers]
  | (key, value) :: members =>
    have following := fun mode otherMode made rest other => heardMembers_alike members receiver path made mode otherMode rest other
    match mode, otherMode with
    | none, none =>
      have both := alike_append made (fun rest other => heard_alike value receiver path (.member key) made rest other)
        (following (misread strconv key value) (misread strconv (change key) value)) rest other
      simp only [length_map] at both
      simp only [renameMembers, heardMembers, map_append, append_assoc, misread_rename]
      refine both.trans ?_
      simp [MembersRespelled]
    | some index, some otherIndex =>
      simp only [renameMembers, heardMembers, map_cons, map_append, cons_append, append_assoc,
        List.cons.injEq]
      by_cases same : otherIndex = index
      · subst same
        have both := alike_append (made + 1)
          (fun rest other => heard_alike value receiver path (.position (otherIndex + 1 + 1)) (made + 1) rest other)
          (following (some (otherIndex + 1 + 1)) (some (otherIndex + 1 + 1))) rest other
        simp only [length_map] at both
        have head : map text ⟨receiver, .unmarshal (path.map (rename change)) (.position (otherIndex + 1))
              .arrayValue (.string (change key))⟩ = map (fun key => (key.rename change).text)
            ⟨receiver, .unmarshal path (.position (otherIndex + 1)) .arrayValue (.string key)⟩ ↔ change key = key := by
          simp [Call.map, Event.map, PathKey.rename]
        rw [head]
        refine (and_congr_right fun _ => both).trans ?_
        cases members <;> simp [MembersRespelled, and_assoc]
      · -- the two positions are spelled differently
        have apart : (position (otherIndex + 1)).text ≠ (position (index + 1)).text := by
          intro text
          exact same (by have := position_text_injective text; omega)
        simp [Call.map, Event.map, PathKey.rename, apart, same]
    | none, some otherIndex =>
      obtain ⟨elemType, token, calls, starts, type⟩ := @heard_cons strconv value receiver path (.member key) made
      have differs : elemType ≠ .arrayValue := by
        rcases type with rfl | rfl | rfl <;> simp [scalarType]
      simp [Json.renameMembers, Json.heardMembers, starts, Call.map, Event.map, differs.symm]
    | some index, none =>
      obtain ⟨elemType, token, calls, starts, type⟩ := @heard_cons strconv (value.rename change) receiver
        (path.map (rename change)) (.member (change key)) made
      have differs : elemType ≠ .arrayValue := by
        rcases type with rfl | rfl | rfl <;> simp [scalarType]
      simp [Json.renameMembers, Json.heardMembers, starts, Call.map, Event.map, differs]

theorem heardElements_alike (elements : List Json) (receiver : Option Nat) (path : List PathKey) (made : Nat) (index : Int)
    (rest other : List (Call String)) :
    seen (heardElements strconv receiver (path.map (rename change)) made index (renameElements change elements)) ++
        other =
      renamed change (heardElements strconv receiver path made index elements) ++ rest ↔
    ElementsRespelled strconv change elements ∧ other = rest := by
  match elements with
  | [] => simp [renameElements, heardElements, ElementsRespelled]
  | value :: elements =>
    have both := alike_append made (fun rest other => heard_alike value receiver path (.position index) made rest other)
      (fun made rest other => heardElements_alike elements receiver path made (index + 1) rest other) rest other
    simp only [length_map] at both
    simp only [renameElements, heardElements, map_append, append_assoc]
    exact both

end

mutual

theorem rename_nullFree (value : Json) : (value.rename change).NullFree ↔ value.NullFree := by
  match value with
  | .scalar value => rfl
  | .object members => exact renameMembers_nullFree members
  | .array elements => exact renameElements_nullFree elements

theorem renameMembers_nullFree (members : List (String × Json)) :
    MembersNullFree (renameMembers change members) ↔ MembersNullFree members := by
  match members with
  | [] => rfl
  | (key, value) :: members => exact and_congr (rename_nullFree value) (renameMembers_nullFree members)

theorem renameElements_nullFree (elements : List Json) :
    ElementsNullFree (renameElements change elements) ↔ ElementsNullFree elements := by
  match elements with
  | [] => rfl
  | value :: elements => exact and_congr (rename_nullFree value) (renameElements_nullFree elements)

end

end MycsCommon.Persistence
