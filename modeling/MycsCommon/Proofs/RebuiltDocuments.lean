import MycsCommon.Persistence.Containers
import MycsCommon.Proofs.StreamCalls

/-! What the package's own containers hold after a parse: the value of the document. -/

namespace MycsCommon.Persistence
open Library Program List EStateM Json

mutual

/-- The value is the document's, made of maps from a reference on. -/
def Rebuilds (heap : Heap) (low : Nat) : Json → Value → Prop
  | .scalar value, built => built = .scalar value.token
  | .object members, built => ∃ ref map, built = .map ref ∧ low ≤ ref ∧ heap[ref]? = some map ∧
      (∀ key, key ∈ map ↔ key ∈ members.map Prod.fst) ∧ RebuildsMembers heap low map members
  | .array elements, built => ∃ values, built = .array values ∧ RebuildsElements heap low elements values

def RebuildsMembers (heap : Heap) (low : Nat) (map : GoMap) : List (String × Json) → Prop
  | [] => True
  | (key, value) :: members =>
    (key ∈ members.map Prod.fst ∨ ∃ built, map.lookup key = some built ∧ Rebuilds heap low value built) ∧
      RebuildsMembers heap low map members

def RebuildsElements (heap : Heap) (low : Nat) : List Json → List Value → Prop
  | [], values => values = []
  | value :: elements, values => ∃ built rest, values = built :: rest ∧ Rebuilds heap low value built ∧
      RebuildsElements heap low elements rest

end

/-! Changes elsewhere in the heap. -/

/-- The maps from a reference on are still what they were. -/
structure Stays (low : Nat) (heap after : Heap) : Prop where
  grows : heap.length ≤ after.length
  same : ∀ ref, low ≤ ref → ref < heap.length → after[ref]? = heap[ref]?

section Frame
variable {heap after : Heap} {low lower : Nat}

mutual

theorem Rebuilds.frame (value : Json) {built} (rebuilds : Rebuilds heap low value built) (lowers : lower ≤ low)
    (stays : Stays low heap after) : Rebuilds after lower value built := by
  match value with
  | .scalar value => exact rebuilds
  | .object members =>
    obtain ⟨ref, map, rfl, young, held, keys, inside⟩ := rebuilds
    have bound := (List.getElem?_eq_some_iff.mp held).1
    exact ⟨ref, map, rfl, Nat.le_trans lowers young, (stays.same ref young bound).trans held, keys,
      RebuildsMembers.frame members inside lowers stays⟩
  | .array elements =>
    obtain ⟨values, rfl, inside⟩ := rebuilds
    exact ⟨values, rfl, RebuildsElements.frame elements inside lowers stays⟩

theorem RebuildsMembers.frame {map} (members : List (String × Json))
    (rebuilds : RebuildsMembers heap low map members) (lowers : lower ≤ low) (stays : Stays low heap after) :
    RebuildsMembers after lower map members := by
  match members with
  | [] => trivial
  | (key, value) :: members =>
    obtain ⟨first, rest⟩ := rebuilds
    refine ⟨first.imp_right ?_, RebuildsMembers.frame members rest lowers stays⟩
    rintro ⟨built, held, inside⟩
    exact ⟨built, held, Rebuilds.frame value inside lowers stays⟩

theorem RebuildsElements.frame (elements : List Json) {values}
    (rebuilds : RebuildsElements heap low elements values) (lowers : lower ≤ low) (stays : Stays low heap after) :
    RebuildsElements after lower elements values := by
  match elements with
  | [] => exact rebuilds
  | value :: elements =>
    obtain ⟨built, rest, rfl, first, inside⟩ := rebuilds
    exact ⟨built, rest, rfl, Rebuilds.frame value first lowers stays, RebuildsElements.frame elements inside lowers stays⟩

end

theorem RebuildsMembers.insert {map} {done} (key : String) {value built}
    (rebuilds : RebuildsMembers heap low map done) (new : Rebuilds heap low value built) :
    RebuildsMembers heap low (map.insert key built) (done ++ [(key, value)]) := by
  induction done with
  | nil => exact ⟨.inr ⟨built, AList.lookup_insert map, new⟩, trivial⟩
  | cons member done ih =>
    obtain ⟨name, earlier⟩ := member
    obtain ⟨first, rest⟩ := rebuilds
    rw [cons_append, RebuildsMembers]
    refine ⟨?_, ih rest⟩
    by_cases same : name = key
    · exact .inl (by simp [same])
    · rcases first with again | ⟨held, found, inside⟩
      · refine .inl ?_
        rw [map_append, mem_append]
        exact .inl again
      · exact .inr ⟨held, (AList.lookup_insert_ne same).trans found, inside⟩

end Frame

/-! What a child adds to its parent. -/

/-- The child is in its parent; the maps other than the parent are as they were. -/
structure Added (heap after : Heap) (parent grown : Container) (key : PathKey) (built : Value) : Prop where
  grows : heap.length ≤ after.length
  others : ∀ ref, ref < heap.length → parent ≠ .map ref → after[ref]? = heap[ref]?
  inMap : ∀ ref, parent = .map ref → grown = .map ref ∧ after[ref]? = heap[ref]?.map (·.insert key.text built)
  inArray : ∀ elements, parent = .array elements → grown = .array (elements ++ [built])

/-- A map takes children by key, an array the one of the next position. -/
def Fits (heap : Heap) (key : PathKey) : Container → Prop
  | .map ref => ref < heap.length ∧ key.scalarType = .value
  | .array elements => key = .position elements.length

variable {strconv : Strconv}

private theorem modify_other (heap : Heap) (change : GoMap → GoMap) {ref other}
    (different : Container.map ref ≠ .map other) : (heap.modify ref change)[other]? = heap[other]? := by
  have apart : ref ≠ other := fun same => different (by rw [same])
  simp [apart]

section

variable {heap} {parent} {key} (fits : Fits heap key parent) (path : List PathKey)
include fits path

theorem containers_scalar (token : Token) :
    ∃ next after grown, ((containers strconv).unmarshal parent path key key.scalarType token).run heap =
      .ok (next, grown) after ∧ Added heap after parent grown key (.scalar token) := by
  cases parent with
  | map ref =>
    rw [fits.2]
    refine ⟨_, _, _, rfl, ⟨by simp, fun _ _ => modify_other heap _, ?_, nofun⟩⟩
    rintro _ ⟨⟩
    exact ⟨rfl, by simp⟩
  | array elements =>
    rw [fits]
    refine ⟨_, _, _, rfl, ⟨Nat.le_refl _, fun _ _ _ => rfl, nofun, ?_⟩⟩
    rintro _ ⟨⟩
    rfl

theorem containers_object :
    ∃ after grown, ((containers strconv).unmarshal parent path key .object .nil).run heap =
      .ok (.map heap.length, grown) after ∧ Added heap after parent grown key (.map heap.length) ∧
        after[heap.length]? = some ∅ ∧ after.length = heap.length + 1 := by
  cases parent with
  | map ref =>
    have apart := Nat.ne_of_lt fits.1
    refine ⟨_, _, rfl, ⟨by simp, ?_, ?_, nofun⟩, ?_, by simp⟩
    · intro other bound different
      rw [modify_other _ _ different, getElem?_append_left bound]
    · rintro _ ⟨⟩
      refine ⟨rfl, ?_⟩
      rw [getElem?_modify_eq, getElem?_append_left fits.1]
      rfl
    · rw [modify_other _ _ (by simpa using apart)]
      simp
  | array elements =>
    refine ⟨_, _, rfl, ⟨by simp, ?_, nofun, ?_⟩, by simp, by simp⟩
    · intro other bound _
      exact getElem?_append_left bound
    · rintro _ ⟨⟩
      rfl

theorem containers_array :
    ∃ after grown, ((containers strconv).unmarshal parent path key .array .nil).run heap =
      .ok (.array [], grown) after ∧ Added heap after parent grown key (.array []) ∧ after.length = heap.length := by
  cases parent with
  | map ref =>
    refine ⟨_, _, rfl, ⟨by simp, fun _ _ => modify_other heap _, ?_, nofun⟩, by simp⟩
    rintro _ ⟨⟩
    exact ⟨rfl, getElem?_modify_eq _ _ _⟩
  | array elements =>
    refine ⟨_, _, rfl, ⟨Nat.le_refl _, fun _ _ _ => rfl, nofun, ?_⟩, rfl⟩
    rintro _ ⟨⟩
    rfl

end

theorem containers_finalize_map (heap : Heap) (parent : Container) (path : List PathKey) (key : PathKey) (ref : Nat) :
    ((containers strconv).finalize parent path key (.map ref)).run heap = .ok parent heap := by
  cases parent <;> rfl

theorem containers_finalize_array {heap before} {parent grown} {key} (fits : Fits heap key parent)
    (added : Added heap before parent grown key (.array [])) (path : List PathKey) (values : List Value) :
    ∃ after final, ((containers strconv).finalize grown path key (.array values)).run before = .ok final after ∧
      Added heap after parent final key (.array values) ∧ Stays heap.length before after := by
  cases parent with
  | map ref =>
    obtain ⟨rfl, held⟩ := added.inMap ref rfl
    obtain ⟨map, found⟩ : ∃ map, heap[ref]? = some map := ⟨_, getElem?_eq_getElem fits.1⟩
    rw [found, Option.map_some] at held
    have present : ((before.getD ref ∅).lookup key.text).isNone = false := by
      simp [List.getD, held]
    refine ⟨before.modify ref (·.insert key.text (.array values)), .map ref, ?_, ⟨?_, ?_, ?_, nofun⟩, ⟨?_, ?_⟩⟩
    · simp only [containers, mapFinalize, run_bind, run_get, present, Bool.false_eq_true, if_false]
      rfl
    · simpa using added.grows
    · intro other bound different
      rw [modify_other _ _ different, added.others other bound different]
    · rintro _ ⟨⟩
      refine ⟨rfl, ?_⟩
      rw [getElem?_modify_eq, held, found]
      simp
    · simp
    · intro other young _
      exact modify_other _ _ (by simpa using (by have := fits.1; omega : ref ≠ other))
  | array elements =>
    obtain rfl := added.inArray elements rfl
    obtain rfl : key = .position elements.length := fits
    refine ⟨before, .array (elements ++ [.array values]), ?_, ⟨added.grows, added.others, nofun, ?_⟩, ⟨Nat.le_refl _, fun _ _ _ => rfl⟩⟩
    · have text : (PathKey.position elements.length).text.toList = '@' :: (elements.length : Int).repr.toList := by
        rw [PathKey.text, String.toList_append]
        rfl
      have bound : (0 : Int) ≤ elements.length ∧ (elements.length : Int) < ((elements ++ [Value.array []]).length : Nat) := by
        simp only [length_append, length_singleton]
        omega
      have ascii : ('@' : Char).val < 128 := by decide
      simp only [containers, arrayFinalize, text, ascii, if_true, String.ofList_toList, strconv.atoi_repr, Bool.not_true,
        Bool.false_eq_true, if_false, if_pos bound, Int.toNat_natCast]
      rw [set_append_right _ _ (Nat.le_refl _), Nat.sub_self]
      rfl
    · rintro _ ⟨⟩
      rfl

theorem Added.later {heap before after} {parent grown} {key built}
    (added : Added heap before parent grown key built) (fits : Fits heap key parent)
    (grows : before.length ≤ after.length) (same : ∀ ref, ref < heap.length → after[ref]? = before[ref]?) :
    Added heap after parent grown key built := by
  refine ⟨Nat.le_trans added.grows grows, ?_, ?_, added.inArray⟩
  · intro ref bound different
    rw [same ref bound, added.others ref bound different]
  · rintro ref rfl
    obtain ⟨grown, held⟩ := added.inMap ref rfl
    exact ⟨grown, (same ref fits.1).trans held⟩

/-! Whole documents. -/

mutual

theorem visit_rebuilds (value : Json) (nullFree : value.NullFree) (unsigned : value.Unsigned) {heap} {parent} {key}
    (fits : Fits heap key parent) (path : List PathKey) :
    ∃ after grown built, (value.visit strconv (containers strconv) parent path key).run heap = .ok grown after ∧
      Added heap after parent grown key built ∧ Rebuilds after heap.length value built := by
  match value with
  | .scalar value =>
    obtain ⟨next, after, grown, ran, added⟩ := @containers_scalar strconv _ _ _ fits path value.token
    refine ⟨after, grown, _, ?_, added, rfl⟩
    simp only [visit, run_bind, ran]
    rfl
  | .object members =>
    obtain ⟨opened, grown, ran, added, empty, length⟩ := @containers_object strconv _ _ _ fits path
    obtain ⟨after, map, visited, grows, others, held, keys, inside⟩ := visitMembers_rebuilds members nullFree unsigned [] empty
      (by simp) trivial (path ++ [key])
    refine ⟨after, grown, _, ?_, added.later fits grows ?_, ⟨heap.length, map, rfl, Nat.le_refl _, held, keys,
      inside.frame members (Nat.le_succ _) ⟨Nat.le_refl _, fun _ _ _ => rfl⟩⟩⟩
    · simp [visit, ran, visited, containers_finalize_map]
    · intro ref bound
      exact others ref (by omega) (by omega)
  | .array elements =>
    obtain ⟨opened, grown, ran, added, length⟩ := @containers_array strconv _ _ _ fits path
    obtain ⟨before, built, visited, stays, inside⟩ := visitElements_rebuilds elements nullFree unsigned opened [] (path ++ [key])
    have stale := added.later fits stays.grows fun ref bound => stays.same ref (Nat.zero_le _) (by omega)
    obtain ⟨after, final, finalized, replaced, kept⟩ := @containers_finalize_array strconv _ _ _ _ _ fits stale path built
    rw [length] at inside
    refine ⟨after, final, _, ?_, replaced, built, rfl, inside.frame elements (Nat.le_refl _) kept⟩
    simp only [length_nil, Int.natCast_zero, nil_append] at visited
    simp [visit, ran, visited, finalized]

theorem visitMembers_rebuilds (members : List (String × Json)) (nullFree : MembersNullFree members)
    (unsigned : MembersUnsigned members) (done : List (String × Json)) {heap ref map} (held : heap[ref]? = some map)
    (keys : ∀ key, key ∈ map ↔ key ∈ done.map Prod.fst) (rebuilt : RebuildsMembers heap (ref + 1) map done)
    (path : List PathKey) :
    ∃ after map, (visitMembers strconv (containers strconv) (.map ref) path none members).run heap = .ok (.map ref) after ∧
      heap.length ≤ after.length ∧ (∀ other, other < heap.length → other ≠ ref → after[other]? = heap[other]?) ∧
      after[ref]? = some map ∧ (∀ key, key ∈ map ↔ key ∈ (done ++ members).map Prod.fst) ∧
      RebuildsMembers after (ref + 1) map (done ++ members) := by
  match members with
  | [] => exact ⟨heap, map, rfl, Nat.le_refl _, fun _ _ _ => rfl, held, by simpa using keys, by simpa using rebuilt⟩
  | (key, value) :: members =>
    have bound := (List.getElem?_eq_some_iff.mp held).1
    obtain ⟨plain, firstUnsigned, restUnsigned⟩ := unsigned
    obtain ⟨middle, grown, built, ran, added, new⟩ := visit_rebuilds value nullFree.1 firstUnsigned
      (show Fits heap (.member key) (.map ref) from ⟨bound, rfl⟩) path
    obtain ⟨rfl, inserted⟩ := added.inMap ref rfl
    rw [held, Option.map_some] at inserted
    have stays : Stays (ref + 1) heap middle :=
      ⟨added.grows, fun other young old => added.others other old (by simp; omega)⟩
    have rebuilt := (rebuilt.frame done (Nat.le_refl _) stays).insert key
      (new.frame value (show ref + 1 ≤ heap.length from bound) ⟨Nat.le_refl _, fun _ _ _ => rfl⟩)
    obtain ⟨after, map', visited, grows, others, final, keys', inside⟩ := visitMembers_rebuilds members nullFree.2 restUnsigned
      (done ++ [(key, value)]) inserted
      (fun other => by simp [AList.mem_insert, keys other, or_comm, PathKey.text]) rebuilt path
    refine ⟨after, map', ?_, Nat.le_trans added.grows grows, ?_, final, ?_, ?_⟩
    · simp [visitMembers, ran, misread_unsigned plain, visited]
    · intro other old different
      rw [others other (Nat.lt_of_lt_of_le old added.grows) different]
      exact added.others other old (by simpa using different.symm)
    · simpa using keys'
    · simpa using inside

theorem visitElements_rebuilds (elements : List Json) (nullFree : ElementsNullFree elements)
    (unsigned : ElementsUnsigned elements) (heap : Heap) (values : List Value) (path : List PathKey) :
    ∃ after built, (visitElements strconv (containers strconv) (.array values) path values.length elements).run heap =
        .ok (.array (values ++ built)) after ∧
      Stays 0 heap after ∧ RebuildsElements after heap.length elements built := by
  match elements with
  | [] => exact ⟨heap, [], by simp [visitElements], ⟨Nat.le_refl _, fun _ _ _ => rfl⟩, rfl⟩
  | value :: elements =>
    obtain ⟨middle, grown, first, ran, added, new⟩ := visit_rebuilds value nullFree.1 unsigned.1
      (show Fits heap (.position values.length) (.array values) from rfl) path
    obtain rfl := added.inArray values rfl
    obtain ⟨after, built, visited, stays, inside⟩ := visitElements_rebuilds elements nullFree.2 unsigned.2 middle (values ++ [first]) path
    refine ⟨after, first :: built, ?_, ⟨Nat.le_trans added.grows stays.grows, ?_⟩, first, built, rfl, ?_, ?_⟩
    · simp only [length_append, length_singleton, Int.natCast_add, Int.natCast_one] at visited
      simp [visitElements, ran, visited]
    · intro ref _ bound
      rw [stays.same ref (Nat.zero_le _) (Nat.lt_of_lt_of_le bound added.grows), added.others ref bound (by simp)]
    · exact new.frame value (Nat.le_refl _) ⟨stays.grows, fun ref _ => stays.same ref (Nat.zero_le _)⟩
    · exact inside.frame elements added.grows ⟨Nat.le_refl _, fun _ _ _ => rfl⟩

end

/-- The root a document is parsed into: `NewMap()` or `NewArray()`. -/
def newRoot : Json → ContainerM Container
  | .object _ => return .map (← newMap)
  | _ => return .array newArray

/-- Parsing a document into a new container of its kind gives its value. -/
theorem parse_rebuilds {document : Json} (container : document.isContainer = true) (nullFree : document.NullFree)
    (unsigned : document.Unsigned) (heap : Heap) :
    ∃ root after, (newRoot document >>= fun root => parse strconv (containers strconv) root document.tokens .eof).run heap =
        .ok (some root) after ∧
      Stays 0 heap after ∧ Rebuilds after heap.length document root.value := by
  simp only [parse_document container nullFree]
  cases document with
  | scalar => cases container
  | object members =>
    obtain ⟨after, map, visited, grows, others, held, keys, inside⟩ := @visitMembers_rebuilds strconv members nullFree unsigned []
      (heap ++ [∅]) heap.length ∅ (by simp) (by simp) trivial []
    rw [length_append, length_singleton] at grows others
    refine ⟨.map heap.length, after, ?_, ⟨by omega, ?_⟩, heap.length, map, rfl, Nat.le_refl _, held, keys,
      inside.frame members (Nat.le_succ _) ⟨Nat.le_refl _, fun _ _ _ => rfl⟩⟩
    · have opened : (newRoot (.object members)).run heap = .ok (.map heap.length) (heap ++ [∅]) := rfl
      simp only [run_bind, opened, visitRoot, map_run, visited]
    · intro ref _ bound
      rw [others ref (by omega) (by omega), getElem?_append_left bound]
  | array elements =>
    obtain ⟨after, built, visited, stays, inside⟩ := @visitElements_rebuilds strconv elements nullFree unsigned heap [] []
    simp only [length_nil, Int.natCast_zero, nil_append] at visited
    refine ⟨.array built, after, ?_, stays, built, rfl, inside⟩
    have opened : (newRoot (.array elements)).run heap = .ok (.array newArray) heap := rfl
    simp only [run_bind, opened, visitRoot, map_run, newArray, visited]

def twiceDocument : Json :=
  .object [("a", .array [.scalar (.bool true), .array [.scalar (.string "x")]]), ("a", .object [("b", .array [])])]

theorem parse_rebuilds_twice :
    ∃ root after, (newRoot twiceDocument >>= fun root => parse decimal (containers decimal) root twiceDocument.tokens .eof).run [] =
        .ok (some root) after ∧
      Stays 0 [] after ∧ Rebuilds after 0 twiceDocument root.value :=
  parse_rebuilds rfl (by simp [twiceDocument, NullFree, MembersNullFree, ElementsNullFree])
    (by simp [twiceDocument, Unsigned, MembersUnsigned, ElementsUnsigned, atSigned]) []

end MycsCommon.Persistence
