import Mathlib.Data.List.Basic

/-! Reading concatenated texts back. A field can be told from what follows it when
what follows starts with a character the field never holds. -/

namespace Library.Text
open List

variable {α : Type}

/-- What follows a field, if anything does, starts with a character that ends the field. -/
def Starts (stop : α → Prop) (rest : List α) : Prop := ∀ first ∈ rest.head?, stop first

@[simp] theorem starts_nil (stop : α → Prop) : Starts stop [] := by simp [Starts]

@[simp] theorem starts_cons {stop : α → Prop} {first : α} {rest : List α} : Starts stop (first :: rest) ↔ stop first := by
  simp [Starts]

theorem split {stop : α → Prop} {field other after rest : List α} (same : field ++ after = other ++ rest)
    (fieldFree : ∀ char ∈ field, ¬ stop char) (otherFree : ∀ char ∈ other, ¬ stop char)
    (afterStarts : Starts stop after) (restStarts : Starts stop rest) : field = other ∧ after = rest := by
  induction field generalizing other with
  | nil =>
    cases other with
    | nil => exact ⟨rfl, same⟩
    | cons char other =>
      rw [nil_append, cons_append] at same
      rw [same, starts_cons] at afterStarts
      exact absurd afterStarts (otherFree char (by simp))
  | cons char field ih =>
    cases other with
    | nil =>
      rw [nil_append, cons_append] at same
      rw [← same, starts_cons] at restStarts
      exact absurd restStarts (fieldFree char (by simp))
    | cons first other =>
      simp only [cons_append, List.cons.injEq] at same
      obtain ⟨rfl, same⟩ := same
      obtain ⟨rfl, rest⟩ := ih same (fun char member => fieldFree char (by simp [member]))
        fun char member => otherFree char (by simp [member])
      exact ⟨rfl, rest⟩

theorem split_last {sep : α} {field other after rest : List α} (same : field ++ sep :: after = other ++ sep :: rest)
    (afterFree : sep ∉ after) (restFree : sep ∉ rest) : field = other ∧ after = rest := by
  have reversed := congrArg List.reverse same
  simp only [reverse_append, reverse_cons, append_assoc, singleton_append] at reversed
  obtain ⟨sameAfter, sameField⟩ := @split α (fun char => char = sep) _ _ _ _ reversed
    (fun char member equal => afterFree (equal ▸ mem_reverse.mp member))
    (fun char member equal => restFree (equal ▸ mem_reverse.mp member)) (by simp) (by simp)
  refine ⟨reverse_injective ?_, reverse_injective sameAfter⟩
  exact (List.cons.inj sameField).2

theorem skip {sep : α} {field after front rest : List α} (same : field ++ after = front ++ sep :: rest) (free : sep ∉ field) :
    ∃ more, front = field ++ more ∧ after = more ++ sep :: rest := by
  rcases append_eq_append_iff.mp same with ⟨more, fronts, rests⟩ | ⟨more, fields, rests⟩
  · exact ⟨more, fronts, rests⟩
  · cases more with
    | nil => exact ⟨[], by simpa using fields.symm, by simpa using rests.symm⟩
    | cons first more =>
      obtain ⟨rfl, -⟩ := List.cons.inj rests
      exact absurd (by simp [fields]) free

theorem intercalate_injective [DecidableEq α] {sep : α} {fields others : List (List α)}
    (free : ∀ field ∈ fields, sep ∉ field) (otherFree : ∀ field ∈ others, sep ∉ field)
    (some : fields ≠ []) (otherSome : others ≠ [])
    (same : [sep].intercalate fields = [sep].intercalate others) : fields = others := by
  rw [← splitOn_intercalate sep free some, same, splitOn_intercalate sep otherFree otherSome]

theorem intercalate_append {sep : List α} {fields others : List (List α)} (some : fields ≠ []) (otherSome : others ≠ []) :
    sep.intercalate (fields ++ others) = sep.intercalate fields ++ sep ++ sep.intercalate others := by
  induction fields with
  | nil => exact absurd rfl some
  | cons field fields ih =>
    cases fields with
    | nil =>
      obtain ⟨next, -, rfl⟩ := exists_cons_of_ne_nil otherSome
      simp
    | cons next fields =>
      rw [cons_append, cons_append, intercalate_cons_cons, intercalate_cons_cons, ← cons_append,
        ih (by simp)]
      simp

theorem mem_intercalate {sep char : α} {fields : List (List α)} (member : char ∈ [sep].intercalate fields) :
    char = sep ∨ ∃ field ∈ fields, char ∈ field := by
  induction fields with
  | nil => simp at member
  | cons field fields ih =>
    cases fields with
    | nil => exact .inr ⟨field, by simp, by simpa using member⟩
    | cons next fields =>
      rw [intercalate_cons_cons, append_assoc, mem_append, singleton_append, mem_cons] at member
      rcases member with here | rfl | later
      · exact .inr ⟨field, by simp, here⟩
      · exact .inl rfl
      · rcases ih later with same | ⟨other, listed, holds⟩
        · exact .inl same
        · exact .inr ⟨other, by simp [mem_cons.mp listed], holds⟩

/-! Texts cut at a separator. -/

theorem splitOn_of_notMem [BEq α] [LawfulBEq α] {sep : α} {field : List α} (absent : sep ∉ field) : field.splitOn sep = [field] := by
  simpa using @splitOn_intercalate _ [field] _ _ sep (by simpa using absent) (by simp)

theorem splitOn_flatMap [BEq α] [LawfulBEq α] (sep : α) (fields : List (List α)) (rest : List α) :
    (fields.flatMap (· ++ [sep]) ++ rest).splitOn sep = fields.flatMap (·.splitOn sep) ++ rest.splitOn sep := by
  induction fields with
  | nil => rfl
  | cons field fields ih =>
    rw [flatMap_cons, append_assoc, append_assoc, singleton_append, splitOn_append_cons_self, ih,
      flatMap_cons, append_assoc]

theorem splitOn_fields [BEq α] [LawfulBEq α] {sep : α} {fields : List (List α)} (plain : ∀ field ∈ fields, sep ∉ field) (rest : List α) :
    (fields.flatMap (· ++ [sep]) ++ rest).splitOn sep = fields ++ rest.splitOn sep := by
  have single := flatMap_congr fun field member => splitOn_of_notMem (plain field member)
  rw [splitOn_flatMap, single, flatMap_singleton']

theorem length_splitOn_pos [BEq α] (sep : α) (field : List α) : 0 < (field.splitOn sep).length :=
  length_pos_iff.mpr (splitOn_ne_nil _ _)

theorem length_flatMap_splitOn [BEq α] (sep : α) (fields : List (List α)) :
    fields.length ≤ (fields.flatMap (·.splitOn sep)).length := by
  induction fields with
  | nil => simp
  | cons field fields ih =>
    have positive := length_splitOn_pos sep field
    rw [flatMap_cons, length_append, length_cons]
    omega

theorem length_lt_splitOn [BEq α] [LawfulBEq α] (sep : α) (fields : List (List α)) (rest : List α) :
    fields.length < ((fields.flatMap (· ++ [sep]) ++ rest).splitOn sep).length := by
  have each := length_flatMap_splitOn sep fields
  have last := length_splitOn_pos sep rest
  rw [splitOn_flatMap, length_append]
  omega

/-! Numerals. -/

theorem mem_toDigits {base : Nat} (large : 1 < base) {number : Nat} {char : Char} (member : char ∈ base.toDigits number) :
    ∃ digit < base, char = digit.digitChar := by
  induction number using Nat.strongRecOn with
  | ind number ih =>
    rw [Nat.toDigits_eq_if large] at member
    split at member
    next small => exact ⟨number, small, mem_singleton.mp member⟩
    next big =>
      rcases mem_append.mp member with early | last
      · exact ih (number / base) (Nat.div_lt_self (by omega) large) early
      · exact ⟨number % base, Nat.mod_lt _ (by omega), mem_singleton.mp last⟩

theorem digitChar_injective {digit other : Nat} (low : digit < 16) (otherLow : other < 16)
    (same : digit.digitChar = other.digitChar) : digit = other := by
  have all : ∀ digit < 16, ∀ other < 16, digit.digitChar = other.digitChar → digit = other := by decide
  exact all digit low other otherLow same

theorem toDigits_injective {base : Nat} (large : 1 < base) (readable : base ≤ 16) :
    Function.Injective base.toDigits := by
  intro number
  induction number using Nat.strongRecOn with
  | ind number ih =>
    intro other same
    have last : ∀ number, (base.toDigits number).getLast? = some (number % base).digitChar := by
      intro number
      rw [Nat.toDigits_eq_if large]
      split
      next small => simp [Nat.mod_eq_of_lt small]
      next => simp
    have digits : number % base = other % base := by
      have equal := last number
      rw [same, last other] at equal
      have bound : ∀ number, number % base < 16 := fun number => Nat.lt_of_lt_of_le (Nat.mod_lt _ (by omega)) readable
      exact (digitChar_injective (bound other) (bound number) (Option.some.inj equal)).symm
    have leading : ∀ number, (base.toDigits number).dropLast = if number < base then [] else base.toDigits (number / base) := by
      intro number
      rw [Nat.toDigits_eq_if large]
      split <;> simp
    have fronts := congrArg List.dropLast same
    rw [leading, leading] at fronts
    split at fronts
    next small =>
      split at fronts
      next otherSmall => rwa [Nat.mod_eq_of_lt small, Nat.mod_eq_of_lt otherSmall] at digits
      next => exact absurd fronts.symm Nat.toDigits_ne_nil
    next big =>
      split at fronts
      next => exact absurd fronts Nat.toDigits_ne_nil
      next =>
        have quotients := ih (number / base) (Nat.div_lt_self (by omega) large) fronts
        rw [← Nat.div_add_mod number base, ← Nat.div_add_mod other base, quotients, digits]

theorem repr_isDigit {number : Nat} {char : Char} (member : char ∈ number.repr.toList) : char.isDigit = true := by
  rw [Nat.toList_repr] at member
  exact Nat.isDigit_of_mem_toDigits (by decide) (by decide) member

theorem repr_ne_nil (number : Nat) : number.repr.toList ≠ [] := by
  rw [Nat.toList_repr]
  exact Nat.toDigits_ne_nil

theorem repr_injective {number other : Nat} (same : number.repr.toList = other.repr.toList) : number = other := by
  rw [Nat.toList_repr, Nat.toList_repr] at same
  exact toDigits_injective (by decide) (by decide) same

theorem repr_split {number other : Nat} {after rest : List Char}
    (same : number.repr.toList ++ after = other.repr.toList ++ rest) (afterStarts : Starts (·.isDigit = false) after)
    (restStarts : Starts (·.isDigit = false) rest) : number = other ∧ after = rest := by
  obtain ⟨digits, sameAfter⟩ := split same (fun char member => by simp [repr_isDigit member])
    (fun char member => by simp [repr_isDigit member]) afterStarts restStarts
  exact ⟨repr_injective digits, sameAfter⟩

private theorem repr_append_ne_sign (number : Nat) (after rest : List Char) : number.repr.toList ++ after ≠ '-' :: rest := by
  intro same
  cases digits : number.repr.toList with
  | nil => exact repr_ne_nil number digits
  | cons char more =>
    have digit := @repr_isDigit number char (by simp [digits])
    rw [digits, cons_append, List.cons.injEq] at same
    rw [same.1] at digit
    exact absurd digit (by decide)

private theorem int_repr_negSucc (number : Nat) : (Int.negSucc number).repr.toList = '-' :: (number + 1).repr.toList := by
  rw [show (Int.negSucc number).repr = "-" ++ (number + 1).repr from rfl, String.toList_append]
  rfl

theorem mem_int_repr {number : Int} {char : Char} (member : char ∈ number.repr.toList) : char.isDigit = true ∨ char = '-' := by
  cases number with
  | ofNat number => exact .inl (@repr_isDigit number char member)
  | negSucc number =>
    rw [int_repr_negSucc, mem_cons] at member
    rcases member with sign | digits
    · exact .inr sign
    · exact .inl (repr_isDigit digits)

theorem int_repr_split {number other : Int} {after rest : List Char}
    (same : number.repr.toList ++ after = other.repr.toList ++ rest) (afterStarts : Starts (·.isDigit = false) after)
    (restStarts : Starts (·.isDigit = false) rest) : number = other ∧ after = rest := by
  cases number with
  | ofNat number =>
    cases other with
    | ofNat other =>
      obtain ⟨rfl, sameAfter⟩ := repr_split same afterStarts restStarts
      exact ⟨rfl, sameAfter⟩
    | negSucc other =>
      rw [int_repr_negSucc] at same
      exact absurd same (repr_append_ne_sign number after _)
  | negSucc number =>
    cases other with
    | ofNat other =>
      rw [int_repr_negSucc] at same
      exact absurd same.symm (repr_append_ne_sign other rest _)
    | negSucc other =>
      rw [int_repr_negSucc, int_repr_negSucc, cons_append, cons_append, List.cons.injEq] at same
      obtain ⟨digits, sameAfter⟩ := repr_split same.2 afterStarts restStarts
      exact ⟨by rw [Nat.succ.inj digits], sameAfter⟩

end Library.Text
