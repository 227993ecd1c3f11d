/-! Text cut into lines: the lines that have ended, without their ends, and what is left
over. The cut can be resumed where it stopped. -/

namespace Library.Lines

variable {α : Type} {ends : α → Bool}

/-- The lines of a text that continues the line `held`, and the line it leaves open. -/
def split (ends : α → Bool) : List α → List α → List (List α) × List α
  | held, [] => ([], held)
  | held, char :: text =>
    if ends char then
      let (lines, left) := split ends [] text
      (held :: lines, left)
    else split ends (held ++ [char]) text

theorem split_append (held first second : List α) :
    split ends held (first ++ second) =
      let (lines, left) := split ends held first
      let (more, last) := split ends left second
      (lines ++ more, last) := by
  induction first generalizing held with
  | nil => rfl
  | cons char first ih =>
    by_cases ending : ends char
    · simp [split, ending, ih]
    · simp [split, ending, ih]

theorem split_open {text : List α} (held : List α) (plain : ∀ char ∈ text, ends char = false) :
    split ends held text = ([], held ++ text) := by
  induction text generalizing held with
  | nil => simp [split]
  | cons char text ih =>
    rw [split, plain char (by simp), if_neg (by simp), ih _ (fun other member => plain other (by simp [member]))]
    simp

theorem split_line {line : List α} {char : α} (held text : List α) (plain : ∀ other ∈ line, ends other = false)
    (ending : ends char = true) :
    split ends held (line ++ char :: text) =
      ((held ++ line) :: (split ends [] text).1, (split ends [] text).2) := by
  rw [split_append, split_open held plain]
  simp [split, ending]

theorem plain_of_mem_split {held text line : List α} (plain : ∀ char ∈ held, ends char = false)
    (member : line ∈ (split ends held text).1) : ∀ char ∈ line, ends char = false := by
  induction text generalizing held with
  | nil => simp [split] at member
  | cons char text ih =>
    by_cases ending : ends char
    · simp only [split, ending, if_true, List.mem_cons] at member
      obtain rfl | member := member
      · exact plain
      · exact ih (by simp) member
    · simp only [split, ending] at member
      refine ih (fun other among => ?_) member
      obtain among | rfl := List.mem_append.mp among |>.imp_right List.mem_singleton.mp
      · exact plain other among
      · simpa using ending

theorem forall_cut_cons {said : List α → α → Prop} (item : α) (items : List α) :
    (∀ before found after, item :: items = before ++ found :: after → said before found) ↔
      said [] item ∧ ∀ before found after, items = before ++ found :: after → said (item :: before) found := by
  constructor
  · intro all
    exact ⟨all [] item items rfl, fun before found after cut => all (item :: before) found after (by simp [cut])⟩
  · rintro ⟨first, others⟩ before found after cut
    cases before with
    | nil =>
      obtain ⟨rfl, _⟩ := List.cons.inj cut
      exact first
    | cons head before =>
      obtain ⟨rfl, behind⟩ := List.cons.inj cut
      exact others before found after behind

end Library.Lines
