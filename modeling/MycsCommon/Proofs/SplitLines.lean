import MycsCommon.Utils.SplitString

/-! What a turn of `SplitString` does to the line, and from it when the loop ends and what
becomes of the text. -/

namespace MycsCommon.Utils

variable {line : Line} {skip : UInt8 → Bool} {splitAt : Nat}

def dark (ch : UInt8) : Bool := !isWhitespace ch

/-! The scans. -/

theorem take_drop_succ {ch} (here : (line)[splitAt]? = some ch) (count : Nat) :
    (line.drop splitAt).take (count + 1) = ch :: (line.drop (splitAt + 1)).take count := by
  obtain ⟨inside, rfl⟩ := getElem?_eq_some_iff.mp here
  rw [List.drop_eq_getElem_cons inside, List.take_succ_cons]

theorem forall_mem_parts {holds : UInt8 → Prop} {start first second}
    (one : ∀ ch ∈ (line.drop start).take first, holds ch)
    (two : ∀ ch ∈ (line.drop (start + first)).take second, holds ch) :
    ∀ ch ∈ (line.drop start).take (first + second), holds ch := by
  intro ch member
  rw [List.take_add, List.drop_drop] at member
  obtain here | there := List.mem_append.mp member
  · exact one ch here
  · exact two ch there

theorem scanBack_spec (inside : splitAt < line.length) :
    ∃ stop ≤ splitAt, scanBack line skip splitAt = some stop ∧
      (∀ ch ∈ (line.drop (stop + 1)).take (splitAt - stop), skip ch = true) ∧
      (0 < stop → ∃ ch, (line)[stop]? = some ch ∧ skip ch = false) := by
  induction splitAt with
  | zero => exact ⟨0, Nat.le_refl 0, by simp [scanBack, inside], by simp, by simp⟩
  | succ splitAt ih =>
    have here := List.getElem?_eq_getElem inside
    by_cases skipped : skip (line)[splitAt + 1] = true
    · obtain ⟨stop, low, found, between, stopped⟩ := ih (by omega)
      refine ⟨stop, by omega, by simp [scanBack, here, skipped, found], ?_, stopped⟩
      have longer : splitAt + 1 - stop = splitAt - stop + 1 := by omega
      have place : stop + 1 + (splitAt - stop) = splitAt + 1 := by omega
      rw [longer]
      refine forall_mem_parts between ?_
      rw [place, take_drop_succ here]
      simpa using skipped
    · refine ⟨splitAt + 1, Nat.le_refl _, by simp [scanBack, here, skipped], by simp, fun _ => ⟨_, here, by simpa using skipped⟩⟩

theorem scanForward_ended (ended : splitAt + 1 = line.length) : scanForward line splitAt = some (splitAt + 1) := by
  rw [scanForward, if_pos ended]

theorem scanForward_inside {ch} (here : (line)[splitAt + 1]? = some ch) :
    scanForward line splitAt = if isWhitespace ch then scanForward line (splitAt + 1) else some (splitAt + 1) := by
  have inside := (getElem?_eq_some_iff.mp here).1
  rw [scanForward, if_neg (by omega)]
  split
  next none => rw [here] at none; cases none
  next found same =>
    obtain rfl := Option.some.inj (here.symm.trans same)
    rfl

theorem scanForward_spec (inside : splitAt < line.length) :
    ∃ nextAt, scanForward line splitAt = some nextAt ∧ splitAt < nextAt ∧ nextAt ≤ line.length ∧
      (∀ ch ∈ (line.drop (splitAt + 1)).take (nextAt - (splitAt + 1)), isWhitespace ch = true) ∧
      (nextAt < line.length → ∃ ch, (line)[nextAt]? = some ch ∧ isWhitespace ch = false) := by
  induction left : line.length - splitAt generalizing splitAt with
  | zero => omega
  | succ left ih =>
    by_cases ended : splitAt + 1 = line.length
    · exact ⟨splitAt + 1, scanForward_ended ended, by omega, by omega, by simp, by omega⟩
    · have here : (line)[splitAt + 1]? = some (line)[splitAt + 1] := List.getElem?_eq_getElem (by omega)
      by_cases blank : isWhitespace (line)[splitAt + 1] = true
      · obtain ⟨nextAt, found, later, bounded, between, stopped⟩ := @ih (splitAt + 1) (by omega) (by omega)
        refine ⟨nextAt, by rw [scanForward_inside here, if_pos blank, found], by omega, bounded, ?_, stopped⟩
        have longer : nextAt - (splitAt + 1) = nextAt - (splitAt + 1 + 1) + 1 := by omega
        rw [longer, take_drop_succ here]
        simpa [blank] using between
      · refine ⟨splitAt + 1, by rw [scanForward_inside here, if_neg blank], by omega, by omega, by simp, fun _ => ?_⟩
        exact ⟨_, here, by simpa using blank⟩

namespace Splitting

variable {state : Splitting} {width : Int}

/-- Behind its first byte the line that is too long has only whitespace. -/
def stuck (state : Splitting) : Bool := state.going && state.currentLine.tail.all isWhitespace

/-- Where the scan for the last whitespace within the width stops. -/
def lastBlank (state : Splitting) : Option Nat := scanBack state.currentLine dark state.testWidth.toNat

/-- The line that is too long begins with a word, but the scan over the whitespace in front of a
break runs down to its first byte. -/
def Drops (state : Splitting) : Prop :=
  state.going = true ∧ state.currentLine[0]?.any dark = true ∧
    ∃ splitAt, 0 < splitAt ∧ state.lastBlank = some splitAt ∧ scanBack state.currentLine isWhitespace splitAt = some 0

/-- What a turn can do with a line that is too long. -/
inductive Turns (width : Nat) (state : Splitting) : Splitting → Prop where
  /-- no whitespace to break at -/
  | broken (none : state.lastBlank = some 0) (solid : state.currentLine[1]?.any dark) :
      Turns width state ⟨state.lines ++ [state.currentLine.take width], state.currentLine.drop width, width⟩
  /-- nothing but whitespace up to the last one within the width, but for the first byte -/
  | cut (splitAt nextAt : Nat) (positive : 0 < splitAt) (last : state.lastBlank = some splitAt)
      (back : scanBack state.currentLine isWhitespace splitAt = some 0) (later : splitAt < nextAt)
      (blank : ((state.currentLine.drop 1).take (nextAt - 1)).all isWhitespace) (next : state.currentLine[nextAt]?.any dark) :
      Turns width state { state with currentLine := state.currentLine.drop nextAt, testWidth := width }
  /-- nor anything behind it -/
  | stays (blank : state.currentLine.tail.all isWhitespace) : Turns width state { state with testWidth := width }
  | split (splitAt place nextAt : Nat) (last : state.lastBlank = some splitAt)
      (back : scanBack state.currentLine isWhitespace splitAt = some place) (positive : 0 < place)
      (near : place < state.testWidth.toNat) (later : place + 1 < nextAt) (word : state.currentLine[place]?.any dark)
      (blank : ((state.currentLine.drop (place + 1)).take (nextAt - (place + 1))).all isWhitespace) :
      Turns width state ⟨state.lines ++ [state.currentLine.take (place + 1)], state.currentLine.drop nextAt, width⟩
  | trimmed (splitAt place : Nat) (last : state.lastBlank = some splitAt)
      (back : scanBack state.currentLine isWhitespace splitAt = some place) (positive : 0 < place)
      (near : place < state.testWidth.toNat) (word : state.currentLine[place]?.any dark)
      (blank : (state.currentLine.drop (place + 1)).all isWhitespace) :
      Turns width state { state with currentLine := state.currentLine.take (place + 1), testWidth := width }

theorem sliceTo_nat {count} (inside : count ≤ line.length) : sliceTo line count = some (line.take count) := by
  rw [sliceTo, if_pos (by omega), Int.toNat_natCast]

theorem sliceFrom_nat {count} (inside : count ≤ line.length) : sliceFrom line count = some (line.drop count) := by
  rw [sliceFrom, if_pos (by omega), Int.toNat_natCast]

theorem turn_turns {width : Nat} (positive : 0 < width) (wide : (width : Int) ≤ state.testWidth) (going : state.going) :
    ∃ next, state.turn width = some next ∧ Turns width state next := by
  have long : state.testWidth < state.currentLine.length := by simpa [Splitting.going] using going
  have inside : state.testWidth.toNat < state.currentLine.length := by omega
  obtain ⟨splitAt, low, found, solid, stopped⟩ := @scanBack_spec state.currentLine dark _ inside
  have bounded : width ≤ state.currentLine.length := by omega
  unfold turn
  rw [if_neg (by omega), show scanBack state.currentLine (fun ch => !isWhitespace ch) _ = _ from found]
  by_cases some : 0 < splitAt
  · obtain ⟨ch, here, white⟩ := stopped some
    obtain ⟨nextAt, forward, later, fits, blank, next⟩ := @scanForward_spec state.currentLine splitAt (by omega)
    obtain ⟨last, lower, back, between, word⟩ := @scanBack_spec state.currentLine isWhitespace splitAt (by omega)
    have before : last < splitAt := by
      by_contra same
      obtain rfl : last = splitAt := by omega
      obtain ⟨found, again, dark⟩ := word some
      rw [here] at again
      obtain rfl := Option.some.inj again
      simp [Utils.dark, dark] at white
    have around : ∀ ch ∈ (state.currentLine.drop (last + 1)).take (nextAt - (last + 1)), isWhitespace ch = true := by
      have whole : nextAt - (last + 1) = splitAt - last + (nextAt - (splitAt + 1)) := by omega
      have place : last + 1 + (splitAt - last) = splitAt + 1 := by omega
      rw [whole]
      exact forall_mem_parts between (by rwa [place])
    simp only [some, forward, back, if_true, Option.bind_eq_bind, Option.bind_some]
    by_cases first : last = 0
    · subst first
      rw [if_pos rfl]
      by_cases more : nextAt < state.currentLine.length
      · rw [if_pos more, sliceFrom_nat fits]
        obtain ⟨ch, there, dark⟩ := next more
        exact ⟨_, rfl, .cut splitAt nextAt some found back later (by simpa using around) (by simp [there, Utils.dark, dark])⟩
      · rw [if_neg more]
        rw [List.take_of_length_le (by rw [List.length_drop]; omega)] at around
        exact ⟨_, rfl, .stays (by simpa using around)⟩
    · have dark : state.currentLine[last]?.any dark = true := by
        obtain ⟨ch, here, dark⟩ := word (by omega)
        simp [here, Utils.dark, dark]
      have slice : sliceTo state.currentLine ((last : Int) + 1) = _ := @sliceTo_nat state.currentLine (last + 1) (by omega)
      rw [if_neg first, slice]
      simp only [Option.bind_some, breakOut]
      by_cases more : nextAt < state.currentLine.length
      · rw [if_pos more, sliceFrom_nat fits]
        exact ⟨_, rfl, .split splitAt last nextAt found back (by omega) (by omega) (by omega) dark (by simpa using around)⟩
      · rw [if_neg more]
        rw [List.take_of_length_le (by rw [List.length_drop]; omega)] at around
        exact ⟨_, rfl, .trimmed splitAt last found back (by omega) (by omega) dark (by simpa using around)⟩
  · obtain rfl : splitAt = 0 := by omega
    simp only [Option.bind_eq_bind, Option.bind_some, Nat.lt_irrefl, if_false, sliceFrom_nat bounded, sliceTo_nat bounded]
    have here : state.currentLine[1]? = .some state.currentLine[1] := List.getElem?_eq_getElem (by omega)
    have member : state.currentLine[1] ∈ (state.currentLine.drop 1).take (state.testWidth.toNat - 0) := by
      rw [List.mem_iff_getElem?]
      exact ⟨0, by rw [List.getElem?_take_of_lt (by omega), List.getElem?_drop]; exact here⟩
    exact ⟨_, rfl, .broken found (by simp [here, solid _ member])⟩

theorem white_rest {start place} (blank : (line.drop start).all isWhitespace = true) (low : start ≤ place) :
    (line)[place]?.any dark = false := by
  cases here : (line)[place]? with
  | none => rfl
  | some ch =>
    have there : (line.drop start)[place - start]? = some ch := by rw [List.getElem?_drop, Nat.add_sub_cancel' low, here]
    simp [dark, List.all_eq_true.mp blank ch (List.mem_of_getElem? there)]

theorem long_of_going (going : state.going = true) : state.testWidth < state.currentLine.length := by
  simpa [Splitting.going] using going

theorem stuck_iff : state.stuck = true ↔ state.going = true ∧ (state.currentLine.drop 1).all isWhitespace = true := by
  rw [stuck, Bool.and_eq_true, List.drop_one]

section Turns

variable {next : Splitting} {width : Nat} (turn : Turns width state next)
include turn

theorem Turns.testWidth_eq : next.testWidth = width := by
  cases turn <;> rfl

variable (wide : (width : Int) ≤ state.testWidth)
include wide

theorem Turns.stuck (stuck : state.stuck = true) : next.stuck = true := by
  obtain ⟨going, blank⟩ := stuck_iff.mp stuck
  have long := long_of_going going
  have white : ∀ place, 0 < place → state.currentLine[place]?.any dark = true → False := by
    intro place behind word
    rw [white_rest blank behind] at word
    cases word
  cases turn with
  | broken _ solid => exact (white 1 Nat.one_pos solid).elim
  | cut splitAt nextAt positive last back later blank next => exact (white nextAt (by omega) next).elim
  | stays =>
    refine stuck_iff.mpr ⟨?_, blank⟩
    simp only [Splitting.going, decide_eq_true_eq]
    omega
  | split splitAt place nextAt last back positive near later word => exact (white place positive word).elim
  | trimmed splitAt place last back positive near word => exact (white place positive word).elim

theorem Turns.shorter (positive : 0 < width) (going : state.going = true) (free : state.stuck = false) :
    next.currentLine.length < state.currentLine.length := by
  have long := long_of_going going
  cases turn with
  | broken | cut splitAt nextAt | split splitAt place nextAt => simp only [List.length_drop]; omega
  | stays blank => simp [Splitting.stuck, going, blank] at free
  | trimmed splitAt place => simp only [List.length_take]; omega

end Turns

def text (state : Splitting) : Line := (state.lines.flatten ++ state.currentLine).filter dark

theorem filter_gap {start stop} (order : start ≤ stop)
    (blank : ((line.drop start).take (stop - start)).all isWhitespace = true) :
    line.filter dark = (line.take start).filter dark ++ (line.drop stop).filter dark := by
  have gap : ((line.drop start).take (stop - start)).filter dark = [] := by
    refine List.filter_eq_nil_iff.mpr fun ch member => ?_
    simp [dark, List.all_eq_true.mp blank ch member]
  have rest : line.drop start = (line.drop start).take (stop - start) ++ line.drop stop := by
    rw [← Nat.add_sub_cancel' order, ← List.drop_drop, Nat.add_sub_cancel_left, List.take_append_drop]
  calc line.filter dark = (line.take start ++ line.drop start).filter dark := by rw [List.take_append_drop]
    _ = (line.take start).filter dark ++ (line.drop start).filter dark := List.filter_append ..
    _ = (line.take start).filter dark ++ (line.drop stop).filter dark := by
      rw [rest, List.filter_append, gap, List.nil_append]

theorem filter_rest {start} (blank : (line.drop start).all isWhitespace = true) :
    line.filter dark = (line.take start).filter dark := by
  have whole : (line.drop start).take (start + line.length - start) = line.drop start :=
    List.take_of_length_le (by rw [List.length_drop]; omega)
  rw [filter_gap (Nat.le_add_right start line.length) (by rw [whole]; exact blank),
    List.drop_of_length_le (by omega), List.filter_nil, List.append_nil]

theorem filter_first : (line.take 1).filter dark = if (line)[0]?.any dark then line.take 1 else [] := by
  cases line with
  | nil => rfl
  | cons ch line => cases kind : dark ch <;> simp [kind]

section Text

variable {next : Splitting} {width : Nat} (turn : Turns width state next)
include turn

theorem Turns.text_eq (going : state.going = true) (kept : ¬ state.Drops) : next.text = state.text := by
  cases turn with
  | broken => simp [text]
  | cut splitAt nextAt positive last back later blank =>
    have light : ¬ state.currentLine[0]?.any dark = true := fun word => kept ⟨going, word, splitAt, positive, last, back⟩
    simp [text, filter_gap (by omega : 1 ≤ nextAt) blank, filter_first, light]
  | stays => rfl
  | split splitAt place nextAt last back positive near later word blank =>
    simp [text, filter_gap (by omega : place + 1 ≤ nextAt) blank]
  | trimmed splitAt place last back positive near word blank => simp [text, filter_rest blank]

theorem Turns.text_shorter (free : state.stuck = false) (drops : state.Drops) : next.text.length < state.text.length := by
  obtain ⟨going, first, splitAt, behind, found, down⟩ := drops
  cases turn with
  | broken none =>
    cases found.symm.trans none
    exact absurd behind (Nat.lt_irrefl 0)
  | cut splitAt nextAt positive last back later blank =>
    have one : (state.currentLine.take 1).length = 1 := by
      cases line : state.currentLine with
      | nil => simp [line] at first
      | cons => rfl
    simp only [text, List.filter_append, List.length_append, filter_gap (by omega : 1 ≤ nextAt) blank, filter_first, first,
      if_true, one]
    omega
  | stays blank => simp [Splitting.stuck, going, blank] at free
  | split splitAt place nextAt last back positive | trimmed splitAt place last back positive =>
    cases found.symm.trans last
    cases down.symm.trans back
    exact absurd positive (Nat.lt_irrefl 0)

end Text

end Splitting

/-! The loop. -/

section Loop

open Splitting

variable {state next : Splitting} {width : Nat} {turns : Nat}

theorem splitLoop_going (going : state.going = true) (turned : state.turn width = some next) :
    splitLoop width (turns + 1) state = splitLoop width turns next := by
  simp [splitLoop, going, turned]

theorem splitLoop_ended (ended : state.going = false) :
    splitLoop width (turns + 1) state = .returned (state.lines ++ [state.currentLine]) := by
  simp [splitLoop, ended]

def SplitOutcome.andThen (outcome : SplitOutcome) (further : Splitting → SplitOutcome) : SplitOutcome :=
  match outcome with
  | .running state => further state
  | outcome => outcome

theorem splitLoop_add (earlier more : Nat) :
    splitLoop width (earlier + more) state = (splitLoop width earlier state).andThen (splitLoop width more) := by
  induction earlier generalizing state with
  | zero => rw [Nat.zero_add, splitLoop, SplitOutcome.andThen]
  | succ earlier ih =>
    rw [Nat.add_right_comm]
    simp only [splitLoop]
    split
    · split
      · rfl
      · exact ih
    · rfl

variable (positive : 0 < width) (wide : (width : Int) ≤ state.testWidth)
include positive wide

/-- A property of the state before a turn that every turn keeps holds when the loop has run on, and
of the state it returned from. -/
theorem splitLoop_invariant {kept : Splitting → Prop}
    (step : ∀ state next, Turns width state next → (width : Int) ≤ state.testWidth → kept state → kept next)
    (holds : kept state) (turns : Nat) :
    (∃ last, splitLoop width turns state = .running last ∧ (width : Int) ≤ last.testWidth ∧ kept last) ∨
      ∃ last, splitLoop width turns state = .returned (last.lines ++ [last.currentLine]) ∧ last.going = false ∧ kept last := by
  induction turns generalizing state with
  | zero => exact .inl ⟨state, rfl, wide, holds⟩
  | succ turns ih =>
    cases going : state.going with
    | false => exact .inr ⟨state, splitLoop_ended going, going, holds⟩
    | true =>
      obtain ⟨next, turned, turn⟩ := turn_turns positive wide going
      rw [splitLoop_going going turned]
      exact ih (by rw [turn.testWidth_eq]) (step state next turn wide holds)

theorem splitLoop_stuck (stuck : state.stuck = true) (turns : Nat) : ∃ last, splitLoop width turns state = .running last := by
  obtain ⟨last, running, -⟩ | ⟨last, -, ended, still⟩ :=
    splitLoop_invariant positive wide (fun _ _ turn wide stuck => turn.stuck wide stuck) stuck turns
  · exact ⟨last, running⟩
  · rw [(stuck_iff.mp still).1] at ended
    cases ended

theorem splitLoop_returns (free : ∀ turns last, splitLoop width turns state = .running last → last.stuck = false) :
    ∃ turns lines, splitLoop width turns state = .returned lines := by
  induction size : state.currentLine.length using Nat.strongRecOn generalizing state with
  | _ size ih =>
    cases going : state.going with
    | false => exact ⟨1, _, splitLoop_ended going⟩
    | true =>
      obtain ⟨next, turned, turn⟩ := turn_turns positive wide going
      have less := turn.shorter wide positive going (free 0 state rfl)
      obtain ⟨turns, lines, returned⟩ := ih _ (size ▸ less) (by rw [turn.testWidth_eq])
        (fun turns last running => free (turns + 1) last (by rw [splitLoop_going going turned, running])) rfl
      exact ⟨turns + 1, lines, by rw [splitLoop_going going turned, returned]⟩

theorem splitLoop_text {lines} (returned : splitLoop width turns state = .returned lines)
    (free : ∀ earlier last, splitLoop width earlier state = .running last → last.stuck = false) :
    (lines.flatten.filter dark).length ≤ state.text.length ∧
      (lines.flatten.filter dark = state.text ↔ ∀ earlier last, splitLoop width earlier state = .running last → ¬ last.Drops) := by
  induction turns generalizing state with
  | zero => cases returned
  | succ turns ih =>
    cases going : state.going with
    | false =>
      rw [splitLoop_ended going] at returned
      obtain rfl := SplitOutcome.returned.inj returned
      have same : (state.lines ++ [state.currentLine]).flatten.filter dark = state.text := by simp [text]
      refine ⟨Nat.le_of_eq (congrArg List.length same), iff_of_true same fun earlier last running drops => ?_⟩
      cases earlier with
      | zero =>
        obtain rfl := SplitOutcome.running.inj running
        rw [drops.1] at going
        cases going
      | succ earlier =>
        rw [splitLoop_ended going] at running
        cases running
    | true =>
      obtain ⟨next, turned, turn⟩ := turn_turns positive wide going
      rw [splitLoop_going going turned] at returned
      obtain ⟨less, same⟩ := ih (by rw [turn.testWidth_eq]) returned fun earlier last running =>
        free (earlier + 1) last (by rw [splitLoop_going going turned, running])
      by_cases drops : state.Drops
      · have lost := turn.text_shorter (free 0 state rfl) drops
        refine ⟨by omega, iff_of_false (fun kept => ?_) fun kept => kept 0 state rfl drops⟩
        rw [kept] at less
        omega
      · rw [← turn.text_eq going drops]
        refine ⟨less, same.trans ⟨fun kept earlier last running => ?_, fun kept earlier last running => ?_⟩⟩
        · cases earlier with
          | zero => exact SplitOutcome.running.inj running ▸ drops
          | succ earlier => exact kept earlier last (by rw [← splitLoop_going going turned, running])
        · exact kept (earlier + 1) last (by rw [splitLoop_going going turned, running])

end Loop

/-- The lines are within their widths, and so will the next one be. -/
def Fits (indent width : Int) (state : Splitting) : Prop :=
  (∀ i line, state.lines[i]? = some line → (line.length : Int) ≤ if i = 0 then width + indent else width) ∧
    state.testWidth ≤ if state.lines.length = 0 then width + indent else width

section Widths

open Splitting

variable {indent : Int} {width : Nat} {state next : Splitting} {line : Line}

theorem Fits.push (fits : Fits indent width state) (short : (line.length : Int) ≤ state.testWidth) (i : Nat) (other : Line)
    (here : (state.lines ++ [line])[i]? = some other) : (other.length : Int) ≤ if i = 0 then width + indent else width := by
  by_cases before : i < state.lines.length
  · rw [List.getElem?_append_left before] at here
    exact fits.1 i other here
  · have last := (List.getElem?_eq_some_iff.mp here).1
    rw [List.length_append, List.length_singleton] at last
    obtain rfl : i = state.lines.length := by omega
    rw [List.getElem?_concat_length] at here
    obtain rfl := Option.some.inj here
    exact Int.le_trans short fits.2

theorem Fits.turns (level : 0 ≤ indent) (wide : (width : Int) ≤ state.testWidth) (turn : Turns width state next)
    (fits : Fits indent width state) : Fits indent width next := by
  have room : ∀ lines : List Line, (width : Int) ≤ if lines.length = 0 then width + indent else width := by
    intro lines
    split <;> omega
  cases turn with
  | broken | split splitAt place => exact ⟨fits.push (by simp only [List.length_take]; omega), room _⟩
  | cut | stays | trimmed => exact ⟨fits.1, room _⟩

end Widths

section SplitString

open Splitting

variable {input : Line} {indent width : Int64} {turns : Nat} {lines : List Line}

/-- The sum of the indent and the width is an `int`. -/
def Fitting (indent width : Int64) : Prop := indent.toInt + width.toInt < 2 ^ 63

theorem splitString_overflows (positive : 0 < width.toInt) (overflows : ¬ Fitting indent width) (turns : Nat) :
    splitString input indent width (turns + 1) = .panicked := by
  have bounds := And.intro indent.toInt_lt width.toInt_lt
  have negative : (splitStart input indent width).testWidth < 0 := by
    simp only [Fitting, Int.not_lt] at overflows
    rw [splitStart, if_pos (Int64.lt_iff_toInt_lt.mpr (by rw [Int64.toInt_zero]; omega)), Int64.toInt_add]
    simp only [Int.bmod]
    omega
  have going : (splitStart input indent width).going = true := by
    rw [Splitting.going, decide_eq_true_eq]
    omega
  rw [splitString, splitLoop, if_pos going, turn]
  simp only [if_pos negative]

theorem fitting_of_returned (positive : 0 < width.toInt) (returned : splitString input indent width turns = .returned lines) :
    Fitting indent width := by
  by_contra overflows
  cases turns with
  | zero => cases returned
  | succ turns => cases (splitString_overflows positive overflows turns).symm.trans returned

variable {size : Nat} (positive : 0 < size) (same : width.toInt = size)
include positive same

theorem splitStart_testWidth (fitting : Fitting indent width) :
    (splitStart input indent width).testWidth = if 0 < indent.toInt then size + indent.toInt else size := by
  simp only [splitStart, Int64.lt_iff_toInt_lt, Int64.toInt_zero, ← same]
  split
  · rw [Int64.toInt_add, Int.bmod_eq_of_le] <;> simp only [Fitting] at fitting <;> omega
  · rfl

theorem splitStart_wide (fitting : Fitting indent width) (input : Line) :
    (size : Int) ≤ (splitStart input indent width).testWidth := by
  rw [splitStart_testWidth positive same fitting]
  split <;> omega

theorem splitString_free {state earlier} (returned : splitString input indent width turns = .returned lines)
    (running : splitString input indent width earlier = .running state) : state.stuck = false := by
  have wide := splitStart_wide positive same (fitting_of_returned (by omega) returned) input
  rw [splitString, same] at returned running
  by_contra stuck
  obtain ⟨last, again, wide, -⟩ | ⟨last, again, -⟩ :=
    splitLoop_invariant positive wide (fun _ _ _ _ _ => trivial) trivial earlier
  · obtain rfl := SplitOutcome.running.inj (again.symm.trans running)
    obtain ⟨further, still⟩ := splitLoop_stuck positive wide (by simpa using stuck) turns
    have whole : splitLoop size (earlier + turns) (splitStart input indent width) = .running further := by
      rw [splitLoop_add, running, SplitOutcome.andThen, still]
    rw [Nat.add_comm, splitLoop_add, returned] at whole
    cases whole
  · cases again.symm.trans running

theorem splitString_widths (level : 0 ≤ indent.toInt) (returned : splitString input indent width turns = .returned lines) (i : Nat)
    (line : Line) (here : lines[i]? = some line) : (line.length : Int) ≤ if i = 0 then width.toInt + indent.toInt else width.toInt := by
  have fitting := fitting_of_returned (by omega) returned
  have start : Fits indent.toInt size (splitStart input indent width) := by
    refine ⟨by simp [splitStart], ?_⟩
    rw [splitStart_testWidth positive same fitting]
    simp only [splitStart, List.length_nil, if_true]
    split <;> omega
  rw [splitString, same] at returned
  rw [same]
  obtain ⟨last, running, -⟩ | ⟨last, again, ended, fits⟩ :=
    splitLoop_invariant positive (splitStart_wide positive same fitting input) (fun _ _ turn wide => Fits.turns level wide turn)
      start turns
  · cases running.symm.trans returned
  · obtain rfl := SplitOutcome.returned.inj (again.symm.trans returned)
    have short : (last.currentLine.length : Int) ≤ last.testWidth := by simpa [going] using ended
    exact fits.push short i line here

theorem splitString_text_iff (returned : splitString input indent width turns = .returned lines) :
    lines.flatten.filter dark = input.filter dark ↔
      ∀ earlier state, splitString input indent width earlier = .running state → ¬ state.Drops := by
  have start : (splitStart input indent width).text = input.filter dark := by simp [splitStart, text]
  have wide := splitStart_wide positive same (fitting_of_returned (by omega) returned) input
  have free := fun earlier state => @splitString_free _ _ _ _ _ _ positive same state earlier returned
  simp only [splitString, same] at returned free ⊢
  rw [← start]
  exact (splitLoop_text positive wide returned free).2

omit positive same in
theorem joinLines_filter (indent : Int64) (padFirstIndent first : Bool) (lines : List Line) :
    (joinLines indent padFirstIndent first lines).filter dark = lines.flatten.filter dark := by
  induction lines generalizing first with
  | nil => rfl
  | cons line lines ih =>
    have pad : (if 0 < indent ∧ (padFirstIndent || !first) = true then List.replicate indent.toInt.toNat (32 : UInt8) else []).filter dark =
        [] := by
      split
      · exact List.filter_eq_nil_iff.mpr fun ch member => by rw [List.eq_of_mem_replicate member]; decide
      · rfl
    have newline : (if lines.isEmpty = true then [] else [(10 : UInt8)]).filter dark = [] := by
      split
      · rfl
      · decide
    simp only [joinLines, List.filter_append, pad, newline, ih, List.nil_append, List.append_nil, List.flatten_cons]

end SplitString

/-- The index is never outside of the line, unless the sum of the width and the indent overflows, and
the loop ends unless it comes to a line that is too long and has only whitespace behind its first byte. -/
theorem splitString_returns_iff (input : Line) (indent width : Int64) (positive : 1 ≤ width.toInt) :
    ((∀ turns, splitString input indent width turns ≠ .panicked) ↔ Fitting indent width) ∧
      ((∃ turns lines, splitString input indent width turns = .returned lines) ↔
        Fitting indent width ∧ ∀ turns state, splitString input indent width turns = .running state → state.stuck = false) := by
  obtain ⟨size, same⟩ := Int.eq_ofNat_of_zero_le (by omega : 0 ≤ width.toInt)
  have positive : 0 < size := by omega
  refine ⟨⟨fun calm => ?_, fun fitting turns panicked => ?_⟩, fun ended => ?_, fun both => ?_⟩
  · by_contra overflows
    exact calm 1 (splitString_overflows (by omega) overflows 0)
  · rw [splitString, same] at panicked
    obtain ⟨last, running, -⟩ | ⟨last, returned, -⟩ :=
      splitLoop_invariant positive (splitStart_wide positive same fitting input) (fun _ _ _ _ _ => trivial) trivial turns
    · cases running.symm.trans panicked
    · cases returned.symm.trans panicked
  · obtain ⟨turns, lines, returned⟩ := ended
    exact ⟨fitting_of_returned (by omega) returned, fun _ _ => splitString_free positive same returned⟩
  · obtain ⟨fitting, free⟩ := both
    simp only [splitString, same] at free ⊢
    exact splitLoop_returns positive (splitStart_wide positive same fitting input) free

theorem splitString_returns_words :
    splitString "ab cd".toUTF8.toList 0 3 2 = .returned ["ab".toUTF8.toList, "cd".toUTF8.toList] ∧
      ∀ turns state, splitString "ab cd".toUTF8.toList 0 3 turns = .running state → state.stuck = false :=
  have returned : splitString "ab cd".toUTF8.toList 0 3 2 = .returned ["ab".toUTF8.toList, "cd".toUTF8.toList] := by
    decide +kernel
  ⟨returned, ((splitString_returns_iff "ab cd".toUTF8.toList 0 3 (by decide)).2.mp ⟨2, _, returned⟩).2⟩

/-- Four spaces are too long for a width of two, and are never made shorter. -/
theorem splitString_spaces_forever :
    ¬ ∃ turns lines, splitString "    ".toUTF8.toList 0 2 turns = .returned lines := by
  intro ended
  obtain ⟨turns, lines, returned⟩ := ended
  obtain ⟨last, running⟩ := @splitLoop_stuck (splitStart "    ".toUTF8.toList 0 2) 2 (by decide) (by decide) (by decide +kernel) turns
  cases running.symm.trans returned

/-- The lines are within their widths. All that is not whitespace is in them, and in the text that
is formatted from them, unless the loop came to a line with a word of one byte that it drops. -/
theorem splitString_keeps_text_iff (input : Line) (indent width : Int64) (level : 0 ≤ indent.toInt) (positive : 1 ≤ width.toInt) :
    (∀ turns lines, splitString input indent width turns = .returned lines →
      (∀ i line, lines[i]? = some line → (line.length : Int) ≤ if i = 0 then width.toInt + indent.toInt else width.toInt) ∧
      (lines.flatten.filter dark = input.filter dark ↔
        ∀ earlier state, splitString input indent width earlier = .running state → ¬ state.Drops)) ∧
    ∀ outerIndent outerWidth padFirstIndent splitEven,
      splitArguments outerIndent outerWidth padFirstIndent splitEven = (indent, width) →
      ∀ turns shown several,
        formatMultilineString input outerIndent outerWidth padFirstIndent splitEven turns = some (shown, several) →
        (shown.filter dark = input.filter dark ↔
          ∀ earlier state, splitString input indent width earlier = .running state → ¬ state.Drops) := by
  obtain ⟨size, same⟩ := Int.eq_ofNat_of_zero_le (by omega : 0 ≤ width.toInt)
  have positive : 0 < size := by omega
  constructor
  · intro turns lines returned
    exact ⟨splitString_widths positive same level returned, splitString_text_iff positive same returned⟩
  · intro outerIndent outerWidth padFirstIndent splitEven arguments turns shown several formatted
    simp only [formatMultilineString, arguments] at formatted
    split at formatted
    next lines returned =>
      obtain ⟨rfl, -⟩ := Prod.mk.inj (Option.some.inj formatted)
      rw [joinLines_filter]
      exact splitString_text_iff positive same returned
    next => cases formatted

theorem splitString_keeps_text_words :
    splitString "ab cd".toUTF8.toList 0 3 2 = .returned ["ab".toUTF8.toList, "cd".toUTF8.toList] ∧
      ∀ earlier state, splitString "ab cd".toUTF8.toList 0 3 earlier = .running state → ¬ state.Drops :=
  have returned : splitString "ab cd".toUTF8.toList 0 3 2 = .returned ["ab".toUTF8.toList, "cd".toUTF8.toList] := by
    decide +kernel
  ⟨returned, ((splitString_keeps_text_iff "ab cd".toUTF8.toList 0 3 (by decide) (by decide)).1 2 _ returned).2.mp (by decide +kernel)⟩

/-- The word in front of the space is taken for whitespace. -/
theorem splitString_drops_word :
    splitString "a bcd".toUTF8.toList 0 3 2 = .returned ["bcd".toUTF8.toList] ∧
      formatMultilineString "a bcd".toUTF8.toList 0 3 false false 2 = some ("bcd".toUTF8.toList, false) := by
  decide +kernel

end MycsCommon.Utils
