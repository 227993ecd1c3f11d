import MycsCommon.Proofs.FilterLines
import Mathlib.Logic.Function.Basic

/-! A filter that was used and cleared, against a fresh one. `ClearPatterns` empties the lists
but leaves the flags that tell which patterns there are, so a filter can come to ask for an
include pattern it does not have, or go on judging lines a fresh one would pass. -/

namespace MycsCommon.Streams
open Library.Lines Streams.Filter FilterWriter

/-- A filter in use by any number of writers, each with a line it holds back. -/
structure SharedFilter (σ : Type) where
  filter : Filter
  held : Nat → List UInt8
  output : σ

inductive FilterEvent where
  | config (call : ConfigCall)
  | clearPatterns
  | write (writer : Nat) (data : List UInt8)
  | close (writer : Nat)

def FilterEvent.apply {σ ε : Type} (sinks : Nat → Writer σ ε) (shared : SharedFilter σ) : FilterEvent → SharedFilter σ
  | .config call => { shared with filter := call.apply shared.filter }
  | .clearPatterns => { shared with filter := shared.filter.clearPatterns }
  | .write index data =>
    let (_, writer, output) := FilterWriter.write (sinks index) data ⟨shared.held index, shared.filter⟩ shared.output
    { filter := writer.filter, held := Function.update shared.held index writer.currentLine, output }
  | .close index =>
    let (writer, output) := FilterWriter.close (sinks index) ⟨shared.held index, shared.filter⟩ shared.output
    { filter := writer.filter, held := Function.update shared.held index writer.currentLine, output }

/-- The filter after a history of calls on it and on its writers. -/
def usedFilter {σ ε : Type} (sinks : Nat → Writer σ ε) (output : σ) (history : List FilterEvent) : Filter :=
  (history.foldl (FilterEvent.apply sinks) ⟨{}, fun _ => [], output⟩).filter

theorem textLines_line {line} (plain : newline ∉ line) (stream : List UInt8) :
    textLines [] (line ++ newline :: stream) = (line :: (textLines [] stream).1, (textLines [] stream).2) :=
  split_line [] stream (fun _ among => beq_false_of_ne (fun same => plain (same ▸ among))) (beq_self_eq_true newline)

theorem newline_not_mem_textLines {stream line} (member : line ∈ (textLines [] stream).1) : newline ∉ line := by
  intro among
  simpa using plain_of_mem_split (by simp) member newline among

namespace Filter

/-- A filter is like a fresh one but for flags that were set before. -/
structure Resembles (used stale fresh : Filter) : Prop where
  state : stale.state = fresh.state
  excludeAfterPatterns : stale.excludeAfterPatterns = fresh.excludeAfterPatterns
  includeAfterPatterns : stale.includeAfterPatterns = fresh.includeAfterPatterns
  excludePatterns : stale.excludePatterns = fresh.excludePatterns
  includePatterns : stale.includePatterns = fresh.includePatterns
  hasExcludeAfterPatterns : stale.hasExcludeAfterPatterns = (used.hasExcludeAfterPatterns || fresh.hasExcludeAfterPatterns)
  hasIncludeAfterPatterns : stale.hasIncludeAfterPatterns = (used.hasIncludeAfterPatterns || fresh.hasIncludeAfterPatterns)
  hasExcludePatterns : stale.hasExcludePatterns = (used.hasExcludePatterns || fresh.hasExcludePatterns)
  hasIncludePatterns : stale.hasIncludePatterns = (used.hasIncludePatterns || fresh.hasIncludePatterns)

variable {used stale fresh : Filter}

theorem Resembles.apply (same : Resembles used stale fresh) (call : PatternCall) :
    Resembles used (call.apply stale) (call.apply fresh) := by
  obtain ⟨state, ea, ia, e, i, hea, hia, he, hi⟩ := same
  cases call <;> constructor <;>
    simp [PatternCall.apply, addExcludeAfterPattern, addIncludeAfterPattern, addExcludePattern, addIncludePattern, *]

theorem Resembles.extend (same : Resembles used stale fresh) (calls : List PatternCall) :
    Resembles used (stale.extend calls) (fresh.extend calls) := by
  induction calls generalizing stale fresh with
  | nil => exact same
  | cons call calls ih => exact ih (same.apply call)

theorem resembles_cleared (used : Filter) (calls : List PatternCall) :
    Resembles used (used.clearPatterns.extend calls) (extend {} calls) :=
  Resembles.extend (by constructor <;> simp [clearPatterns]) calls

theorem Resembles.next_eq (same : Resembles used stale fresh) : stale.next = fresh.next := by
  funext state line
  simp [next, same.excludeAfterPatterns, same.includeAfterPatterns]

theorem Resembles.flagged (same : Resembles used stale fresh) (flagged : fresh.Flagged) : stale.Flagged := by
  refine ⟨fun untold => ?_, fun untold => ?_⟩
  · rw [same.hasExcludeAfterPatterns, Bool.or_eq_false_iff] at untold
    exact same.excludeAfterPatterns.trans (flagged.excludeAfter untold.2)
  · rw [same.hasIncludeAfterPatterns, Bool.or_eq_false_iff] at untold
    exact same.includeAfterPatterns.trans (flagged.includeAfter untold.2)

/-- A line that a fresh filter lets through and a cleared one does not. -/
def Astray (used fresh : Filter) (line : List UInt8) : Prop :=
  if fresh.includeAfterPatterns ≠ [] ∧ fresh.excludeAfterPatterns = [] then
    used.hasExcludeAfterPatterns = true ∧
      (used.hasIncludePatterns = true ∧ fresh.includePatterns = [] ∨ fresh.wants line = false)
  else used.hasIncludePatterns = true ∧ fresh.includePatterns = [] ∧ isMatch fresh.excludePatterns line = false

section

variable (same : Resembles used stale fresh)
include same

theorem Resembles.keeps_eq (told : fresh.Told) (line : List UInt8) :
    stale.keeps line = (fresh.wants line && !(used.hasIncludePatterns && fresh.includePatterns.isEmpty)) := by
  rw [keeps, wants, same.hasIncludePatterns, same.hasExcludePatterns, same.includePatterns, same.excludePatterns,
    told.includes, told.exclude]
  cases fresh.includePatterns <;> cases fresh.excludePatterns <;> cases used.hasIncludePatterns <;> simp [isMatch]

theorem Resembles.loose_eq :
    stale.loose = (fresh.loose && !used.hasExcludeAfterPatterns) := by
  rw [loose, loose, same.state, same.hasExcludeAfterPatterns]
  cases used.hasExcludeAfterPatterns <;> simp

theorem Resembles.lets_eq (told : fresh.Told) (line : List UInt8) :
    stale.lets line = ((fresh.loose && !used.hasExcludeAfterPatterns) ||
      (fresh.wants line && !(used.hasIncludePatterns && fresh.includePatterns.isEmpty))) := by
  rw [lets, same.loose_eq, same.keeps_eq told]

theorem Resembles.lets_of_lets (told : fresh.Told) (line : List UInt8)
    (passes : stale.lets line = true) : fresh.lets line = true := by
  rw [same.lets_eq told, Bool.or_eq_true, Bool.and_eq_true, Bool.and_eq_true] at passes
  rw [lets, told.keeps_eq, Bool.or_eq_true]
  exact passes.imp And.left And.left

theorem Resembles.lets_iff (told : fresh.Told) (line : List UInt8) :
    (fresh.lets line = true → stale.lets line = true) ↔ ¬ Astray used fresh line := by
  rw [same.lets_eq told, lets, told.keeps_eq, Astray]
  cases loose : fresh.loose with
  | true =>
    rw [if_pos (told.loose_iff.mp loose)]
    cases used.hasExcludeAfterPatterns <;> cases used.hasIncludePatterns <;> cases fresh.wants line <;> simp
  | false =>
    have judged : fresh.includePatterns = [] → fresh.wants line = !isMatch fresh.excludePatterns line := by
      intro none
      simp [wants, none]
    rw [if_neg (fun both => by simp [told.loose_iff.mpr both] at loose)]
    cases patterns : fresh.includePatterns with
    | nil => cases used.hasIncludePatterns <;> simp [judged patterns]
    | cons pattern patterns => cases used.hasIncludePatterns <;> simp

end

def Includes (filter : Filter) : Prop :=
  filter.state = .stateInclude ∨ ∃ line, newline ∉ line ∧ isMatch filter.includeAfterPatterns line = true

theorem exists_include_of_foldl {filter : Filter} {state} {lines : List (List UInt8)}
    (included : lines.foldl filter.next state = .stateInclude) :
    state = .stateInclude ∨ ∃ line ∈ lines, isMatch filter.includeAfterPatterns line = true := by
  induction lines generalizing state with
  | nil => exact .inl included
  | cons line lines ih =>
    cases state with
    | stateInclude => exact .inl rfl
    | stateExclude =>
      by_cases opens : isMatch filter.includeAfterPatterns line
      · exact .inr ⟨line, by simp, opens⟩
      · have back : lines.foldl filter.next .stateExclude = .stateInclude := by simpa [next, opens] using included
        obtain same | ⟨found, member, opens⟩ := ih back
        · cases same
        · exact .inr ⟨found, by simp [member], opens⟩

/-- Where lines are included, the two filters let out the same of every stream exactly if no
line goes astray. A stream of at most two lines shows the difference. -/
theorem Resembles.emits_iff (same : Resembles used stale fresh) (told : fresh.Told)
    (staleFilters : stale.filterType = .applyFilters) (freshFilters : fresh.filterType = .applyFilters) :
    (∀ stream, (newFilterWriter stale).emits stream = (newFilterWriter fresh).emits stream) ↔
      (fresh.Includes → ∀ line, newline ∉ line → ¬ Astray used fresh line) := by
  have judged (stream : List UInt8) :
      (newFilterWriter stale).emits stream = (newFilterWriter fresh).emits stream ↔
        ∀ before line after, (textLines [] stream).1 = before ++ line :: after →
          before.foldl fresh.next fresh.state = .stateInclude → ¬ Astray used fresh line := by
    rw [newFilterWriter, newFilterWriter, emits_shown staleFilters (same.flagged told.flagged),
      emits_shown freshFilters told.flagged, same.next_eq, same.state, eq_comm,
      shown_eq_iff (same.lets_of_lets told) (fun _ _ => rfl)]
    simp [same.lets_iff told]
  simp only [judged]
  constructor
  · intro all includes line plain
    cases state : fresh.state with
    | stateInclude =>
      refine all (line ++ [newline]) [] line [] ?_ state
      rw [textLines_line plain]
      rfl
    | stateExclude =>
      obtain included | ⟨opener, free, opens⟩ := includes
      · simp [state] at included
      · refine all (opener ++ newline :: (line ++ [newline])) [opener] line [] ?_ (by simp [state, next, opens])
        rw [textLines_line free, textLines_line plain]
        rfl
  · intro all stream before line after cut included
    have among (found : List UInt8) (member : found ∈ before ++ line :: after) : newline ∉ found :=
      newline_not_mem_textLines (cut ▸ member)
    refine all ?_ line (among line (by simp))
    obtain included | ⟨found, member, opens⟩ := exists_include_of_foldl included
    · exact .inl included
    · exact .inr ⟨found, among found (by simp [member]), opens⟩

end Filter

variable {σ ε τ : Type} {sink : Writer σ ε} {holds : σ → List UInt8}

/-- A cleared filter that is given patterns lets the same out as a fresh one given the same
exactly if there is a pattern and no flag of old sends a line astray. -/
theorem cleared_iff (accepts : Accepts sink holds) (sinks : Nat → Writer τ ε) (start : τ) (history : List FilterEvent)
    (further : List PatternCall) (output : σ) :
    (∀ writes,
      holds (session sink ((usedFilter sinks start history).clearPatterns.extend further) writes output).2.2 =
        holds (session sink (extend {} further) writes output).2.2) ↔
      further ≠ [] ∧ ((extend {} further).Includes → ∀ line, newline ∉ line →
        ¬ Astray (usedFilter sinks start history) (extend {} further) line) := by
  generalize usedFilter sinks start history = used
  have streams (stale fresh : Filter) :
      (∀ writes, holds (session sink stale writes output).2.2 =
        holds (session sink fresh writes output).2.2) ↔
      ∀ stream, (newFilterWriter stale).emits stream = (newFilterWriter fresh).emits stream := by
    simp only [session_emits accepts.delivers _ _ trivial, List.append_cancel_left_eq]
    exact ⟨fun all stream => by simpa using all [stream], fun all writes => all writes.flatten⟩
  rw [streams]
  by_cases given : further = []
  · -- the cleared filter passes everything, the fresh one refuses every write
    subst given
    refine iff_of_false (fun all => ?_) (fun both => both.1 rfl)
    have passed : (newFilterWriter used.clearPatterns).emits [newline] = [newline] :=
      emits_passThru [newline] rfl
    exact absurd (passed.symm.trans (all [newline])) (by decide)
  · rw [Filter.Resembles.emits_iff (resembles_cleared used further) (told_extend further)
      (extend_filterType given) (extend_filterType given)]
    simp [given]

/-- An include pattern set before leaves its flag: with only an exclude pattern afterwards, the
cleared filter lets nothing out where the fresh one does. -/
theorem cleared_keeps_nothing :
    (session plainSink
        ((usedFilter (fun _ => plainSink) [] [.config (.add (.addIncludePattern (·.contains 97)))]).clearPatterns.extend
          [.addExcludePattern (·.contains 120)]) [[98, 10]] []).2.2 = [] ∧
      (session plainSink (extend {} [.addExcludePattern (·.contains 120)]) [[98, 10]] []).2.2 =
        [98, 10] := by decide

/-- An exclude pattern of old, a write and a close leave nothing that is seen afterwards. -/
theorem cleared_iff_excluding :
    (session plainSink
        ((usedFilter (fun _ => plainSink) []
            [.config (.add (.addExcludePattern (·.contains 120))), .write 0 [120, 10, 98], .close 0]).clearPatterns.extend
          [.addExcludeAfterPattern (· == [97])]) [[98, 10], [97, 10, 98]] []).2.2 =
      (session plainSink (extend {} [.addExcludeAfterPattern (· == [97])]) [[98, 10], [97, 10, 98]] []).2.2 := by
  refine (cleared_iff accepts_plainSink (fun _ => plainSink) []
    [.config (.add (.addExcludePattern (·.contains 120))), .write 0 [120, 10, 98], .close 0]
    [.addExcludeAfterPattern (· == [97])] []).mpr ⟨by simp, fun _ line _ astray => ?_⟩ [[98, 10], [97, 10, 98]]
  rw [Astray, if_neg (by decide)] at astray
  exact absurd astray.1 (by decide)

end MycsCommon.Streams
