import MycsCommon.Proofs.ExpectRuns

/-! The serial expects of a session. The reference takes the head away once it has matched. The
handler takes it away once its command was sent, so that an expect without a command never
leaves and blocks those behind it. -/

namespace MycsCommon.Streams
open Library.Lines List

namespace ExpectStream

/-- The serial expects that are left, and those that were taken away, after something is shown. -/
def consume : List Expect → List (List UInt8 × Bool) → List Expect × List Expect
  | expects, [] => (expects, [])
  | [], _ :: _ => ([], [])
  | expect :: rest, (line, newLine) :: shown =>
    if (expect.judge line newLine).2 then
      let (left, gone) := consume rest shown
      (left, expect :: gone)
    else consume ((expect.judge line newLine).1 :: rest) shown

def commands (expects : List Expect) : List (List UInt8) := (expects.map Expect.command).filter (· ≠ [])

theorem consume_nil (shown : List (List UInt8 × Bool)) : consume [] shown = ([], []) := by
  cases shown <;> rfl

theorem consume_order (expects : List Expect) (shown : List (List UInt8 × Bool)) :
    (consume expects shown).2.map Expect.command ++ (consume expects shown).1.map Expect.command =
      expects.map Expect.command := by
  induction shown generalizing expects with
  | nil => simp [consume]
  | cons fragment shown ih =>
    cases expects with
    | nil => rfl
    | cons expect rest =>
      unfold consume
      split_ifs with matched
      · simp [ih rest]
      · rw [ih, map_cons, judge_command, map_cons]

theorem length_consume_le (expects : List Expect) (shown : List (List UInt8 × Bool)) :
    (consume expects shown).1.length ≤ expects.length := by
  have order := congrArg List.length (consume_order expects shown)
  simp only [length_append, length_map] at order
  omega

section
variable {expect : Expect} {fragment : List UInt8 × Bool} (rest : List Expect) (sent : List (List UInt8))

theorem viewNext_sent (fired : ((expect.judge fragment.1 fragment.2).2 && decide (0 < expect.command.length)) = true) :
    viewNext true (expect :: rest, sent) fragment = (rest, sent ++ [expect.command]) := by
  simp [viewNext, fired]

theorem viewNext_kept (kept : ((expect.judge fragment.1 fragment.2).2 && decide (0 < expect.command.length)) = false) :
    viewNext true (expect :: rest, sent) fragment = ((expect.judge fragment.1 fragment.2).1 :: rest, sent) := by
  simp [viewNext, kept]

end

theorem foldl_stuck {expect} (silent : expect.command = []) (rest : List Expect) (sent : List (List UInt8))
    (shown : List (List UInt8 × Bool)) :
    (shown.foldl (viewNext true) (expect :: rest, sent)).1.length = rest.length + 1 := by
  induction shown generalizing expect with
  | nil => rfl
  | cons fragment shown ih =>
    rw [foldl_cons, viewNext_kept rest sent (by simp [silent])]
    exact ih (by rw [judge_command, silent])

theorem foldl_tail (expects : List Expect) (sent : List (List UInt8)) (shown : List (List UInt8 × Bool)) :
    ∃ gone, (shown.foldl (viewNext true) (expects, sent)).1.tail = (expects.drop gone).tail := by
  induction shown generalizing expects sent with
  | nil => exact ⟨0, rfl⟩
  | cons fragment shown ih =>
    cases expects with
    | nil => exact ih [] sent
    | cons expect rest =>
      rw [foldl_cons]
      cases fired : (expect.judge fragment.1 fragment.2).2 && decide (0 < expect.command.length) with
      | true =>
        rw [viewNext_sent rest sent fired]
        obtain ⟨gone, same⟩ := ih rest (sent ++ [expect.command])
        exact ⟨gone + 1, by simpa using same⟩
      | false =>
        rw [viewNext_kept rest sent fired]
        obtain ⟨gone, same⟩ := ih ((expect.judge fragment.1 fragment.2).1 :: rest) sent
        refine ⟨gone, same.trans ?_⟩
        cases gone <;> rfl

theorem foldl_consume_iff (expects : List Expect) (sent : List (List UInt8)) (shown : List (List UInt8 × Bool)) :
    shown.foldl (viewNext true) (expects, sent) =
        ((consume expects shown).1, sent ++ commands (consume expects shown).2) ↔
      ∀ expect ∈ (consume expects shown).2, expect.command ≠ [] := by
  induction shown generalizing expects sent with
  | nil => simp [consume, commands]
  | cons fragment shown ih =>
    cases expects with
    | nil => simpa [viewNext, consume, consume_nil, commands] using ih [] sent
    | cons expect rest =>
      rw [foldl_cons]
      cases matched : (expect.judge fragment.1 fragment.2).2 with
      | false =>
        have same : consume (expect :: rest) (fragment :: shown) =
            consume ((expect.judge fragment.1 fragment.2).1 :: rest) shown := by simp [consume, matched]
        rw [viewNext_kept rest sent (by simp [matched]), same]
        exact ih _ sent
      | true =>
        have taken : consume (expect :: rest) (fragment :: shown) =
            ((consume rest shown).1, expect :: (consume rest shown).2) := by simp [consume, matched]
        rw [taken]
        by_cases silent : expect.command = []
        · -- the handler keeps the head, which the reference has taken
          refine iff_of_false (fun same => ?_) (fun all => all expect (by simp) silent)
          have kept := @foldl_stuck (expect.judge fragment.1 fragment.2).1 (by rw [judge_command, silent]) rest sent shown
          rw [viewNext_kept rest sent (by simp [silent])] at same
          rw [same] at kept
          have := length_consume_le rest shown
          simp only at kept
          omega
        · have long := length_pos_iff.mpr silent
          have more : sent ++ commands (expect :: (consume rest shown).2) =
              sent ++ [expect.command] ++ commands (consume rest shown).2 := by simp [commands, silent]
          rw [viewNext_sent rest sent (by simp [matched, long]), more, ih]
          simp [silent]

variable {σ ε : Type} {outlets : Outlets σ ε} {es after : ExpectStream σ} {reads unread : List (List UInt8)}

/-- Of the reads that the output handler has made: the serial expects that are left and the
commands they sent are those of the reference exactly if every expect that is to leave has a
command. In any case those behind the head are as they were. -/
theorem serial_consumed_iff (ran : startStreamHandler outlets .output reads [] es = (none, unread, after)) :
    ∃ made, reads = made ++ unread ∧ (unread = [] ∨ after.running = false) ∧
      (∃ gone, after.serialExpects.tail = (es.serialExpects.drop gone).tail) ∧
      (after.serialExpects = (consume es.serialExpects (shownIn [] made)).1 ∧
          after.sentBy .serial = es.sentBy .serial ++ commands (consume es.serialExpects (shownIn [] made)).2 ↔
        ∀ expect ∈ (consume es.serialExpects (shownIn [] made)).2, expect.command ≠ []) := by
  obtain ⟨made, rfl, ended, seen⟩ := startStreamHandler_view .serial ran (by simp)
  have both : (after.serialExpects, after.sentBy .serial) =
      (shownIn [] made).foldl (viewNext true) (es.serialExpects, es.sentBy .serial) := seen
  refine ⟨made, rfl, ended, ?_, ?_⟩
  · obtain ⟨gone, same⟩ := foldl_tail es.serialExpects (es.sentBy .serial) (shownIn [] made)
    rw [← both] at same
    exact ⟨gone, same⟩
  · rw [← foldl_consume_iff es.serialExpects (es.sentBy .serial) (shownIn [] made), ← both, Prod.mk.injEq]

def twoSerial (command : List UInt8) : ExpectStream (List UInt8) :=
  { serialExpects := [{ startPattern := (· == [97]), command, onNewLine := true },
      { startPattern := (· == [98]), command := [33], onNewLine := true }]
    running := true, streams := [] }

/-- The first has no command: it matches and stays, and the second is never asked. -/
theorem silent_head_stays :
    ((startStreamHandler plainOutlets .output [[97, 10, 98, 10]] [] (twoSerial [])).2.2.serialExpects.map (·.active)) =
        [true, false] ∧
      (startStreamHandler plainOutlets .output [[97, 10, 98, 10]] [] (twoSerial [])).2.2.sentBy .serial = [] ∧
      commands (consume (twoSerial []).serialExpects (shownIn [] [[97, 10, 98, 10]])).2 = [[33]] := by decide

theorem serial_consumed_iff_both :
    (startStreamHandler plainOutlets .output [[97, 10, 98], [10]] [] (twoSerial [63])).2.2.serialExpects =
      (consume (twoSerial [63]).serialExpects (shownIn [] [[97, 10, 98], [10]])).1 := by
  obtain ⟨made, read, -, -, consumed⟩ := @serial_consumed_iff _ _ plainOutlets (twoSerial [63]) _ [[97, 10, 98], [10]] [] rfl
  obtain rfl : made = [[97, 10, 98], [10]] := by simpa using read.symm
  exact (consumed.mpr (by decide)).1

end ExpectStream

end MycsCommon.Streams
