import MycsCommon.Monitors.MonitorService

/-! What a counter's snapshots add up to, and which counter `DeleteCounter` takes away. -/

namespace MycsCommon.Monitors
open List Counter Monitor

/-- Two cumulative counters with the same total and increment, however the total is split. -/
structure Counter.Agree (counter other : Counter) : Prop where
  total : counter.get = other.get
  incBy : counter.incBy = other.incBy
  cumalative : counter.cumalative = true
  otherCumalative : other.cumalative = true

def CounterCall.isCollect : CounterCall → Bool
  | .collect _ => true
  | _ => false

/-- A collection moves the value to the total that was collected before. -/
theorem collect_spec {counter : Counter} (cumalative : counter.cumalative = true) (now : Int) :
    (counter.collect now).2.get = counter.get ∧ (counter.collect now).2.incBy = counter.incBy ∧
      (counter.collect now).2.cumalative = true ∧
      (((counter.collect now).1.map (·.value)).toList.sum + counter.cumalativeValue = (counter.collect now).2.cumalativeValue) ∧
      (counter.collect now).2.value = 0 := by
  unfold Counter.collect
  split
  next => simp [cumalative, Counter.get]; grind
  next skipped =>
    have zero : counter.value = 0 := by simp_all
    simp [cumalative, zero]

theorem Counter.Agree.call {counter other : Counter} (agree : counter.Agree other) {call}
    (changes : call.isCollect = false) : (counter.call call).2.Agree (other.call call).2 := by
  obtain ⟨total, incBy, cumalative, otherCumalative⟩ := agree
  unfold get at total
  cases call with
  | collect => cases changes
  | inc => exact ⟨by simp only [Counter.call, get]; grind, incBy, cumalative, otherCumalative⟩
  | add value => exact ⟨by simp only [Counter.call, get]; grind, incBy, cumalative, otherCumalative⟩
  | set value => exact ⟨by simp [Counter.call, get, cumalative, otherCumalative], incBy, cumalative, otherCumalative⟩
  | setInc value => exact ⟨total, rfl, cumalative, otherCumalative⟩

theorem Counter.Agree.run {counter other : Counter} (agree : counter.Agree other) (calls : List CounterCall) :
    (run calls counter).2.Agree (run (calls.filter (!·.isCollect)) other).2 := by
  induction calls generalizing counter other with
  | nil => exact agree
  | cons call calls ih =>
    cases collects : call.isCollect with
    | false =>
      rw [filter_cons_of_pos (by simp [collects])]
      exact ih (agree.call collects)
    | true =>
      rw [filter_cons_of_neg (by simp [collects])]
      cases call with
      | collect now =>
        obtain ⟨total, incBy, cumalative, -⟩ := collect_spec agree.cumalative now
        exact ih ⟨total.trans agree.total, incBy.trans agree.incBy, cumalative, agree.otherCumalative⟩
      | _ => cases collects

/-- The snapshots of a run add up to what it moves to the collected total. -/
theorem run_collected (calls : List CounterCall) {counter : Counter} (cumalative : counter.cumalative = true) :
    (run calls counter).1.sum + counter.cumalativeValue = (run calls counter).2.cumalativeValue := by
  induction calls generalizing counter with
  | nil => simp [run]
  | cons call calls ih =>
    have step : ((counter.call call).1.map (·.value)).toList.sum + counter.cumalativeValue = (counter.call call).2.cumalativeValue ∧
        (counter.call call).2.cumalative = true := by
      cases call with
      | collect now =>
        obtain ⟨-, -, still, moved, -⟩ := collect_spec cumalative now
        exact ⟨moved, still⟩
      | _ => exact ⟨by simp [call], cumalative⟩
    have rest := ih step.2
    simp only [run, sum_append]
    rw [← rest, ← step.1]
    grind

theorem run_concat_snd (calls : List CounterCall) (call : CounterCall) (counter : Counter) :
    (run (calls ++ [call]) counter).2 = ((run calls counter).2.call call).2 := by
  induction calls generalizing counter with
  | nil => rfl
  | cons first calls ih => exact ih _

/-- Nothing is lost or counted twice between the snapshots and the counter. -/
theorem counter_conserves (name : String) (ignoreZeroSnapshots : Bool) (attribs : List (String × String)) (calls : List CounterCall) :
    let after := fun calls => run calls (newCounterWithAttribs name true ignoreZeroSnapshots attribs)
    (after calls).1.sum + (after calls).2.value = (after calls).2.get ∧
      (after calls).2.get = (after (calls.filter (!·.isCollect))).2.get ∧
      (∀ value, (after (calls ++ [.set value])).2.get = value) ∧
      ∀ now, (after (calls ++ [.collect now])).1.sum = (after (calls ++ [.collect now])).2.get := by
  intro after
  have agree : ∀ calls, (after calls).2.Agree (after (calls.filter (!·.isCollect))).2 :=
    Counter.Agree.run ⟨rfl, rfl, rfl, rfl⟩
  have collected : ∀ calls, (after calls).1.sum = (after calls).2.cumalativeValue := fun calls =>
    (Int64.add_zero _).symm.trans (run_collected calls rfl)
  refine ⟨by rw [collected, Counter.get, Int64.add_comm], (agree calls).total, fun value => ?_, fun now => ?_⟩
  · have cumalative := (agree calls).cumalative
    simp only [after, run_concat_snd] at cumalative ⊢
    simp [Counter.call, Counter.get, cumalative]
  · obtain ⟨-, -, -, -, empty⟩ := collect_spec (agree calls).cumalative now
    rw [collected, Counter.get]
    simp only [after, run_concat_snd, call] at empty ⊢
    rw [empty, Int64.zero_add]

/-! Taking a counter off a monitor. -/

/-- The list without the last occurrence of the counter, or as it is if the counter is not in it. -/
def Removes (counter : CounterRef) (before after : List CounterRef) : Prop :=
  counter ∉ before ∧ after = before ∨ ∃ front back, before = front ++ counter :: back ∧ counter ∉ back ∧ after = front ++ back

theorem lastIndex_spec (monitor : Monitor) (counter : CounterRef) (limit : Nat) :
    (monitor.lastIndex counter limit = none ∧ ∀ index < limit, monitor.counters[index]? ≠ some counter) ∨
      ∃ index < limit, monitor.lastIndex counter limit = some index ∧ monitor.counters[index]? = some counter ∧
        ∀ later < limit, index < later → monitor.counters[later]? ≠ some counter := by
  induction limit with
  | zero => exact .inl ⟨rfl, nofun⟩
  | succ limit ih =>
    unfold lastIndex
    by_cases here : monitor.counters[limit]? = some counter
    · exact .inr ⟨limit, by omega, if_pos here, here, fun later below above => by omega⟩
    · rw [if_neg here]
      have extend : ∀ later, later < limit + 1 → later = limit ∨ later < limit := fun later below => by omega
      obtain ⟨none, absent⟩ | ⟨index, inside, found, holds, last⟩ := ih
      · refine .inl ⟨none, fun index below => ?_⟩
        obtain rfl | earlier := extend index below
        · exact here
        · exact absent index earlier
      · refine .inr ⟨index, by omega, found, holds, fun later below above => ?_⟩
        obtain rfl | earlier := extend later below
        · exact here
        · exact last later earlier above

theorem deleteCounter_removes_iff (monitor : Monitor) (counter : CounterRef) :
    (∃ after, monitor.deleteCounter counter = some after ∧ after.name = monitor.name ∧ Removes counter monitor.counters after.counters) ↔
      counter ∈ monitor.counters := by
  obtain ⟨none, absent⟩ | ⟨index, inside, found, holds, last⟩ := lastIndex_spec monitor counter monitor.counters.length
  · have missing : counter ∉ monitor.counters := by
      intro member
      obtain ⟨index, here⟩ := mem_iff_getElem?.mp member
      exact absent index (List.getElem?_eq_some_iff.mp here).1 here
    refine iff_of_false ?_ missing
    rintro ⟨after, deleted, -, ⟨-, same⟩ | ⟨front, back, whole, -⟩⟩
    · -- the last counter is gone all the same
      simp only [deleteCounter, none] at deleted
      split at deleted
      next => cases deleted
      next some =>
        obtain rfl := Option.some.inj deleted
        have shorter := congrArg length same
        simp only [length_take] at shorter
        omega
    · exact missing (by simp [whole])
  · refine iff_of_true ?_ (mem_of_getElem? holds)
    have whole : monitor.counters = monitor.counters.take index ++ counter :: monitor.counters.drop (index + 1) := by
      obtain ⟨_, same⟩ := List.getElem?_eq_some_iff.mp holds
      rw [← same, ← drop_eq_getElem_cons inside, take_append_drop]
    refine ⟨{ monitor with counters := monitor.counters.take index ++ monitor.counters.drop (index + 1) }, ?_, rfl,
      .inr ⟨_, _, whole, fun member => ?_, rfl⟩⟩
    · simp only [deleteCounter, found]
      rw [if_neg (by omega), Option.some.injEq, Monitor.mk.injEq, and_iff_right rfl, Library.Slices.overwrite, take_append_of_le_length]
      · apply take_of_length_le
        simp
        omega
      · simp
        omega
    · obtain ⟨position, here⟩ := mem_iff_getElem?.mp member
      rw [getElem?_drop] at here
      have bound := (List.getElem?_eq_some_iff.mp here).1
      exact last _ bound (by omega) here

/-- A counter that is not attached takes the last one off, and an empty monitor panics. -/
theorem deleteCounter_other :
    deleteCounter ⟨"node", [0, 1]⟩ 2 = some ⟨"node", [0]⟩ ∧ ¬ Removes 2 [0, 1] [0] ∧ deleteCounter ⟨"node", []⟩ 2 = none := by
  refine ⟨rfl, ?_, rfl⟩
  rintro (⟨-, same⟩ | ⟨front, back, whole, -⟩)
  · cases same
  · have member : 2 ∈ [0, 1] := by simp [whole]
    simp at member

end MycsCommon.Monitors
