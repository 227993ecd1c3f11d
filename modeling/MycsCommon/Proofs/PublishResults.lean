import MycsCommon.Events.Publish

/-! Which events the results of a publication are attributed to. -/

namespace MycsCommon.Events
open List CloudEventError

variable {Event : Type} {encoder : Encoder Event} {cloudEvents first second : List Event} {results : List PublishEventResult}
  {position : Nat}

/-- The events that are published, in the order of the inputs. -/
def published (encoder : Encoder Event) (cloudEvents : List Event) : List Event :=
  cloudEvents.filter fun event => (newPublishDataInput encoder event).isSome

/-- The events whose publication failed, each with its error. -/
def failures (published : List Event) (results : List PublishEventResult) : List (CloudEventError Event) :=
  (published.zip results).filterMap fun (event, result) => if result.success then none else some ⟨event, result.error⟩

/-- Both functions that read the results name the events that failed, and index only events there are. -/
structure Attributed (encoder : Encoder Event) (cloudEvents : List Event) (results : List PublishEventResult) : Prop where
  errors : createCloudEventErrorList results cloudEvents = some (failures (published encoder cloudEvents) results)
  events : filterCloudEventsWithErrors results cloudEvents =
    some ((failures (published encoder cloudEvents) results).map event)

theorem failures_cons (event : Event) (rest : List Event) (result : PublishEventResult) (results : List PublishEventResult) :
    failures (event :: rest) (result :: results) =
      if result.success then failures rest results else ⟨event, result.error⟩ :: failures rest results := by
  cases succeeded : result.success <;> simp [failures, succeeded]

theorem failures_nil (events : List Event) : failures events [] = [] := by
  simp [failures]

theorem errorsFrom_eq (short : position + results.length ≤ cloudEvents.length) :
    errorsFrom cloudEvents position results = some (failures (cloudEvents.drop position) results) := by
  induction results generalizing position with
  | nil => simp [errorsFrom, failures_nil]
  | cons result results ih =>
    rw [length_cons] at short
    have inside : position < cloudEvents.length := by omega
    have rest := @ih (position + 1) (by omega)
    rw [drop_eq_getElem_cons inside, failures_cons]
    cases succeeded : result.success with
    | true => simp [errorsFrom, succeeded, rest]
    | false => simp [errorsFrom, succeeded, rest, inside]

theorem eventsFrom_eq (short : position + results.length ≤ cloudEvents.length) :
    eventsFrom cloudEvents position results = some ((failures (cloudEvents.drop position) results).map event) := by
  induction results generalizing position with
  | nil => simp [eventsFrom, failures_nil]
  | cons result results ih =>
    rw [length_cons] at short
    have inside : position < cloudEvents.length := by omega
    have rest := @ih (position + 1) (by omega)
    rw [drop_eq_getElem_cons inside, failures_cons]
    cases succeeded : result.success with
    | true | false => simp [eventsFrom, succeeded, rest, inside]

theorem failures_eq_iff (firstLong : results.length ≤ first.length) (secondLong : results.length ≤ second.length) :
    failures first results = failures second results ↔
      ∀ (index : Nat) (result : PublishEventResult), results[index]? = some result → result.success = false → first[index]? = second[index]? := by
  induction results generalizing first second with
  | nil => simp [failures_nil]
  | cons result results ih =>
    rw [length_cons] at firstLong secondLong
    obtain ⟨event, first, rfl⟩ := exists_cons_of_length_pos (by omega : 0 < first.length)
    obtain ⟨other, second, rfl⟩ := exists_cons_of_length_pos (by omega : 0 < second.length)
    rw [length_cons] at firstLong secondLong
    have rest := @ih first second (by omega) (by omega)
    rw [failures_cons, failures_cons]
    constructor
    · intro same index found there failed
      cases index with
      | zero =>
        obtain rfl : result = found := by simpa using there
        simp only [failed, Bool.false_eq_true, if_false, List.cons.injEq, mk.injEq, and_true] at same
        simp [same.1]
      | succ index =>
        simp only [getElem?_cons_succ] at there ⊢
        refine rest.mp ?_ index found there failed
        cases succeeded : result.success with
        | true => simpa [succeeded] using same
        | false => exact (by simpa [succeeded] using same : _ ∧ _).2
    · intro agree
      have later := rest.mpr fun index found there => agree (index + 1) found (by simpa using there)
      cases succeeded : result.success with
      | true => simp [later]
      | false =>
        have here := agree 0 result (by simp) succeeded
        simp only [getElem?_cons_zero, Option.some.injEq] at here
        simp [here, later]

theorem length_published (encoder : Encoder Event) (cloudEvents : List Event) :
    (mapCloudEventsToPublishDataInputs encoder cloudEvents).length = (published encoder cloudEvents).length := by
  rw [mapCloudEventsToPublishDataInputs, published, length_filterMap_eq_countP, countP_eq_length_filter]

theorem createPublishEventList_eq (encoder : Encoder Event) (eventSource : String) (cloudEvents : List Event) :
    createPublishEventList encoder eventSource cloudEvents =
      (cloudEvents.map (encoder.setSource eventSource),
        mapCloudEventsToPublishDataInputs encoder (cloudEvents.map (encoder.setSource eventSource))) := by
  induction cloudEvents with
  | nil => rfl
  | cons event cloudEvents ih =>
    simp only [createPublishEventList, ih, map_cons, mapCloudEventsToPublishDataInputs]
    cases input : newPublishDataInput encoder (encoder.setSource eventSource event) with
    | none | some => simp [input]

/-- The results are attributed to the right events exactly when, at each failed result,
the event published there is the one with that position in the whole list. -/
theorem attributed_iff (encoder : Encoder Event) (cloudEvents : List Event) {sent : List Event × List PublishDataInput}
    (made : sent = (cloudEvents, mapCloudEventsToPublishDataInputs encoder cloudEvents) ∨
      ∃ eventSource, sent = createPublishEventList encoder eventSource cloudEvents)
    {results : List PublishEventResult} (answers : results.length = sent.2.length) :
    Attributed encoder sent.1 results ↔
      ∀ (index : Nat) (result : PublishEventResult), results[index]? = some result → result.success = false →
        (published encoder sent.1)[index]? = sent.1[index]? := by
  have inputs : sent.2 = mapCloudEventsToPublishDataInputs encoder sent.1 := by
    rcases made with rfl | ⟨eventSource, rfl⟩
    · rfl
    · rw [createPublishEventList_eq]
  have count : results.length = (published encoder sent.1).length := by
    rw [answers, inputs, length_published]
  have short : results.length ≤ sent.1.length := by
    rw [count]
    exact length_filter_le _ _
  have errors := @errorsFrom_eq Event sent.1 results 0 (by omega)
  have events := @eventsFrom_eq Event sent.1 results 0 (by omega)
  rw [drop_zero] at errors events
  rw [← failures_eq_iff (Nat.le_of_eq count) short]
  constructor
  · intro attributed
    have same := attributed.errors
    rw [createCloudEventErrorList, errors, Option.some.injEq] at same
    exact same.symm
  · intro same
    exact ⟨by rw [createCloudEventErrorList, errors, same], by rw [filterCloudEventsWithErrors, events, same]⟩

def numbers : Encoder Nat := ⟨fun _ event => event, fun event => if event = 0 then none else some [1], some⟩

theorem attributed_last_dropped :
    Attributed numbers (createPublishEventList numbers "client" [1, 2, 0]).1 [⟨true, ""⟩, ⟨false, "busy"⟩] := by
  apply (attributed_iff numbers [1, 2, 0] (.inr ⟨"client", rfl⟩) (by decide)).mpr
  intro index result there failed
  match index with
  | 0 | 1 => decide
  | index + 2 => simp at there

/-- The error of the second event is attributed to the first, which was never published. -/
theorem error_misattributed :
    ¬ Attributed numbers [0, 1] [⟨false, "busy"⟩] ∧
      createCloudEventErrorList [⟨false, "busy"⟩] [0, 1] = some [⟨0, "busy"⟩] := by
  have listed : createCloudEventErrorList [⟨false, "busy"⟩] [0, 1] = some [⟨0, "busy"⟩] := by decide
  refine ⟨fun attributed => ?_, listed⟩
  have errors := attributed.errors
  rw [listed] at errors
  exact absurd errors (by decide)

end MycsCommon.Events
