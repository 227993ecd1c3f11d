import MycsCommon.Library.Base64

/-! Cloud events on their way to the publisher and back, as in events/events.go. An event
that cannot be encoded is left out of what is published; the results are read with the
positions of the whole list. -/

namespace MycsCommon.Events
open Library

structure PublishDataInput where
  type : String
  compressed : Bool
  payload : List UInt8
deriving DecidableEq, Repr

structure PublishEventResult where
  success : Bool
  error : String
deriving DecidableEq, Repr

structure CloudEventError (Event : Type) where
  event : Event
  error : String
deriving DecidableEq, Repr

/-- The cloud events package and zlib, as far as they are used. -/
structure Encoder (Event : Type) where
  setSource : String → Event → Event
  marshalJSON : Event → Option (List UInt8)
  compress : List UInt8 → Option (List UInt8)

variable {Event : Type} (encoder : Encoder Event)

def newPublishDataInput (event : Event) : Option PublishDataInput := do
  let eventPayload ← encoder.marshalJSON event
  let compressedPayload ← encoder.compress eventPayload
  return { type := "event", compressed := true, payload := Base64.encode compressedPayload }

def mapCloudEventsToPublishDataInputs (cloudEvents : List Event) : List PublishDataInput :=
  cloudEvents.filterMap (newPublishDataInput encoder)

/-- The events, whose source is set in place, and what is published of them. -/
def createPublishEventList (eventSource : String) : List Event → List Event × List PublishDataInput
  | [] => ([], [])
  | event :: cloudEvents =>
    let event := encoder.setSource eventSource event
    let (cloudEvents, dataPayloads) := createPublishEventList eventSource cloudEvents
    match newPublishDataInput encoder event with
    | none => (event :: cloudEvents, dataPayloads)
    | some dataPayload => (event :: cloudEvents, dataPayload :: dataPayloads)

/-- The loop over the results from a position on; `none` is an index out of range. -/
def errorsFrom (cloudEvents : List Event) : Nat → List PublishEventResult → Option (List (CloudEventError Event))
  | _, [] => some []
  | position, result :: results =>
    if !result.success then do
      let event ← cloudEvents[position]?
      let errors ← errorsFrom cloudEvents (position + 1) results
      return ⟨event, result.error⟩ :: errors
    else errorsFrom cloudEvents (position + 1) results

def createCloudEventErrorList (publishEventErrorList : List PublishEventResult) (cloudEvents : List Event) :
    Option (List (CloudEventError Event)) :=
  errorsFrom cloudEvents 0 publishEventErrorList

/-- This loop indexes the list for every result. -/
def eventsFrom (cloudEvents : List Event) : Nat → List PublishEventResult → Option (List Event)
  | _, [] => some []
  | position, result :: results => do
    let cloudEvent ← cloudEvents[position]?
    let eventsWithError ← eventsFrom cloudEvents (position + 1) results
    return if !result.success then cloudEvent :: eventsWithError else eventsWithError

def filterCloudEventsWithErrors (publishEventResults : List PublishEventResult) (cloudEvents : List Event) :
    Option (List Event) :=
  eventsFrom cloudEvents 0 publishEventResults

end MycsCommon.Events
