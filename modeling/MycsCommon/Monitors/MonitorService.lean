import MycsCommon.Library.Machine
import MycsCommon.Library.Slices
import Mathlib.Data.List.Perm.Subperm

/-! The monitor service of monitors/monitor.go and the counters of counter.go. A tick
collects a payload and now and then hands the pending ones to a goroutine that posts
them; what could not be posted is put back in front. A step is one critical section of
the service's lock, or one access of a posting goroutine. The pending payloads and the
ones of a post are slices over shared arrays. A snapshot copies the name and attributes
that the source's snapshot refers to. -/

namespace MycsCommon.Monitors
open Library

/-- A counter is shared by reference; this is its place in the store. -/
abbrev CounterRef := Nat

structure Counter where
  name : String
  attribs : List (String × String)
  cumalative : Bool
  ignoreZeroSnapshots : Bool
  incBy : Int64 := 1
  value : Int64 := 0
  cumalativeValue : Int64 := 0
deriving DecidableEq, Repr

structure CounterSnapshot where
  name : String
  timestamp : Int
  value : Int64
  attribs : List (String × String)
deriving DecidableEq, Repr

def Counter.collect (counter : Counter) (now : Int) : Option CounterSnapshot × Counter :=
  if !counter.ignoreZeroSnapshots || counter.value != 0 then
    (some { name := counter.name, attribs := counter.attribs, timestamp := now, value := counter.value },
      if counter.cumalative then
        { counter with cumalativeValue := counter.cumalativeValue + counter.value, value := 0 }
      else counter)
  else (none, counter)

def newCounterWithAttribs (name : String) (cumalative ignoreZeroSnapshots : Bool) (attribs : List (String × String)) : Counter :=
  { name, attribs, cumalative, ignoreZeroSnapshots }

def Counter.get (counter : Counter) : Int64 := counter.value + counter.cumalativeValue

inductive CounterCall where
  | inc
  | add (value : Int64)
  | set (value : Int64)
  | setInc (incValue : Int64)
  | collect (now : Int)
deriving DecidableEq, Repr

def Counter.call (counter : Counter) : CounterCall → Option CounterSnapshot × Counter
  | .inc => (none, { counter with value := counter.value + counter.incBy })
  | .add value => (none, { counter with value := counter.value + value })
  | .set value => (none, { counter with value := if counter.cumalative then value - counter.cumalativeValue else value })
  | .setInc incValue => (none, { counter with incBy := incValue })
  | .collect now => counter.collect now

/-- The values of the snapshots that a run of calls returns, and the counter after it. -/
def Counter.run : List CounterCall → Counter → List Int64 × Counter
  | [], counter => ([], counter)
  | call :: calls, counter =>
    let (snapshot, counter) := counter.call call
    let (values, counter) := run calls counter
    ((snapshot.map (·.value)).toList ++ values, counter)

structure Monitor where
  name : String
  counters : List CounterRef
deriving DecidableEq, Repr

/-- The loop of `DeleteCounter`, from the index before the given one down. -/
def Monitor.lastIndex (monitor : Monitor) (counter : CounterRef) : Nat → Option Nat
  | 0 => none
  | index + 1 => if monitor.counters[index]? = some counter then some index else monitor.lastIndex counter index

/-- Nothing where the slice bound is negative. -/
def Monitor.deleteCounter (monitor : Monitor) (counter : CounterRef) : Option Monitor :=
  let j : Int := monitor.counters.length - 1
  let counters :=
    match monitor.lastIndex counter monitor.counters.length with
    | none => monitor.counters
    | some index => Slices.overwrite (monitor.counters.drop (index + 1)) index monitor.counters
  if j < 0 then none else some { monitor with counters := counters.take j.toNat }

structure MonitorSnapshot where
  name : String
  counters : List CounterSnapshot
deriving DecidableEq, Repr

/-- A payload. The serial number is not in the source: it tells payloads of equal content apart. -/
structure EventPayload where
  serial : Nat
  monitors : List MonitorSnapshot
deriving DecidableEq, Repr

/-- The snapshots of a monitor's counters, and the store after them. -/
def collectCounters (clock : CounterRef → Int) :
    List CounterRef → List Counter → List CounterSnapshot × List Counter
  | [], store => ([], store)
  | ref :: refs, store =>
    match store[ref]? with
    | none => collectCounters clock refs store
    | some counter =>
      let (snapshot, collected) := counter.collect (clock ref)
      let (snapshots, after) := collectCounters clock refs (store.set ref collected)
      (snapshot.toList ++ snapshots, after)

/-- The snapshots of all monitors that have counters. -/
def collectMonitors (clock : CounterRef → Int) :
    List Monitor → List Counter → List MonitorSnapshot × List Counter
  | [], store => ([], store)
  | monitor :: monitors, store =>
    if 0 < monitor.counters.length then
      let (counters, middle) := collectCounters clock monitor.counters store
      let (snapshots, after) := collectMonitors clock monitors middle
      ({ name := monitor.name, counters } :: snapshots, after)
    else collectMonitors clock monitors store

/-- JSON encoding of a payload's content. -/
structure Codec (Data : Type) where
  encode : List MonitorSnapshot → Data
  decode : Data → Option (List MonitorSnapshot)

/-- Decoding gives back what was encoded. -/
def Codec.Preserves {Data : Type} (codec : Codec Data) : Prop :=
  ∀ monitors, codec.decode (codec.encode monitors) = some monitors

/-- A cloud event. Its other attributes are constants; `origin` is the payload it was made for. -/
structure Event (Data : Type) where
  id : String
  data : Data
  origin : EventPayload
deriving DecidableEq, Repr

/-- A goroutine started by `postEvents`, until it is done. -/
inductive Post (Data : Type) where
  | started (eventPayloads : Slices.Slice)
  | posting (eventPayloads : Slices.Slice) (events : List (Event Data))
  | failed (eventPayloads : Slices.Slice)
  | partly (postEventErrors : List (Event Data))
deriving DecidableEq, Repr

/-- Where `Stop` is. -/
inductive Stopper where
  | uncalled | waiting | flushing | flushed | stopped
deriving DecidableEq, Repr

structure MonitorService (Data : Type) where
  collectCount : Int
  sendCountdown : Int
  monitors : List Monitor := []
  counters : List Counter := []
  heap : Slices.Heap EventPayload
  eventPayloads : Slices.Slice
  posts : List (Post Data) := []
  stop : Stopper := .uncalled
  /-- All payloads ever appended by `collectEvents`, and those the sender delivered. -/
  collected : List EventPayload := []
  delivered : List EventPayload := []
deriving DecidableEq, Repr

variable {Data : Type} (codec : Codec Data) (grow : Nat → Nat → Nat)

def newMonitorService (collectCount : Nat) : MonitorService Data where
  collectCount := collectCount - 1
  sendCountdown := collectCount - 1
  heap := [[]]
  eventPayloads := ⟨0, 0, collectCount⟩

def collectEvents (clock : CounterRef → Int) (ms : MonitorService Data) : MonitorService Data :=
  let (monitors, counters) := collectMonitors clock ms.monitors ms.counters
  if monitors.any fun monitor => !monitor.counters.isEmpty then
    let payload : EventPayload := { serial := ms.collected.length, monitors }
    let (heap, eventPayloads) := Slices.appendBy grow ms.heap ms.eventPayloads [payload]
    { ms with counters, heap, eventPayloads, collected := ms.collected ++ [payload] }
  else { ms with counters }

/-- The goroutine gets a copy, and the pending payloads' array is used again from its start. -/
def postEvents (ms : MonitorService Data) : MonitorService Data :=
  let eventPayloads := Slices.read ms.heap ms.eventPayloads
  { ms with
    heap := ms.heap ++ [eventPayloads]
    eventPayloads := { ms.eventPayloads with len := 0 }
    posts := ms.posts ++ [Post.started (Slices.fresh ms.heap eventPayloads eventPayloads.length)] }

def collect (clock : CounterRef → Int) (ms : MonitorService Data) : MonitorService Data :=
  let ms := collectEvents grow clock ms
  if ms.sendCountdown = 0 then { postEvents ms with sendCountdown := ms.collectCount }
  else { ms with sendCountdown := ms.sendCountdown - 1 }

/-- One event per payload, with new ids. -/
def newEvents (ids : Nat → String) (payloads : List EventPayload) : List (Event Data) :=
  payloads.map fun payload => { id := ids payload.serial, data := codec.encode payload.monitors, origin := payload }

/-- The payloads of events that were not delivered; one that cannot be decoded is only logged. -/
def repostList (errors : List (Event Data)) : List EventPayload :=
  errors.filterMap fun event => (codec.decode event.data).map fun monitors => ⟨event.origin.serial, monitors⟩

/-- `append` of a slice in front of the pending payloads. -/
def putBack (ms : MonitorService Data) (heap : Slices.Heap EventPayload) (front : Slices.Slice) : MonitorService Data :=
  let (heap, eventPayloads) := Slices.appendBy grow heap front (Slices.read heap ms.eventPayloads)
  { ms with heap, eventPayloads }

/-- The repost list grows by one append for each event. -/
def appendEach : List EventPayload → Slices.Heap EventPayload → Slices.Slice → Slices.Heap EventPayload × Slices.Slice
  | [], heap, slice => (heap, slice)
  | payload :: payloads, heap, slice =>
    let (heap, slice) := Slices.appendBy grow heap slice [payload]
    appendEach payloads heap slice

/-- The choices of a posting goroutine's environment: the event ids, and the sender's answer,
which is an error or the events that were not delivered. -/
inductive Choice (Data : Type) where
  | build (ids : Nat → String)
  | answer (reply : Option (List (Event Data)))
  | putBack

def MonitorService.setPost (ms : MonitorService Data) (index : Nat) (post : Post Data) : MonitorService Data :=
  { ms with posts := ms.posts.set index post }

def MonitorService.endPost (ms : MonitorService Data) (index : Nat) : MonitorService Data :=
  { ms with posts := ms.posts.eraseIdx index }

variable [DecidableEq Data]

def postStep (ms : MonitorService Data) (index : Nat) : Post Data → Choice Data → Option (MonitorService Data)
  | .started eventPayloads, .build ids =>
    let events := newEvents codec ids (Slices.read ms.heap eventPayloads)
    -- nothing is sent when there is nothing to send
    if 0 < events.length then some (ms.setPost index (.posting eventPayloads events)) else some (ms.endPost index)
  | .posting eventPayloads _, .answer none => some (ms.setPost index (.failed eventPayloads))
  | .posting _ events, .answer (some errors) =>
    -- the sender names events of this post, each at most once, and delivers the others
    if errors.Subperm events then
      let told := { ms with delivered := ms.delivered ++ (events.diff errors).map Event.origin }
      if 0 < errors.length then some (told.setPost index (.partly errors)) else some (told.endPost index)
    else none
  | .failed eventPayloads, .putBack => some ((putBack grow ms ms.heap eventPayloads).endPost index)
  | .partly errors, .putBack =>
    let (heap, front) := appendEach grow (repostList codec errors) ms.heap Slices.empty
    some ((putBack grow ms heap front).endPost index)
  | _, _ => none

inductive Action (Data : Type) where
  | application (monitors : List Monitor) (counters : List Counter)
  | tick (clock : CounterRef → Int)
  | post (index : Nat) (choice : Choice Data)
  | stop (clock : CounterRef → Int)

/-- What the application does to its monitors and counters is arbitrary. Ticks are possible at any time. -/
def step : Action Data → MonitorService Data → Option (MonitorService Data)
  | .application monitors counters, ms => some { ms with monitors, counters }
  | .tick clock, ms => some (collect grow clock ms)
  | .post index choice, ms => ms.posts[index]?.bind fun post => postStep codec grow ms index post choice
  | .stop clock, ms =>
    match ms.stop with
    | .uncalled => some { ms with stop := .waiting }
    | .waiting => if ms.posts.isEmpty then some { ms with stop := .flushing } else none
    | .flushing => some { postEvents (collectEvents grow clock ms) with stop := .flushed }
    | .flushed => if ms.posts.isEmpty then some { ms with stop := .stopped } else none
    | .stopped => none

end MycsCommon.Monitors
