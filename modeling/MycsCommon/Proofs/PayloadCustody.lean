import MycsCommon.Monitors.MonitorService
import Mathlib.Data.List.Nodup

/-! Every payload has one holder: the pending slice, one post, or the receiver of the
events. The slices of the service and of its posts never share an array, so that what is
collected into the reused one cannot show up in a post. -/

namespace MycsCommon.Monitors
open Library Library.Machine List Event EventPayload MonitorService Monitors Option Post Slices

variable {Data : Type} {codec : Codec Data} {grow : Nat → Nat → Nat}

section Holders

def Post.slices : Post Data → List Slice
  | .started payloads | .posting payloads _ | .failed payloads => [payloads]
  | .partly _ => []

/-- The payloads that are in a post and not delivered. -/
def Post.holds (heap : Heap EventPayload) : Post Data → List EventPayload
  | .started payloads | .failed payloads => read heap payloads
  | .posting _ events | .partly events => events.map origin

/-- The events of a post carry the content of their payloads. -/
def Post.Faithful (codec : Codec Data) (heap : Heap EventPayload) : Post Data → Prop
  | .started _ | .failed _ => True
  | .posting payloads events =>
    events.map origin = read heap payloads ∧
      ∀ event ∈ events, event.data = codec.encode event.origin.monitors
  | .partly events => events ≠ [] ∧ ∀ event ∈ events, event.data = codec.encode event.origin.monitors

namespace MonitorService

def pending (ms : MonitorService Data) : List EventPayload := read ms.heap ms.eventPayloads

def inFlight (ms : MonitorService Data) : List EventPayload := ms.posts.flatMap (holds ms.heap)

end MonitorService

structure Custody (codec : Codec Data) (ms : MonitorService Data) : Prop where
  separate : Separate ms.heap (ms.eventPayloads :: ms.posts.flatMap slices)
  faithful : ∀ post ∈ ms.posts, post.Faithful codec ms.heap
  account : (ms.pending ++ ms.inFlight ++ ms.delivered).Perm ms.collected
  serials : ms.collected.map serial = List.range ms.collected.length

section Unseen

variable {heap after : Heap EventPayload} {post : Post Data} {posts : List (Post Data)}

theorem Post.holds_congr (same : ∀ slice ∈ post.slices, read after slice = read heap slice) :
    post.holds after = post.holds heap := by
  cases post with
  | started payloads | failed payloads => exact same payloads (by simp [slices])
  | partly | posting => rfl

theorem Post.Faithful.congr (same : ∀ slice ∈ post.slices, read after slice = read heap slice)
    (faithful : post.Faithful codec heap) : post.Faithful codec after := by
  cases post with
  | started | failed | partly => exact faithful
  | posting payloads events =>
    refine ⟨?_, faithful.2⟩
    rw [same payloads (by simp [slices])]
    exact faithful.1

section

variable (same : ∀ slice ∈ posts.flatMap slices, read after slice = read heap slice)
include same

theorem holds_posts_congr :
    posts.flatMap (holds after) = posts.flatMap (holds heap) :=
  flatMap_congr fun post member =>
    holds_congr fun slice inside => same slice (mem_flatMap.mpr ⟨post, member, inside⟩)

theorem faithful_posts_congr
    (faithful : ∀ post ∈ posts, post.Faithful codec heap) : ∀ post ∈ posts, post.Faithful codec after :=
  fun post member =>
    (faithful post member).congr fun slice inside => same slice (mem_flatMap.mpr ⟨post, member, inside⟩)

end

end Unseen

end Holders

section Steps

variable {ms : MonitorService Data}

theorem Custody.moved {after} (custody : Custody codec ms)
    (separate : Separate after.heap (after.eventPayloads :: after.posts.flatMap slices))
    (faithful : ∀ post ∈ after.posts, post.Faithful codec after.heap) (collected : after.collected = ms.collected)
    (same : ∀ payload, after.pending.count payload + after.inFlight.count payload + after.delivered.count payload = ms.pending.count payload + ms.inFlight.count payload + ms.delivered.count payload) :
    Custody codec after where
  separate := separate
  faithful := faithful
  account := by
    rw [collected]
    refine List.Perm.trans (perm_iff_count.mpr fun payload => ?_) custody.account
    simp only [count_append, same payload]
  serials := by
    rw [collected]
    exact custody.serials

theorem Custody.collectEvents (roomy : Roomy grow) (custody : Custody codec ms) (clock : CounterRef → Int) :
    Custody codec (collectEvents grow clock ms) := by
  unfold Monitors.collectEvents
  rcases collectMonitors clock ms.monitors ms.counters with ⟨monitors, counters⟩
  simp only []
  split
  · generalize added : (⟨ms.collected.length, monitors⟩ : EventPayload) = payload
    have serial : payload.serial = ms.collected.length := added ▸ rfl
    have same : ∀ slice ∈ ms.posts.flatMap slices,
        read (appendBy grow ms.heap ms.eventPayloads [payload]).1 slice = read ms.heap slice :=
      fun slice member => custody.separate.read_other member
    have reads : read (appendBy grow ms.heap ms.eventPayloads [payload]).1
        (appendBy grow ms.heap ms.eventPayloads [payload]).2 = ms.pending ++ [payload] :=
      read_appendBy (custody.separate.owned ms.eventPayloads (by simp)).toValid
    constructor
    case separate => exact custody.separate.append roomy
    case faithful => exact faithful_posts_congr same custody.faithful
    case account =>
      refine perm_iff_count.mpr fun other => ?_
      have before := perm_iff_count.mp custody.account other
      simp only [pending, inFlight, count_append] at before reads ⊢
      rw [reads, holds_posts_congr same, count_append]
      omega
    case serials => simp [range_succ, custody.serials, serial]
  · exact ⟨custody.separate, custody.faithful, custody.account, custody.serials⟩

theorem Custody.postEvents (custody : Custody codec ms) : Custody codec (postEvents ms) := by
  have same : ∀ slice ∈ ms.posts.flatMap Post.slices,
      Slices.read (ms.heap ++ [ms.pending]) slice = Slices.read ms.heap slice :=
    fun slice member => Slices.read_grown (custody.separate.tail.owned slice member).toValid _
  apply custody.moved
  case separate =>
    have room : ms.pending.length ≤ ms.pending.length := Nat.le_refl _
    refine (custody.separate.reset.alloc room).perm ?_
    simp only [Monitors.postEvents, flatMap_append, flatMap_singleton, Post.slices]
    exact (perm_append_singleton _ _).cons _ |>.trans (List.Perm.swap _ _ _)
  case faithful =>
    intro post member
    rcases mem_append.mp member with old | new
    · exact faithful_posts_congr same custody.faithful post old
    · obtain rfl := mem_singleton.mp new
      trivial
  case collected => rfl
  case same =>
    intro payload
    have emptied : (Monitors.postEvents ms).pending = [] := Slices.read_reset
    have copied : Slices.read (ms.heap ++ [ms.pending]) (Slices.fresh ms.heap ms.pending ms.pending.length) = ms.pending :=
      Slices.read_fresh _
    have flown : (Monitors.postEvents ms).inFlight = ms.inFlight ++ ms.pending := by
      simp only [MonitorService.inFlight, Monitors.postEvents, flatMap_append, flatMap_singleton, Post.holds]
      exact congrArg₂ _ (holds_posts_congr same) copied
    have kept : (Monitors.postEvents ms).delivered = ms.delivered := rfl
    rw [emptied, flown, kept, count_append, count_nil]
    omega

theorem Custody.collect (roomy : Roomy grow) (custody : Custody codec ms) (clock : CounterRef → Int) :
    Custody codec (collect grow clock ms) := by
  have collected := custody.collectEvents roomy clock
  unfold Monitors.collect
  simp only []
  split
  · have posted := collected.postEvents
    exact ⟨posted.separate, posted.faithful, posted.account, posted.serials⟩
  · exact ⟨collected.separate, collected.faithful, collected.account, collected.serials⟩

variable {index : Nat}

theorem Custody.exchange {after} (custody : Custody codec ms) {old new front back gained}
    (whole : ms.posts = front ++ old :: back) (posts : after.posts = front ++ (new ++ back))
    (heap : after.heap = ms.heap) (eventPayloads : after.eventPayloads = ms.eventPayloads)
    (collected : after.collected = ms.collected) (delivered : after.delivered = ms.delivered ++ gained)
    (fewer : (new.flatMap slices).Sublist old.slices) (faithful : ∀ post ∈ new, post.Faithful codec ms.heap)
    (counts : ∀ payload, (new.flatMap (holds ms.heap)).count payload + gained.count payload = (old.holds ms.heap).count payload) :
    Custody codec after := by
  apply custody.moved
  case separate =>
    have separate := custody.separate
    rw [heap, eventPayloads, posts]
    rw [whole] at separate
    refine separate.sublist (List.Sublist.cons_cons _ ?_)
    simp only [flatMap_append, flatMap_cons]
    exact (List.Sublist.refl _).append (fewer.append (List.Sublist.refl _))
  case faithful =>
    intro post member
    rw [heap]
    simp only [posts, mem_append] at member
    rcases member with before | now | behind
    · exact custody.faithful post (by simp [whole, before])
    · exact faithful post now
    · exact custody.faithful post (by simp [whole, behind])
  case collected => exact collected
  case same =>
    intro payload
    have exchanged := counts payload
    simp only [pending, inFlight, heap, eventPayloads, posts, delivered, whole,
      flatMap_append, flatMap_cons, count_append]
    omega

theorem origins_newEvents (ids : Nat → String) (payloads : List EventPayload) :
    (newEvents codec ids payloads).map origin = payloads := by
  simp [newEvents, Function.comp_def]

theorem repostList_origins (preserves : codec.Preserves) {errors}
    (faithful : ∀ event ∈ errors, event.data = codec.encode event.origin.monitors) :
    repostList codec errors = errors.map origin := by
  induction errors with
  | nil => rfl
  | cons event errors ih =>
    have decoded : (codec.decode event.data).map (fun monitors => (⟨event.origin.serial, monitors⟩ : EventPayload)) =
        some event.origin := by
      rw [faithful event (by simp), preserves]
      rfl
    simp only [repostList, filterMap_cons, decoded, map_cons]
    exact congrArg _ (ih fun other member => faithful other (by simp [member]))

section AppendEach

variable {heap : Heap EventPayload} {others : List Slice}

theorem appendEach_separate (roomy : Roomy grow) (payloads : List EventPayload) {slice}
    (separate : Separate heap (slice :: others)) :
    Separate (appendEach grow payloads heap slice).1 ((appendEach grow payloads heap slice).2 :: others) ∧
      read (appendEach grow payloads heap slice).1 (appendEach grow payloads heap slice).2 =
        read heap slice ++ payloads ∧
      ∀ other ∈ others, read (appendEach grow payloads heap slice).1 other = read heap other := by
  induction payloads generalizing heap slice with
  | nil => exact ⟨separate, (append_nil _).symm, fun _ _ => rfl⟩
  | cons payload payloads ih =>
    obtain ⟨apart, reads, kept⟩ := ih (separate.append roomy)
    refine ⟨apart, ?_, ?_⟩
    · rw [read_appendBy (separate.owned slice (by simp)).toValid] at reads
      simpa [appendEach] using reads
    · intro other member
      exact (kept other member).trans (separate.read_other member)

theorem appendEach_empty (roomy : Roomy grow) {payloads} (some : payloads ≠ [])
    (separate : Separate heap others) : Separate (appendEach grow payloads heap empty).1
        ((appendEach grow payloads heap empty).2 :: others) ∧
      read (appendEach grow payloads heap empty).1 (appendEach grow payloads heap empty).2 = payloads ∧
      ∀ other ∈ others, read (appendEach grow payloads heap empty).1 other = read heap other := by
  cases payloads with
  | nil => exact absurd rfl some
  | cons payload payloads =>
    have first := separate.alloc (roomy 0 [payload].length)
    obtain ⟨apart, reads, kept⟩ := appendEach_separate roomy payloads first
    simp only [appendEach, appendBy_empty (cons_ne_nil payload [])]
    rw [read_fresh] at reads
    refine ⟨apart, reads, fun other member => (kept other member).trans ?_⟩
    exact read_grown (separate.owned other member).toValid _

end AppendEach

theorem Custody.putBack (roomy : Slices.Roomy grow) (custody : Custody codec ms) {old front back}
    (whole : ms.posts = front ++ old :: back) {heap returned}
    (separate : Slices.Separate heap (returned :: ms.eventPayloads :: (front ++ back).flatMap Post.slices))
    (same : ∀ slice ∈ ms.eventPayloads :: (front ++ back).flatMap Post.slices, Slices.read heap slice = Slices.read ms.heap slice)
    (holds : Slices.read heap returned = old.holds ms.heap) {after}
    (put : after = { Monitors.putBack grow ms heap returned with posts := front ++ back }) : Custody codec after := by
  subst put
  have others := separate.sublist ((sublist_cons_self _ _).cons_cons _)
  have unseen : ∀ slice ∈ (front ++ back).flatMap Post.slices,
      Slices.read (Slices.appendBy grow heap returned (Slices.read heap ms.eventPayloads)).1 slice =
        Slices.read ms.heap slice :=
    fun slice member => (others.read_other member).trans (same slice (mem_cons_of_mem _ member))
  have reads : Slices.read (Slices.appendBy grow heap returned (Slices.read heap ms.eventPayloads)).1
      (Slices.appendBy grow heap returned (Slices.read heap ms.eventPayloads)).2 = old.holds ms.heap ++ ms.pending := by
    rw [Slices.read_appendBy (others.owned returned (by simp)).toValid, holds, same ms.eventPayloads (by simp)]
    rfl
  apply custody.moved
  case separate => exact others.append roomy
  case faithful =>
    refine faithful_posts_congr unseen fun post member => custody.faithful post ?_
    rcases mem_append.mp member with before | behind
    · simp [whole, before]
    · simp [whole, behind]
  case collected => rfl
  case same =>
    intro payload
    have pending : ({ Monitors.putBack grow ms heap returned with posts := front ++ back } : MonitorService Data).pending =
      old.holds ms.heap ++ ms.pending := reads
    have flown : ({ Monitors.putBack grow ms heap returned with posts := front ++ back } : MonitorService Data).inFlight =
      (front ++ back).flatMap (Post.holds ms.heap) := holds_posts_congr unseen
    rw [pending, flown]
    simp only [MonitorService.inFlight, whole, Monitors.putBack, flatMap_append, flatMap_cons, count_append]
    omega

theorem Custody.others (custody : Custody codec ms) {old front back} (whole : ms.posts = front ++ old :: back) :
    Slices.Separate ms.heap (old.slices ++ ms.eventPayloads :: (front ++ back).flatMap Post.slices) := by
  have separate := custody.separate
  rw [whole] at separate
  refine separate.perm ?_
  simp only [flatMap_append, flatMap_cons]
  refine perm_middle.trans (List.Perm.cons _ ?_)
  rw [← append_assoc, ← append_assoc]
  exact perm_append_comm.append_right _

variable [DecidableEq Data]

theorem count_answer {errors events : List (Event Data)} (named : errors.Subperm events) (payload : EventPayload) :
    (errors.map origin).count payload + ((events.diff errors).map origin).count payload =
      (events.map origin).count payload := by
  have parts := subperm_append_diff_self_of_count_le fun event _ => named.count_le event
  rw [← (parts.map origin).count_eq payload, map_append, count_append]

theorem Custody.post (roomy : Roomy grow) (preserves : codec.Preserves) (custody : Custody codec ms)
    {after post choice} (here : ms.posts[index]? = some post)
    (taken : postStep codec grow ms index post choice = some after) : Custody codec after := by
  obtain ⟨front, back, whole, set, erased⟩ := exists_around here
  have faithful := custody.faithful post (by simp [whole])
  have others := custody.others whole
  unfold postStep at taken
  split at taken
  case h_1 payloads ids =>
    have origins := @origins_newEvents _ codec ids (read ms.heap payloads)
    simp only [] at taken
    split at taken
    case isTrue some =>
      obtain rfl := Option.some.inj taken
      refine @Custody.exchange _ _ _ _ custody _ [_] _ _ [] whole (set _) rfl rfl rfl (by simp [setPost])
        (by simp [slices]) ?_ (by simp [holds, origins])
      rintro post present
      obtain rfl := mem_singleton.mp present
      refine ⟨origins, ?_⟩
      intro event member
      obtain ⟨payload, -, rfl⟩ := mem_map.mp member
      rfl
    case isFalse none =>
      obtain rfl := some.inj taken
      have empty : read ms.heap payloads = [] := by
        simpa [newEvents] using none
      exact @Custody.exchange _ _ _ _ custody _ [] _ _ [] whole erased rfl rfl rfl (by simp [endPost])
        (by simp) (by simp) (by simp [holds, empty])
  case h_2 payloads events =>
    obtain rfl := some.inj taken
    exact @Custody.exchange _ _ _ _ custody _ [_] _ _ [] whole (set _) rfl rfl rfl (by simp [setPost])
      (by simp [slices]) (by simp [Faithful]) (by simp [holds, faithful.1])
  case h_3 payloads events errors =>
    split at taken
    case isTrue named =>
      have parts := count_answer named
      simp only [] at taken
      split at taken
      case isTrue some =>
        obtain rfl := Option.some.inj taken
        refine @Custody.exchange _ _ _ _ custody _ [_] _ _ _ whole (set _) rfl rfl rfl rfl (by simp [slices]) ?_
          (by simpa [holds] using parts)
        rintro post present
        obtain rfl := mem_singleton.mp present
        exact ⟨length_pos_iff.mp some, fun event member => faithful.2 event (named.subset member)⟩
      case isFalse none =>
        obtain rfl := some.inj taken
        have nobody : errors = [] := by simpa using none
        refine @Custody.exchange _ _ _ _ custody _ [] _ _ _ whole erased rfl rfl rfl rfl (by simp) (by simp) ?_
        intro payload
        simp [nobody, holds]
    case isFalse => cases taken
  case h_4 payloads =>
    obtain rfl := some.inj taken
    exact custody.putBack roomy whole others (fun _ _ => rfl) rfl (by simp [MonitorService.endPost, Monitors.putBack, erased])
  case h_5 errors =>
    obtain rfl := some.inj taken
    have origins := repostList_origins preserves faithful.2
    have some : repostList codec errors ≠ [] := by simpa [origins] using faithful.1
    obtain ⟨apart, reads, kept⟩ := appendEach_empty roomy some others
    exact custody.putBack roomy whole apart kept (reads.trans origins) (by simp [MonitorService.endPost, Monitors.putBack, erased])
  case h_6 => cases taken

theorem custody_step (roomy : Roomy grow) (preserves : codec.Preserves) {action after}
    (custody : Custody codec ms) (taken : step codec grow action ms = some after) : Custody codec after := by
  cases action with
  | application monitors counters =>
    obtain rfl := some.inj taken
    exact ⟨custody.separate, custody.faithful, custody.account, custody.serials⟩
  | tick clock =>
    obtain rfl := some.inj taken
    exact custody.collect roomy clock
  | post index choice =>
    obtain ⟨post, here, moved⟩ := bind_eq_some_iff.mp taken
    exact custody.post roomy preserves here moved
  | stop clock =>
    simp only [step] at taken
    split at taken
    · obtain rfl := some.inj taken
      exact ⟨custody.separate, custody.faithful, custody.account, custody.serials⟩
    · split at taken
      · obtain rfl := some.inj taken
        exact ⟨custody.separate, custody.faithful, custody.account, custody.serials⟩
      · cases taken
    · obtain rfl := some.inj taken
      have flushed := (custody.collectEvents roomy clock).postEvents
      exact ⟨flushed.separate, flushed.faithful, flushed.account, flushed.serials⟩
    · split at taken
      · obtain rfl := some.inj taken
        exact ⟨custody.separate, custody.faithful, custody.account, custody.serials⟩
      · cases taken
    · cases taken

end Steps

section Runs

variable {ms : MonitorService Data}

theorem custody_new (collectCount : Nat) : Custody codec (newMonitorService collectCount : MonitorService Data) where
  separate := by
    refine Slices.Separate.cons ⟨by simp [newMonitorService], by simp [newMonitorService]⟩ ?_ (by simp [newMonitorService])
    exact ⟨⟨Nat.zero_le _, Nat.zero_le _, fun _ => Nat.zero_lt_one⟩, Nat.zero_lt_one⟩
  faithful := by simp [newMonitorService]
  account := by simp [newMonitorService, MonitorService.pending, MonitorService.inFlight, Slices.read]
  serials := rfl

/-- Every payload that was ever collected is in one place, once. -/
structure InOnePlace (ms : MonitorService Data) : Prop where
  account : (ms.pending ++ ms.inFlight ++ ms.delivered).Perm ms.collected
  once : (ms.pending ++ ms.inFlight ++ ms.delivered).Nodup

theorem Custody.inOnePlace (custody : Custody codec ms) : InOnePlace ms := by
  refine ⟨custody.account, custody.account.nodup_iff.mpr (List.Nodup.of_map serial ?_)⟩
  rw [custody.serials]
  exact nodup_range

theorem InOnePlace.delivered_only (place : InOnePlace ms) {payload} (delivered : payload ∈ ms.delivered) :
    payload ∉ ms.pending ∧ payload ∉ ms.inFlight := by
  have apart := place.once.disjoint
  exact ⟨fun pending => apart (mem_append_left _ pending) delivered,
    fun flying => apart (mem_append_right _ flying) delivered⟩

/-- What was collected and what was delivered is never taken back. -/
structure Later (before after : MonitorService Data) : Prop where
  collected : before.collected <+: after.collected
  delivered : before.delivered <+: after.delivered

theorem Later.same {before after : MonitorService Data} (collected : after.collected = before.collected)
    (delivered : after.delivered = before.delivered) : Later before after :=
  ⟨collected ▸ prefix_rfl, delivered ▸ prefix_rfl⟩

theorem Later.trans {first second third : MonitorService Data} (one : Later first second) (two : Later second third) :
    Later first third := ⟨one.collected.trans two.collected, one.delivered.trans two.delivered⟩

theorem later_collectEvents (clock : CounterRef → Int) : Later ms (collectEvents grow clock ms) := by
  unfold collectEvents
  simp only []
  split
  · exact ⟨prefix_append _ _, prefix_rfl⟩
  · exact Later.same rfl rfl

theorem later_collect (clock : CounterRef → Int) : Later ms (collect grow clock ms) := by
  have later := @later_collectEvents _ grow ms clock
  unfold collect
  simp only []
  split
  · exact ⟨later.collected, later.delivered⟩
  · exact ⟨later.collected, later.delivered⟩

variable [DecidableEq Data]

theorem later_post {index : Nat} {after post choice} (taken : postStep codec grow ms index post choice = some after) :
    Later ms after := by
  unfold postStep at taken
  split at taken
  case h_1 =>
    simp only [] at taken
    split at taken <;> exact some.inj taken ▸ Later.same rfl rfl
  case h_2 => exact some.inj taken ▸ Later.same rfl rfl
  case h_3 =>
    split at taken
    · simp only [] at taken
      split at taken <;> exact some.inj taken ▸ ⟨prefix_rfl, prefix_append _ _⟩
    · cases taken
  case h_4 => exact some.inj taken ▸ Later.same rfl rfl
  case h_5 => exact some.inj taken ▸ Later.same rfl rfl
  case h_6 => cases taken

theorem later_step {action after} (taken : step codec grow action ms = some after) : Later ms after := by
  cases action with
  | application monitors counters => exact some.inj taken ▸ Later.same rfl rfl
  | tick clock => exact some.inj taken ▸ later_collect clock
  | post index choice =>
    obtain ⟨post, -, moved⟩ := bind_eq_some_iff.mp taken
    exact later_post moved
  | stop clock =>
    have collected := @later_collectEvents _ grow ms clock
    simp only [step] at taken
    split at taken
    · exact some.inj taken ▸ Later.same rfl rfl
    · split at taken
      · exact some.inj taken ▸ Later.same rfl rfl
      · cases taken
    · exact some.inj taken ▸ ⟨collected.collected, collected.delivered⟩
    · split at taken
      · exact some.inj taken ▸ Later.same rfl rfl
      · cases taken
    · cases taken

theorem later_of_reachable {after : MonitorService Data} (reached : Reachable (step codec grow) ms after) :
    Later ms after :=
  reached.invariant (Later ms) (Later.same rfl rfl) fun _ _ _ later taken => later.trans (later_step taken)

theorem custody_reachable (roomy : Roomy grow) (preserves : codec.Preserves) {collectCount}
    (reached : Reachable (step codec grow) (newMonitorService collectCount) ms) : Custody codec ms :=
  reached.invariant (Custody codec) (custody_new collectCount)
    fun _ _ _ custody taken => custody_step roomy preserves custody taken

theorem payloads_in_one_place (roomy : Roomy grow) (preserves : codec.Preserves) {collectCount : Nat}
    (reached : Reachable (step codec grow) (newMonitorService collectCount) ms) :
    InOnePlace ms ∧ ∀ later, Reachable (step codec grow) ms later →
      ms.collected <+: later.collected ∧
        ∀ payload ∈ ms.delivered, payload ∈ later.delivered ∧ payload ∉ later.pending ∧ payload ∉ later.inFlight := by
  refine ⟨(custody_reachable roomy preserves reached).inOnePlace, ?_⟩
  intro later continued
  have grown := later_of_reachable continued
  have place := (custody_reachable roomy preserves (reached.trans continued)).inOnePlace
  refine ⟨grown.collected, ?_⟩
  intro payload delivered
  have still := grown.delivered.subset delivered
  exact ⟨still, place.delivered_only still⟩

def plainCodec : Codec (List MonitorSnapshot) := ⟨id, some⟩

def failedPost : List (Action (List MonitorSnapshot)) :=
  [.application [⟨"net", [0]⟩] [⟨"bytes", [], false, false, 1, 5, 0⟩], .tick fun _ => 1, .tick fun _ => 2,
    .post 0 (.build fun _ => "id"), .tick fun _ => 3, .post 0 (.answer none), .post 0 .putBack]

theorem payloads_in_one_place_failed :
    ∃ ms, run (step plainCodec fun _ len => len) failedPost (newMonitorService 2) = some ms ∧
      ms.pending.map serial = [0, 1, 2] ∧ InOnePlace ms := by
  obtain ⟨ms, ran⟩ : ∃ ms, run (step plainCodec fun _ len => len) failedPost (newMonitorService 2) = some ms := ⟨_, rfl⟩
  have pending : (run (step plainCodec fun _ len => len) failedPost (newMonitorService 2)).map
      (fun ms => ms.pending.map serial) = some [0, 1, 2] := rfl
  rw [ran] at pending
  have reached := Reachable.start.run ran
  exact ⟨ms, ran, some.inj pending,
    (payloads_in_one_place (fun _ _ => Nat.le_refl _) (fun _ => rfl) reached).1⟩

end Runs

end MycsCommon.Monitors
