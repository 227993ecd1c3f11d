import MycsCommon.Mycsnode.ApiClient
import Mathlib.Data.List.Nodup
import Mathlib.Data.List.ReduceOption

/-! A request reads the crypt pointer twice. What it reads the second time is what was
assigned last since the first, so that payload and token have one key exactly if nothing
was assigned in between. -/

namespace MycsCommon.Mycsnode
open Library.Machine List ApiClient Option Sending

variable {Key : Type} {client after : ApiClient Key}

section Moves

/-- In a critical section of the request that encrypts. -/
def Sending.locked : Sending Key → Bool
  | .lockedForPayload _ | .lockedForToken .. => true
  | _ => false

def Sending.dropped : Sending Key → Bool
  | .notAuthenticated | .encryptionFailed | .panicked => true
  | _ => false

/-- All that can happen next. -/
inductive Move (client : ApiClient Key) : ApiClient Key → Prop where
  | readForPayload (was : client.sending = .ready) :
      Move client { client with sending := .readForPayload client.crypt }
  | lockForPayload {crypt : Option Key} (was : client.sending = .readForPayload crypt)
      (free : client.keyRefreshMutex = .nobody) :
      Move client { client with
        sending := .lockedForPayload crypt, keyRefreshMutex := .request, held := client.held ++ [client.crypt] }
  | encrypt {key : Key} (was : client.sending = .lockedForPayload (some key)) :
      Move client { client with sending := .encrypted key, keyRefreshMutex := .nobody }
  | confirm {payloadKey : Key} (was : client.sending = .encrypted payloadKey) :
      Move client { client with sending := .authenticated payloadKey }
  | readForToken {payloadKey : Key} (was : client.sending = .authenticated payloadKey) :
      Move client { client with sending := .readForToken payloadKey client.crypt }
  | lockForToken {payloadKey : Key} {crypt : Option Key} (was : client.sending = .readForToken payloadKey crypt)
      (free : client.keyRefreshMutex = .nobody) :
      Move client { client with
        sending := .lockedForToken payloadKey crypt, keyRefreshMutex := .request, held := client.held ++ [client.crypt] }
  | send {payloadKey tokenKey : Key} (was : client.sending = .lockedForToken payloadKey (some tokenKey)) :
      Move client { client with sending := .sent payloadKey tokenKey, keyRefreshMutex := .nobody }
  | drop {sending : Sending Key} (dropped : sending.dropped = true)
      (own : client.sending.locked = true ∨ client.keyRefreshMutex = .nobody) :
      Move client { client with sending, keyRefreshMutex := .nobody }
  | authenticate (free : client.keyRefreshMutex = .nobody) :
      Move client { client with keyRefreshMutex := .refresh, isAuthenticated := false, refresh := .asking }
  | fail (asking : client.refresh = .asking) :
      Move client { client with keyRefreshMutex := .nobody, refresh := .idle }
  | replace (crypt : Option Key) {refresh : Refresh} {keyRefreshMutex : Holder} (asking : client.refresh = .asking)
      (left : keyRefreshMutex = .refresh ∧ refresh ≠ .idle ∨ keyRefreshMutex = .nobody ∧ refresh = .idle) :
      Move client { client with
        crypt, refresh, keyRefreshMutex
        keys := client.keys ++ crypt.toList
        between := if client.sending.open then client.between ++ [crypt] else client.between }
  | finish (timeoutAt : Int) (replaced : client.refresh = .replaced) :
      Move client { client with
        keyTimeoutAt := timeoutAt, isAuthenticated := true, refresh := .idle, keyRefreshMutex := .nobody }

theorem requestStep_move {now drawn} (taken : requestStep client now drawn = some after) : Move client after := by
  unfold requestStep at taken
  split at taken
  case h_1 was => exact some.inj taken ▸ .readForPayload was
  case h_2 crypt was =>
    split at taken
    case isTrue free => exact some.inj taken ▸ .lockForPayload was free
    case isFalse => cases taken
  case h_3 crypt was =>
    obtain rfl := some.inj taken
    have own : client.sending.locked = true := by simp [was, locked]
    cases crypt with
    | none => exact .drop rfl (.inl own)
    | some key =>
      cases drawn with
      | true => exact .encrypt was
      | false => exact .drop rfl (.inl own)
  case h_4 payloadKey was =>
    split at taken
    case isTrue free =>
      split at taken
      · exact some.inj taken ▸ .confirm was
      · obtain rfl := some.inj taken
        have dropped := @Move.drop _ client .notAuthenticated rfl (.inr free)
        rw [← free] at dropped
        exact dropped
    case isFalse => cases taken
  case h_5 payloadKey was => exact some.inj taken ▸ .readForToken was
  case h_6 payloadKey crypt was =>
    split at taken
    case isTrue free => exact some.inj taken ▸ .lockForToken was free
    case isFalse => cases taken
  case h_7 payloadKey crypt was =>
    obtain rfl := some.inj taken
    have own : client.sending.locked = true := by simp [was, locked]
    cases crypt with
    | none => exact .drop rfl (.inl own)
    | some key =>
      cases drawn with
      | true => exact .send was
      | false => exact .drop rfl (.inl own)
  all_goals cases taken

theorem step_move {action} (exclusive : client.keyRefreshMutex = .refresh ↔ client.refresh ≠ .idle)
    (taken : step action client = some after) : Move client after := by
  cases action with
  | request now drawn => exact requestStep_move taken
  | authenticate =>
    simp only [step] at taken
    split at taken
    case isTrue free => exact some.inj taken ▸ .authenticate free
    case isFalse => cases taken
  | fail =>
    simp only [step] at taken
    split at taken
    case isTrue asking => exact some.inj taken ▸ .fail asking
    case isFalse => cases taken
  | newCrypt crypt =>
    simp only [step] at taken
    split at taken
    case isTrue asking =>
      have holder := exclusive.mpr (by simp [asking])
      split at taken
      · exact some.inj taken ▸ .replace crypt asking (.inl ⟨holder, by simp⟩)
      · exact some.inj taken ▸ .replace crypt asking (.inr ⟨rfl, rfl⟩)
    case isFalse => cases taken
  | finish timeoutAt =>
    simp only [step] at taken
    split at taken
    case isTrue replaced => exact some.inj taken ▸ .finish timeoutAt replaced
    case isFalse => cases taken

end Moves

section Mutex

/-- The mutex is with the one that is in a critical section, and the pointer stays as it is
while that is the request. -/
structure Exclusive (client : ApiClient Key) : Prop where
  request : client.keyRefreshMutex = .request ↔ client.sending.locked = true
  refresh : client.keyRefreshMutex = .refresh ↔ client.refresh ≠ .idle
  unchanged : client.sending.locked = true → client.held.getLast? = some client.crypt

theorem Exclusive.move (exclusive : Exclusive client) (move : Move client after) : Exclusive after := by
  obtain ⟨request, refresh, unchanged⟩ := exclusive
  cases move with
  | readForPayload was | confirm was | readForToken was =>
    have unlocked : client.keyRefreshMutex ≠ .request := by simp [request, was, locked]
    exact ⟨by simp [unlocked, locked], refresh, by simp [locked]⟩
  | lockForPayload was free | lockForToken was free =>
    have idle : client.refresh = .idle := by simpa [free] using refresh
    exact ⟨by simp [locked], by simp [idle], by simp⟩
  | encrypt was | send was =>
    have locked := request.mpr (by simp [was, locked])
    have idle : client.refresh = .idle := by simpa [locked] using refresh
    exact ⟨by simp [Sending.locked], by simp [idle], by simp [Sending.locked]⟩
  | @drop sending dropped own =>
    have idle : client.refresh = .idle := by
      rcases own with locked | free
      · simpa [request.mpr locked] using refresh
      · simpa [free] using refresh
    have unlocked : sending.locked = false := by cases sending <;> first | rfl | exact absurd dropped (by simp [Sending.dropped])
    exact ⟨by simp [unlocked], by simp [idle], by simp [unlocked]⟩
  | authenticate free =>
    have unlocked : client.sending.locked = false := by simpa [free] using request
    exact ⟨by simp [unlocked], by simp, by simp [unlocked]⟩
  | fail asking =>
    have holder := refresh.mpr (by simp [asking])
    have unlocked : client.sending.locked = false := by simpa [holder] using request
    exact ⟨by simp [unlocked], by simp, unchanged⟩
  | replace crypt asking left =>
    have holder := refresh.mpr (by simp [asking])
    have unlocked : client.sending.locked = false := by simpa [holder] using request
    rcases left with ⟨rfl, busy⟩ | ⟨rfl, rfl⟩
    · exact ⟨by simp [unlocked], by simp [busy], by simp [unlocked]⟩
    · exact ⟨by simp [unlocked], by simp, by simp [unlocked]⟩
  | finish timeoutAt replaced =>
    have holder := refresh.mpr (by simp [replaced])
    have unlocked : client.sending.locked = false := by simpa [holder] using request
    exact ⟨by simp [unlocked], by simp, unchanged⟩

end Mutex

section Keys

variable {crypt first second : Option Key} {between held : List (Option Key)} {keys : List Key}

/-- The pointer is what was assigned last since the request read `first`; what was assigned
came after the key of `first`. -/
structure Since (crypt : Option Key) (between : List (Option Key)) (keys : List Key) (first : Option Key) : Prop where
  current : crypt = between.getLast?.getD first
  earlier : ∃ before, keys = before ++ between.reduceOption ∧ ∀ key, first = some key → key ∈ before

/-- `second` was the pointer when the request read it for its token. -/
structure Reread (between : List (Option Key)) (keys : List Key) (first second : Option Key) : Prop where
  last : second = between.getLast?.getD first
  earlier : ∃ before later, keys = before ++ between.reduceOption ++ later ∧ ∀ key, first = some key → key ∈ before

theorem Since.replace (since : Since crypt between keys first) (new : Option Key) :
    Since new (between ++ [new]) (keys ++ new.toList) first := by
  obtain ⟨before, rfl, first⟩ := since.earlier
  refine ⟨by simp, before, ?_, first⟩
  cases new <;> simp [reduceOption_append]

theorem Reread.replace (reread : Reread between keys first second) (new : Option Key) :
    Reread between (keys ++ new.toList) first second := by
  obtain ⟨before, later, rfl, first⟩ := reread.earlier
  exact ⟨reread.last, before, later ++ new.toList, by simp, first⟩

theorem Since.reread (since : Since crypt between keys first) : Reread between keys first crypt := by
  obtain ⟨before, same, first⟩ := since.earlier
  exact ⟨since.current, before, [], by simp [same], first⟩

/-- Where the keys the request has read come from. If nothing was assigned, the first one was
in place while the mutex was held for the payload. -/
def Tracks (client : ApiClient Key) : Prop :=
  match client.sending with
  | .ready => client.between = []
  | .readForPayload first => Since client.crypt client.between client.keys first
  | .lockedForPayload first =>
    Since client.crypt client.between client.keys first ∧ (client.between = [] → first ∈ client.held)
  | .encrypted key | .authenticated key =>
    Since client.crypt client.between client.keys (some key) ∧ (client.between = [] → some key ∈ client.held)
  | .readForToken key second | .lockedForToken key second =>
    Reread client.between client.keys (some key) second ∧ (client.between = [] → some key ∈ client.held)
  | .sent key tokenKey =>
    Reread client.between client.keys (some key) (some tokenKey) ∧ (client.between = [] → some key ∈ client.held)
  | .notAuthenticated | .encryptionFailed | .panicked => True

def Known (client : ApiClient Key) : Prop := ∀ key, client.crypt = some key → key ∈ client.keys

theorem Known.move (known : Known client) (move : Move client after) : Known after := by
  cases move with
  | replace crypt asking left =>
    intro key same
    obtain rfl : crypt = some key := same
    simp
  | _ => exact known

theorem Tracks.move (tracks : Tracks client) (known : Known client) (move : Move client after) : Tracks after := by
  cases move with
  | readForPayload was =>
    have nothing : client.between = [] := by simpa only [Tracks, was] using tracks
    exact ⟨by simp [nothing], client.keys, by simp [nothing], known⟩
  | @lockForPayload first was free =>
    have since : Since client.crypt client.between client.keys first := by simpa only [Tracks, was] using tracks
    refine ⟨since, ?_⟩
    intro nothing
    have same := since.current
    simp only [show client.between = [] from nothing, getLast?_nil, getD_none] at same
    simp [same]
  | encrypt was | confirm was | send was => simpa only [Tracks, was] using tracks
  | readForToken was =>
    simp only [Tracks, was] at tracks
    exact ⟨tracks.1.reread, tracks.2⟩
  | lockForToken was free =>
    simp only [Tracks, was] at tracks
    exact ⟨tracks.1, fun nothing => mem_append_left _ (tracks.2 nothing)⟩
  | @drop sending dropped own => cases sending <;> trivial
  | authenticate | fail | finish => exact tracks
  | replace new asking left =>
    have assigned : client.between ++ [new] = [] → False := by simp
    cases phase : client.sending with
    | ready => simpa [Tracks, phase, Sending.open] using tracks
    | readForPayload first =>
      simp only [Tracks, phase] at tracks ⊢
      exact tracks.replace new
    | lockedForPayload first | encrypted key | authenticated key =>
      simp only [Tracks, phase] at tracks ⊢
      exact ⟨tracks.1.replace new, fun nothing => (assigned nothing).elim⟩
    | readForToken key second | lockedForToken key second | sent key tokenKey =>
      simp only [Tracks, phase] at tracks ⊢
      exact ⟨tracks.1.replace new, tracks.2⟩
    | notAuthenticated | encryptionFailed | panicked => simp [Tracks]

end Keys

section Requests

variable {crypt : Option Key} {isAuthenticated : Bool} {keyTimeoutAt : Int}

theorem tracks_reachable (reached : Reachable step (apiClient crypt isAuthenticated keyTimeoutAt) client) :
    Exclusive client ∧ Known client ∧ Tracks client := by
  refine reached.invariant (fun client => Exclusive client ∧ Known client ∧ Tracks client) ?_ ?_
  · refine ⟨⟨by simp [apiClient, locked], by simp [apiClient], by simp [apiClient, locked]⟩, ?_, rfl⟩
    intro key same
    simpa [apiClient] using same
  · intro action before after ⟨exclusive, known, tracks⟩ taken
    have move := step_move exclusive.refresh taken
    exact ⟨exclusive.move move, known.move move, tracks.move known move⟩

/-- Payload and token are under one key, which was in place while the mutex was held for it. -/
def OneKey (client : ApiClient Key) (payloadKey tokenKey : Key) : Prop :=
  payloadKey = tokenKey ∧ some tokenKey ∈ client.held

theorem oneKey_of_untouched {payloadKey tokenKey} (tracks : Tracks client)
    (sent : client.sending = .sent payloadKey tokenKey) (untouched : client.between = []) :
    OneKey client payloadKey tokenKey := by
  simp only [Tracks, sent] at tracks
  obtain ⟨reread, shown⟩ := tracks
  have last := reread.last
  simp only [untouched, getLast?_nil, getD_none] at last
  obtain rfl := some.inj last
  exact ⟨rfl, shown untouched⟩

theorem untouched_of_oneKey {payloadKey tokenKey} (tracks : Tracks client)
    (sent : client.sending = .sent payloadKey tokenKey) (distinct : client.keys.Nodup)
    (one : OneKey client payloadKey tokenKey) : client.between = [] := by
  simp only [Tracks, sent] at tracks
  obtain ⟨⟨last, before, later, keys, earlier⟩, -⟩ := tracks
  obtain ⟨rfl, -⟩ := one
  by_contra touched
  have again : payloadKey ∈ client.between.reduceOption := by
    rw [reduceOption_mem_iff]
    rw [getLast?_eq_some_getLast touched, getD_some] at last
    rw [last]
    exact getLast_mem touched
  rw [keys, append_assoc] at distinct
  exact List.Nodup.disjoint distinct (earlier payloadKey rfl) (mem_append_left _ again)

/-- A request that is sent used one key if nothing was assigned to the pointer between its two
reads of it, and, as no key comes twice, only then. -/
theorem oneKey_iff {payloadKey tokenKey : Key}
    (reached : Reachable step (apiClient crypt isAuthenticated keyTimeoutAt) client)
    (sent : client.sending = .sent payloadKey tokenKey) :
    (client.between = [] → OneKey client payloadKey tokenKey) ∧
      (client.keys.Nodup → (OneKey client payloadKey tokenKey ↔ client.between = [])) := by
  obtain ⟨-, -, tracks⟩ := tracks_reachable reached
  have enough := oneKey_of_untouched tracks sent
  exact ⟨enough, fun distinct => ⟨untouched_of_oneKey tracks sent distinct, enough⟩⟩

def accesses (count : Nat) : List (Action Nat) := List.replicate count (.request 0 true)

def refreshed (key : Nat) : List (Action Nat) := [.authenticate, .newCrypt (some key), .finish 200]

def calmRun : List (Action Nat) := refreshed 2 ++ accesses 5 ++ refreshed 3 ++ accesses 2

theorem oneKey_iff_calm :
    ∃ client, run step calmRun (apiClient (some 1) true 100) = some client ∧ client.sending = .sent 2 2 ∧
      OneKey client 2 2 := by
  obtain ⟨client, ran⟩ : ∃ client, run step calmRun (apiClient (some 1) true 100) = some client := ⟨_, rfl⟩
  have sent : (run step calmRun (apiClient (some 1) true 100)).map sending = some (.sent 2 2) := rfl
  have untouched : (run step calmRun (apiClient (some 1) true 100)).map between = some [] := rfl
  rw [ran] at sent untouched
  have used := some.inj sent
  exact ⟨client, ran, used, (oneKey_iff (Reachable.start.run ran) used).1 (some.inj untouched)⟩

def replacedRun : List (Action Nat) := accesses 3 ++ refreshed 2 ++ accesses 4

theorem not_oneKey_replaced :
    ∃ client, Reachable step (apiClient (some 1) true 100) client ∧ client.sending = .sent 1 2 ∧
      client.keys.Nodup ∧ ¬ OneKey client 1 2 := by
  obtain ⟨client, ran⟩ : ∃ client, run step replacedRun (apiClient (some 1) true 100) = some client := ⟨_, rfl⟩
  have sent : (run step replacedRun (apiClient (some 1) true 100)).map sending = some (.sent 1 2) := rfl
  have keys : (run step replacedRun (apiClient (some 1) true 100)).map ApiClient.keys = some [1, 2] := rfl
  rw [ran] at sent keys
  refine ⟨client, Reachable.start.run ran, some.inj sent, ?_, fun one => absurd one.1 (by decide)⟩
  rw [some.inj keys]
  decide

end Requests

end MycsCommon.Mycsnode
