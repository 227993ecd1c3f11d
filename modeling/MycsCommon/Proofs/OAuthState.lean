import MycsCommon.Auth.Authenticator

/-! Which callbacks of an OAuth flow get as far as `RetrieveToken`. The first callback
is held against the state that was handed out, all later ones against the empty state
the handler left behind. -/

namespace MycsCommon.Auth
open Network List

variable {Token : Type} {oauth : OAuth Token} {authn : Authenticator Token}

/-- The request names a state and a code, either of which may be missing. -/
def Request.names (request : Request) (state code : Bytes) : Prop :=
  ∃ form, request.form = some form ∧ formGet form "state" = state ∧ formGet form "code" = code

def Request.Stateless (request : Request) : Prop := ∃ code, request.names [] code ∧ code ≠ []

/-- Tokens are retrieved only for the state that was handed out, and only once. -/
structure Guarded (state : Bytes) (history : List (Request × Outcome)) : Prop where
  issued : state ≠ []
  matching : ∀ request outcome, (request, outcome) ∈ history → outcome.retrieved.isSome = true →
    ∃ code, request.names state code
  once : (history.filter fun entry => entry.2.retrieved.isSome).length ≤ 1

theorem randomString_ne_nil (int63 : Nat → Nat) (n : Nat) : randomString int63 (n + 1) ≠ [] := by
  simp [randomString]

theorem oauthHandler_state (oauth : OAuth Token) (authn : Authenticator Token) (request : Request) :
    (oauthHandler oauth authn request).2.state = [] := rfl

theorem oauthHandler_retrieved {request code} :
    (oauthHandler oauth authn request).1.retrieved = some code ↔ request.names authn.state code ∧ code ≠ [] := by
  have outcome : (oauthHandler oauth authn request).1 = (handleCallback oauth authn request).1 := rfl
  rw [outcome]
  unfold handleCallback Request.names
  cases request.form with
  | none => simp
  | some form =>
    simp only [Option.some.injEq, exists_eq_left']
    split
    next differs => simp [differs]
    next same =>
      rw [not_not] at same
      simp only [same, true_and]
      split
      next missing =>
        constructor
        · intro absent
          cases absent
        · rintro ⟨rfl, given⟩
          exact absurd missing given
      next given =>
        have called : some (formGet form "code") = some code ↔ formGet form "code" = code ∧ code ≠ [] := by
          rw [Option.some.injEq]
          constructor
          · rintro rfl
            exact ⟨rfl, given⟩
          · exact And.left
        -- the exchange may fail, but it was tried
        split
        · exact called
        · exact called

theorem mem_callbacks {requests} (reset : authn.state = []) {request outcome}
    (member : (request, outcome) ∈ callbacks oauth authn requests) :
    request ∈ requests ∧ (outcome.retrieved.isSome = true ↔ request.Stateless) := by
  induction requests generalizing authn with
  | nil => cases member
  | cons first requests ih =>
    rcases mem_cons.mp member with same | later
    · cases same
      refine ⟨by simp, ?_⟩
      rw [Option.isSome_iff_exists, Request.Stateless]
      refine exists_congr fun code => oauthHandler_retrieved.trans ?_
      rw [reset]
    · obtain ⟨listed, retrieved⟩ := ih (oauthHandler_state oauth authn first) later
      exact ⟨mem_cons_of_mem _ listed, retrieved⟩

theorem callbacks_requests (oauth : OAuth Token) (authn : Authenticator Token) (requests : List Request) :
    (callbacks oauth authn requests).map Prod.fst = requests := by
  induction requests generalizing authn with
  | nil => rfl
  | cons request requests ih =>
    simp [callbacks, ih]

theorem startOAuthFlow_state {listening int63} {ports url} {started}
    (flow : startOAuthFlow oauth listening int63 ports authn = (.ok url, started)) :
    started.state = randomString int63 10 := by
  unfold startOAuthFlow at flow
  split at flow
  · cases flow
  · cases flow
    rfl

/-- After one started flow tokens are retrieved for the state that was handed out and at
most once, exactly if no callback after the first brings a code without a state. -/
theorem guarded_iff {listening : Int → Bool} {int63 : Nat → Nat} {ports : List Int} {url : Bytes}
    {started : Authenticator Token} (flow : startOAuthFlow oauth listening int63 ports authn = (.ok url, started))
    (requests : List Request) :
    Guarded (randomString int63 10) (callbacks oauth started requests) ↔ ∀ request ∈ requests.tail, ¬request.Stateless := by
  have issued := randomString_ne_nil int63 9
  have state := startOAuthFlow_state flow
  cases requests with
  | nil => exact ⟨fun _ => by simp, fun _ => ⟨issued, by simp [callbacks], by simp [callbacks]⟩⟩
  | cons first requests =>
    have later := fun request outcome => @mem_callbacks _ oauth _ requests (oauthHandler_state oauth started first) request outcome
    constructor
    · intro guarded request listed stateless
      rw [tail_cons, ← callbacks_requests oauth (oauthHandler oauth started first).2 requests] at listed
      obtain ⟨⟨other, outcome⟩, member, rfl⟩ := mem_map.mp listed
      obtain ⟨code, form, parsed, named, -⟩ := guarded.matching other outcome (mem_cons_of_mem _ member)
        ((later other outcome member).2.mpr stateless)
      obtain ⟨-, ⟨form', parsed', unnamed, -⟩, -⟩ := stateless
      rw [parsed] at parsed'
      cases parsed'
      exact issued (named.symm.trans unnamed)
    · intro stated
      have idle : ∀ entry ∈ callbacks oauth (oauthHandler oauth started first).2 requests, entry.2.retrieved.isSome = false := by
        rintro ⟨request, outcome⟩ member
        obtain ⟨listed, retrieved⟩ := later request outcome member
        exact Bool.eq_false_iff.mpr fun some => stated request listed (retrieved.mp some)
      refine ⟨issued, ?_, ?_⟩
      · intro request outcome member some
        rcases mem_cons.mp member with same | after
        · cases same
          obtain ⟨code, called⟩ := Option.isSome_iff_exists.mp some
          exact ⟨code, state ▸ (oauthHandler_retrieved.mp called).1⟩
        · have none := idle _ after
          rw [some] at none
          cases none
      · have rest : (callbacks oauth (oauthHandler oauth started first).2 requests).filter
            (fun entry => entry.2.retrieved.isSome) = [] :=
          filter_eq_nil_iff.mpr fun entry member => by simp [idle entry member]
        simp only [callbacks, filter_cons, rest]
        split <;> simp

def openOAuth : OAuth Bytes := ⟨fun redirectURL state => redirectURL ++ state, fun _ code => .ok code⟩

def newAuthenticator : Authenticator Bytes := ⟨none, [], [], false, 0⟩

def callback (state code : String) : Request := ⟨some [(textBytes "state", textBytes state), (textBytes "code", textBytes code)]⟩

/-- The genuine callback, then one with another state. -/
theorem guarded_genuine :
    let started := (startOAuthFlow openOAuth (fun _ => false) (fun _ => 0) [9080] newAuthenticator).2
    Guarded (randomString (fun _ => 0) 10) (callbacks openOAuth started [callback "aaaaaaaaaa" "42", callback "b" "43"]) := by
  intro started
  have flow : startOAuthFlow openOAuth (fun _ => false) (fun _ => 0) [9080] newAuthenticator = (.ok _, started) := rfl
  refine (guarded_iff flow _).mpr ?_
  rintro request member ⟨-, ⟨form, parsed, named, -⟩, -⟩
  cases mem_singleton.mp member
  cases parsed
  revert named
  decide

/-- A callback with a foreign state clears the state; the next one needs none. -/
theorem not_guarded_stateless :
    let started := (startOAuthFlow openOAuth (fun _ => false) (fun _ => 0) [9080] newAuthenticator).2
    let requests := [callback "x" "", ⟨some [(textBytes "code", textBytes "evil")]⟩]
    started.state = textBytes "aaaaaaaaaa" ∧
      (callbacks openOAuth started requests).map (fun entry => entry.2.retrieved) = [none, some (textBytes "evil")] ∧
      ¬Guarded (randomString (fun _ => 0) 10) (callbacks openOAuth started requests) := by
  intro started requests
  have retrieved : (callbacks openOAuth started requests).map (fun entry => entry.2.retrieved) = [none, some (textBytes "evil")] := by
    decide
  refine ⟨by decide, retrieved, ?_⟩
  intro guarded
  have called : (requests.getLast (by simp [requests]), (⟨some (textBytes "evil"), .callback, true⟩ : Outcome)) ∈
      callbacks openOAuth started requests := mem_cons_of_mem _ (mem_cons_self ..)
  obtain ⟨code, form, parsed, named, -⟩ := guarded.matching _ _ called rfl
  cases parsed
  revert named
  decide

end MycsCommon.Auth
