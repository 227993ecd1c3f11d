import MycsCommon.Mycsnode.Authenticate
import MycsCommon.Mycsnode.ApiClient
import Mathlib.Data.List.Induction

/-! When a client counts as authenticated. Every way out of `Authenticate` but the last
leaves the flag down, so the flag stands for the agreement of the last attempt. -/

namespace MycsCommon.Mycsnode
open Network Library Rest Crypto Machine

variable {ECDHKey PublicKey : Type} {deps : AuthDeps ECDHKey PublicKey} {identity : Identity} {attempt : Attempt ECDHKey}
  {session : Session} {now : Int}

theorem bind_eq_ok {ε α β : Type} {run} {next : α → Except ε β} {result : β} :
    run >>= next = .ok result ↔ ∃ value, run = .ok value ∧ next value = .ok result := by
  cases run with
  | error | ok => simp [bind, Except.bind]

theorem orElse_eq_ok {α : Type} {error found} {value : α} : orElse error found = .ok value ↔ found = some value := by
  cases found <;> simp [orElse]

/-- What a successful attempt rests on: the answer of the server to a request of the attempt,
with the name of the client and the nonce of the attempt, and the secret its node key shares
with the key of the attempt. -/
structure Agreed (deps : AuthDeps ECDHKey PublicKey) (identity : Identity) (attempt : Attempt ECDHKey)
    (agreement : Agreement) : Prop where
  secret : ∃ ecdhKey, attempt.ecdhKey = some ecdhKey ∧
    sharedSecret deps.curve ecdhKey agreement.authRespKey.nodeECDHKey = some agreement.encryptionKey
  answer : ∃ request, attempt.doPost request = .ok agreement.authResponse
  opened : ∃ json, decryptBase64 deps.decrypt agreement.authResponse.authRespKey = some json ∧
    deps.unmarshal json = some agreement.authRespKey
  refName : agreement.authRespKey.refName = identity.refName
  nonce : agreement.authRespKey.nonce = attempt.now

theorem agree_ok {agreement : Agreement} (done : agree deps identity attempt = .ok agreement) :
    Agreed deps identity attempt agreement := by
  unfold agree at done
  obtain ⟨ecdhKey, drawn, done⟩ := bind_eq_ok.mp done
  obtain ⟨publicKey, -, done⟩ := bind_eq_ok.mp done
  obtain ⟨requestJSON, -, done⟩ := bind_eq_ok.mp done
  obtain ⟨encrypted, -, done⟩ := bind_eq_ok.mp done
  split at done
  · cases done
  · rename_i authResponse answered
    obtain ⟨json, decrypted, done⟩ := bind_eq_ok.mp done
    obtain ⟨authRespKey, read, done⟩ := bind_eq_ok.mp done
    by_cases wrong : authRespKey.refName ≠ identity.refName ∨ authRespKey.nonce ≠ attempt.now
    · rw [if_pos wrong] at done
      cases done
    · rw [if_neg wrong] at done
      obtain ⟨encryptionKey, shared, done⟩ := bind_eq_ok.mp done
      cases done
      obtain ⟨sameName, sameNonce⟩ := not_or.mp wrong
      exact ⟨⟨ecdhKey, orElse_eq_ok.mp drawn, orElse_eq_ok.mp shared⟩, ⟨_, answered⟩,
        ⟨json, orElse_eq_ok.mp decrypted, orElse_eq_ok.mp read⟩, not_not.mp sameName, not_not.mp sameNonce⟩

/-- Every way `Authenticate` can end. -/
inductive AuthOutcome (deps : AuthDeps ECDHKey PublicKey) (identity : Identity) (attempt : Attempt ECDHKey)
    (session : Session) : Except AuthError Unit × Session → Prop where
  | failed (error : AuthError) : AuthOutcome deps identity attempt session (.error error, session.reset)
  | unusable : AuthOutcome deps identity attempt session (.error .newCrypt, { session.reset with crypt := none })
  | agreed {agreement : Agreement} {crypt : Crypt} (agreed : Agreed deps identity attempt agreement)
      (made : newCrypt deps.aes agreement.encryptionKey = some crypt) :
      AuthOutcome deps identity attempt session (.ok (),
        { crypt := some crypt
          keyTimeoutAt := agreement.authRespKey.timeoutAt
          authIDKey := agreement.authResponse.authRespIDKey
          isAuthenticated := true })

theorem authenticate_outcome (deps : AuthDeps ECDHKey PublicKey) (identity : Identity) (attempt : Attempt ECDHKey)
    (session : Session) : AuthOutcome deps identity attempt session (authenticate deps identity attempt session) := by
  unfold authenticate
  cases done : agree deps identity attempt with
  | error error => exact .failed error
  | ok agreement =>
    simp only
    cases made : newCrypt deps.aes agreement.encryptionKey with
    | none => exact .unusable
    | some crypt => exact .agreed (agree_ok done) made

/-- The flag stands for the last attempt: it succeeded, nothing but questions followed, and
the key and its expiry are those it agreed on. -/
structure Backed (deps : AuthDeps ECDHKey PublicKey) (identity : Identity) (calls : List (AuthCall ECDHKey))
    (session : Session) (attempt : Attempt ECDHKey) (agreement : Agreement) : Prop where
  last : ∃ before after, calls = before ++ .authenticate attempt :: after ∧
    (∀ call ∈ after, ∃ time, call = .isAuthenticated time) ∧
    (authenticate deps identity attempt (sessionAfter deps identity before)).1 = .ok ()
  agreed : Agreed deps identity attempt agreement
  crypt : ∃ crypt, newCrypt deps.aes agreement.encryptionKey = some crypt ∧ session.crypt = some crypt
  keyTimeoutAt : session.keyTimeoutAt = agreement.authRespKey.timeoutAt

theorem backed_after (deps : AuthDeps ECDHKey PublicKey) (identity : Identity) (calls : List (AuthCall ECDHKey))
    (flagged : (sessionAfter deps identity calls).isAuthenticated = true) :
    ∃ attempt agreement, Backed deps identity calls (sessionAfter deps identity calls) attempt agreement := by
  induction calls using List.reverseRecOn with
  | nil => cases flagged
  | append_singleton calls call ih =>
    have step : sessionAfter deps identity (calls ++ [call]) = call.exec deps identity (sessionAfter deps identity calls) := by
      simp [sessionAfter]
    rw [step] at flagged ⊢
    cases call with
    | reset => cases flagged
    | isAuthenticated time =>
      obtain ⟨attempt, agreement, ⟨before, after, parts, questions, succeeded⟩, agreed, crypt, timeout⟩ := ih flagged
      refine ⟨attempt, agreement, ⟨before, after ++ [.isAuthenticated time], by simp [parts], ?_, succeeded⟩, agreed, crypt,
        timeout⟩
      intro call member
      rcases List.mem_append.mp member with old | new
      · exact questions call old
      · exact ⟨time, List.mem_singleton.mp new⟩
    | authenticate attempt =>
      have outcome := authenticate_outcome deps identity attempt (sessionAfter deps identity calls)
      simp only [AuthCall.exec] at flagged ⊢
      generalize ended : authenticate deps identity attempt (sessionAfter deps identity calls) = result at outcome flagged ⊢
      cases outcome with
      | failed | unusable => cases flagged
      | agreed agreed made =>
        exact ⟨attempt, _, ⟨calls, [], rfl, by simp, by rw [ended]⟩, agreed, ⟨_, made, rfl⟩, rfl⟩

/-- Whenever `IsAuthenticated` returns true, the last attempt succeeded and was not reset, the
client holds the crypt of the secret that attempt shares with the node, and the key of
that answer has not expired. -/
theorem isAuthenticated_sound (deps : AuthDeps ECDHKey PublicKey) (identity : Identity) (calls : List (AuthCall ECDHKey))
    (now : Int) (authenticated : (sessionAfter deps identity calls).isAuthenticatedAt now = true) :
    ∃ attempt agreement, Backed deps identity calls (sessionAfter deps identity calls) attempt agreement ∧
      now < agreement.authRespKey.timeoutAt := by
  obtain ⟨flagged, early⟩ := (Bool.and_eq_true _ _).mp authenticated
  obtain ⟨attempt, agreement, backed⟩ := backed_after deps identity calls flagged
  exact ⟨attempt, agreement, backed, backed.keyTimeoutAt ▸ of_decide_eq_true early⟩

def sampleDeps : AuthDeps Unit Unit where
  curve := ⟨fun _ => some (), fun _ _ => List.replicate 32 1⟩
  publicKey _ := some []
  marshal _ := some []
  encryptBase64 := some
  decrypt := some
  unmarshal _ := some { nodeECDHKey := [], nonce := 5, timeoutAt := 100, refName := [1] }
  aes := plainAes

def sampleAttempt (now : Int) : Attempt Unit := { ecdhKey := some (), now, doPost := fun _ => .ok ⟨[], []⟩ }

theorem isAuthenticated_sound_sample :
    ∃ attempt agreement, Backed sampleDeps ⟨[1], [], []⟩ [.authenticate (sampleAttempt 4), .authenticate (sampleAttempt 5)]
        (sessionAfter sampleDeps ⟨[1], [], []⟩ [.authenticate (sampleAttempt 4), .authenticate (sampleAttempt 5)])
        attempt agreement ∧ (7 : Int) < agreement.authRespKey.timeoutAt :=
  isAuthenticated_sound sampleDeps ⟨[1], [], []⟩ [.authenticate (sampleAttempt 4), .authenticate (sampleAttempt 5)] 7
    (by decide)

/-! Between its first and its last line `Authenticate` is what the requests of the client
see of it: it takes the mutex, may replace the key, and releases the mutex. -/

/-- What the requests share with `Authenticate`. -/
structure Shares (session : Session) (client : ApiClient Crypt) : Prop where
  crypt : client.crypt = session.crypt
  isAuthenticated : client.isAuthenticated = session.isAuthenticated
  keyTimeoutAt : client.keyTimeoutAt = session.keyTimeoutAt
  free : client.keyRefreshMutex = .nobody

theorem authenticate_steps {client} (shares : Shares session client) (attempt : Attempt ECDHKey) :
    ∃ actions after, run step actions client = some after ∧
      Shares (authenticate deps identity attempt session).2 after := by
  obtain ⟨crypt, -, timeout, free⟩ := shares
  have outcome := authenticate_outcome deps identity attempt session
  generalize authenticate deps identity attempt session = result at outcome
  cases outcome with
  | failed error =>
    refine ⟨[.authenticate, .fail], _, by simp [run, step, free]; rfl, ?_⟩
    exact ⟨crypt, rfl, timeout, rfl⟩
  | unusable =>
    refine ⟨[.authenticate, .newCrypt none], _, by simp [run, step, free]; rfl, ?_⟩
    exact ⟨rfl, rfl, timeout, rfl⟩
  | @agreed agreement crypt agreed made =>
    refine ⟨[.authenticate, .newCrypt (some crypt), .finish agreement.authRespKey.timeoutAt], _,
      by simp [run, step, free]; rfl, ?_⟩
    exact ⟨rfl, rfl, rfl, rfl⟩

end MycsCommon.Mycsnode
