import MycsCommon.Proofs.TokenExchange

/-! Which texts `SetEncryptedToken` takes, on either side, and what it leaves in the token
when it does not. -/

namespace MycsCommon.Rest
open Network Library Hex RequestAuthToken ResponseAuthToken

variable {encryptedToken : Bytes}

/-- The token is the encrypted text of these fields. -/
def AuthCrypt.Holds (authCrypt : AuthCrypt) (encryptedToken : Bytes) (fields : List Bytes) : Prop :=
  ∃ text, authCrypt.crypt.decryptB64 encryptedToken = some text ∧ text.splitOn bar = fields

theorem AuthCrypt.Holds.unique {authCrypt : AuthCrypt} {fields others}
    (holds : authCrypt.Holds encryptedToken fields) (again : authCrypt.Holds encryptedToken others) :
    fields = others := by
  obtain ⟨text, decrypted, rfl⟩ := holds
  obtain ⟨other, also, rfl⟩ := again
  rw [Option.some.inj (decrypted.symm.trans also)]

theorem AuthCrypt.Holds.fields {authCrypt : AuthCrypt} {key hexKey transport payload hexKey' transport' payload'}
    (holds : authCrypt.Holds encryptedToken [key, hexKey, transport, payload])
    (again : authCrypt.Holds encryptedToken [key, hexKey', transport', payload']) :
    hexKey' = hexKey ∧ transport' = transport ∧ payload' = payload := by
  simpa using again.unique holds

/-- A request token with exactly its format taken, its fields kept, and nothing kept of the rest. -/
structure RequestAuthToken.Exact (token : RequestAuthToken) (encryptedToken : Bytes) : Prop where
  accepts : (token.setEncryptedToken encryptedToken).2 = none ↔ ∃ transportDataChecksum payloadChecksum,
    token.authCrypt.Holds encryptedToken [token.authCrypt.authTokenKey, transportDataChecksum, payloadChecksum]
  keeps : ∀ transportDataChecksum payloadChecksum,
    token.authCrypt.Holds encryptedToken [token.authCrypt.authTokenKey, transportDataChecksum, payloadChecksum] →
      (token.setEncryptedToken encryptedToken).1 = { token with transportDataChecksum, payloadChecksum }
  rejects : (token.setEncryptedToken encryptedToken).2 ≠ none → (token.setEncryptedToken encryptedToken).1 = token

/-- The same of a response token, which has a hash key in its format too. -/
structure ResponseAuthToken.Exact (token : ResponseAuthToken) (encryptedToken : Bytes) : Prop where
  accepts : (token.setEncryptedToken encryptedToken).2 = none ↔ ∃ hexKey transportDataChecksum payloadChecksum,
    token.authCrypt.Holds encryptedToken [token.authCrypt.authTokenKey, hexKey, transportDataChecksum, payloadChecksum] ∧
      (bytes.decode hexKey).isSome = true
  keeps : ∀ hexKey hashKey transportDataChecksum payloadChecksum,
    token.authCrypt.Holds encryptedToken [token.authCrypt.authTokenKey, hexKey, transportDataChecksum, payloadChecksum] →
      bytes.decode hexKey = some hashKey →
        (token.setEncryptedToken encryptedToken).1 = { token with hashKey, transportDataChecksum, payloadChecksum }
  rejects : (token.setEncryptedToken encryptedToken).2 ≠ none → (token.setEncryptedToken encryptedToken).1 = token

/-! How the two functions end. -/

inductive RequestAuthToken.Ends (token : RequestAuthToken) (encryptedToken : Bytes) : RequestAuthToken × Option RestError → Prop where
  | taken {transportDataChecksum payloadChecksum : Bytes}
      (holds : token.authCrypt.Holds encryptedToken [token.authCrypt.authTokenKey, transportDataChecksum, payloadChecksum]) :
      Ends token encryptedToken ({ token with transportDataChecksum, payloadChecksum }, none)
  | refused (error : RestError)
      (other : ∀ transportDataChecksum payloadChecksum,
        ¬ token.authCrypt.Holds encryptedToken [token.authCrypt.authTokenKey, transportDataChecksum, payloadChecksum]) :
      Ends token encryptedToken (token, some error)

theorem RequestAuthToken.setEncryptedToken_ends (token : RequestAuthToken) (encryptedToken : Bytes) :
    token.Ends encryptedToken (token.setEncryptedToken encryptedToken) := by
  unfold setEncryptedToken
  cases decrypted : token.authCrypt.crypt.decryptB64 encryptedToken with
  | none =>
    refine .refused _ ?_
    rintro _ _ ⟨text, also, -⟩
    cases decrypted.symm.trans also
  | some text =>
    have whole : token.authCrypt.Holds encryptedToken (text.splitOn bar) := ⟨text, decrypted, rfl⟩
    simp only
    split
    next key transportDataChecksum payloadChecksum fields =>
      rw [fields] at whole
      split
      next same => exact .taken (same ▸ whole)
      next different =>
        refine .refused _ fun transport payload holds => different ?_
        exact (List.cons.inj (whole.unique holds)).1
    next other => exact .refused _ fun transport payload holds => other _ _ _ (whole.unique holds)

inductive ResponseAuthToken.Ends (token : ResponseAuthToken) (encryptedToken : Bytes) :
    ResponseAuthToken × Option RestError → Prop where
  | taken {hexKey hashKey transportDataChecksum payloadChecksum : Bytes}
      (holds : token.authCrypt.Holds encryptedToken [token.authCrypt.authTokenKey, hexKey, transportDataChecksum, payloadChecksum])
      (decodes : bytes.decode hexKey = some hashKey) :
      Ends token encryptedToken ({ token with hashKey, transportDataChecksum, payloadChecksum }, none)
  | garbled {hexKey transportDataChecksum payloadChecksum : Bytes} (error : RestError)
      (holds : token.authCrypt.Holds encryptedToken [token.authCrypt.authTokenKey, hexKey, transportDataChecksum, payloadChecksum])
      (faulty : bytes.decode hexKey = none) :
      Ends token encryptedToken ({ token with hashKey := bytes.decoded hexKey }, some error)
  | refused (error : RestError)
      (other : ∀ hexKey transportDataChecksum payloadChecksum,
        ¬ token.authCrypt.Holds encryptedToken [token.authCrypt.authTokenKey, hexKey, transportDataChecksum, payloadChecksum]) :
      Ends token encryptedToken (token, some error)

theorem ResponseAuthToken.setEncryptedToken_ends (token : ResponseAuthToken) (encryptedToken : Bytes) :
    token.Ends encryptedToken (token.setEncryptedToken encryptedToken) := by
  unfold setEncryptedToken
  cases decrypted : token.authCrypt.crypt.decryptB64 encryptedToken with
  | none =>
    refine .refused _ ?_
    rintro _ _ _ ⟨text, also, -⟩
    cases decrypted.symm.trans also
  | some text =>
    have whole : token.authCrypt.Holds encryptedToken (text.splitOn bar) := ⟨text, decrypted, rfl⟩
    simp only
    split
    next key hexKey transportDataChecksum payloadChecksum fields =>
      rw [fields] at whole
      split
      next same =>
        rw [same] at whole
        split
        next faulty => exact .garbled _ whole faulty
        next hashKey decodes => exact .taken whole decodes
      next different =>
        refine .refused _ fun hexKey transport payload holds => different ?_
        exact (List.cons.inj (whole.unique holds)).1
    next other => exact .refused _ fun hexKey transport payload holds => other _ _ _ _ (whole.unique holds)

theorem RequestAuthToken.setEncryptedToken_exact (token : RequestAuthToken) (encryptedToken : Bytes) : token.Exact encryptedToken := by
  have ends := token.setEncryptedToken_ends encryptedToken
  generalize ended : token.setEncryptedToken encryptedToken = result at ends
  cases ends with
  | @taken transportDataChecksum payloadChecksum holds =>
    refine ⟨?_, ?_, ?_⟩ <;> rw [ended]
    · exact iff_of_true rfl ⟨_, _, holds⟩
    · intro transport payload again
      have same := holds.unique again
      simp only [List.cons.injEq, and_true, true_and] at same
      rw [same.1, same.2]
    · exact fun failed => absurd rfl failed
  | refused error other =>
    refine ⟨?_, ?_, ?_⟩ <;> rw [ended]
    · exact iff_of_false (by simp) fun ⟨_, _, holds⟩ => other _ _ holds
    · exact fun _ _ holds => absurd holds (other _ _)
    · exact fun _ => rfl

/-- The hash key of the text is faulty, and the bytes before the fault are not those the token has. -/
def ResponseAuthToken.Garbles (token : ResponseAuthToken) (encryptedToken : Bytes) : Prop :=
  ∃ hexKey transportDataChecksum payloadChecksum,
    token.authCrypt.Holds encryptedToken [token.authCrypt.authTokenKey, hexKey, transportDataChecksum, payloadChecksum] ∧
      bytes.decode hexKey = none ∧ bytes.decoded hexKey ≠ token.hashKey

theorem ResponseAuthToken.setEncryptedToken_exact_iff (token : ResponseAuthToken) (encryptedToken : Bytes) :
    token.Exact encryptedToken ↔ ¬ token.Garbles encryptedToken := by
  have ends := token.setEncryptedToken_ends encryptedToken
  generalize ended : token.setEncryptedToken encryptedToken = result at ends
  cases ends with
  | @taken hexKey hashKey transportDataChecksum payloadChecksum holds decodes =>
    refine iff_of_true ⟨?_, ?_, ?_⟩ ?_
    · rw [ended]
      exact iff_of_true rfl ⟨_, _, _, holds, by rw [decodes]; rfl⟩
    · intro hexKey hashKey transport payload again known
      obtain ⟨rfl, rfl, rfl⟩ := holds.fields again
      cases decodes.symm.trans known
      rw [ended]
    · rw [ended]
      exact fun failed => absurd rfl failed
    · rintro ⟨hexKey, transport, payload, again, faulty, -⟩
      rw [(holds.fields again).1, decodes] at faulty
      cases faulty
  | @garbled hexKey transportDataChecksum payloadChecksum error holds faulty =>
    constructor
    · rintro exact ⟨other, transport, payload, again, -, different⟩
      rw [(holds.fields again).1] at different
      have kept := exact.rejects (by rw [ended]; simp)
      rw [ended] at kept
      exact different (congrArg (·.hashKey) kept)
    · intro whole
      have same : bytes.decoded hexKey = token.hashKey := by
        by_contra different
        exact whole ⟨_, _, _, holds, faulty, different⟩
      refine ⟨?_, ?_, ?_⟩ <;> rw [ended]
      · refine iff_of_false (by simp) ?_
        rintro ⟨other, transport, payload, again, known⟩
        rw [(holds.fields again).1, faulty] at known
        cases known
      · intro other hashKey transport payload again known
        rw [(holds.fields again).1, faulty] at known
        cases known
      · rw [same]
        exact fun _ => rfl
  | refused error other =>
    refine iff_of_true ⟨?_, ?_, ?_⟩ ?_
    · rw [ended]
      exact iff_of_false (by simp) fun ⟨_, _, _, holds, _⟩ => other _ _ _ holds
    · exact fun _ _ _ _ holds => absurd holds (other _ _ _)
    · rw [ended]
      exact fun _ => rfl
    · exact fun ⟨_, _, _, holds, _⟩ => other _ _ _ holds

/-- A request token does not take back what a request token gave out, unless another key opens it to something else. -/
theorem RequestAuthToken.not_reflected {token other : RequestAuthToken} {nonce}
    (given : token.getEncryptedToken nonce = .ok encryptedToken)
    (opens : ∀ text, other.authCrypt.crypt.decryptB64 encryptedToken = some text → token.authCrypt.crypt.decryptB64 encryptedToken = some text) :
    (other.setEncryptedToken encryptedToken).2 ≠ none := by
  intro taken
  obtain ⟨transport, payload, text, decrypted, fields⟩ := (other.setEncryptedToken_exact encryptedToken).accepts.mp taken
  unfold getEncryptedToken at given
  split at given
  · cases given
    have plain := opens text decrypted
    rw [Crypt.decryptB64_encryptB64, Option.some.injEq] at plain
    have more := Text.length_lt_splitOn bar [token.authCrypt.authTokenKey, bytes.encode token.hashKey, token.transportDataChecksum]
      token.payloadChecksum
    have flat : [token.authCrypt.authTokenKey, bytes.encode token.hashKey, token.transportDataChecksum].flatMap (· ++ [bar]) ++
        token.payloadChecksum = text := by simpa using plain
    rw [flat, fields] at more
    simp at more
  · cases given

/-- Token parsing on both sides. The request token is exact, and does not take a request token
back; the response token is exact but for hash keys it cannot decode to the end. -/
theorem token_parsing_iff (encryptedToken : Bytes) :
    (∀ token : RequestAuthToken, token.Exact encryptedToken) ∧
      (∀ (token other : RequestAuthToken) (nonce : Nonce), token.getEncryptedToken nonce = .ok encryptedToken →
        (∀ text, other.authCrypt.crypt.decryptB64 encryptedToken = some text →
          token.authCrypt.crypt.decryptB64 encryptedToken = some text) →
        (other.setEncryptedToken encryptedToken).2 ≠ none) ∧
      ∀ token : ResponseAuthToken, token.Exact encryptedToken ↔ ¬ token.Garbles encryptedToken :=
  ⟨fun token => token.setEncryptedToken_exact encryptedToken, fun _ _ _ given opens => not_reflected given opens,
    fun token => token.setEncryptedToken_exact_iff encryptedToken⟩

/-- A new response token takes a text with a hash key of one byte. -/
theorem token_parsing_hex : Exact (.new ⟨true, textBytes "key", flipCrypt⟩)
    (flipCrypt.encryptB64 zeroNonce (textBytes "key|0a|t|p")) := by
  refine ((token_parsing_iff _).2.2 _).mpr ?_
  rintro ⟨hexKey, transport, payload, ⟨text, decrypted, fields⟩, faulty, -⟩
  rw [ResponseAuthToken.new, Crypt.decryptB64_encryptB64, Option.some.injEq] at decrypted
  have split : (textBytes "key|0a|t|p").splitOn bar = [textBytes "key", textBytes "0a", textBytes "t", textBytes "p"] := by decide
  rw [← decrypted, split] at fields
  simp only [List.cons.injEq] at fields
  rw [← fields.2.1] at faulty
  exact absurd faulty (by decide)

/-- A refused token leaves the bytes before the fault as the hash key. -/
theorem garbled_hash_key :
    let token : ResponseAuthToken := ⟨⟨true, textBytes "key", flipCrypt⟩, stepKey.val, [], []⟩
    let refused := token.setEncryptedToken (flipCrypt.encryptB64 zeroNonce (textBytes "key|0ag0|t|p"))
    refused.2 = some .hashKeyEncoding ∧ refused.1.hashKey = [10] ∧ token.hashKey ≠ [10] := by
  decide +kernel

end MycsCommon.Rest
