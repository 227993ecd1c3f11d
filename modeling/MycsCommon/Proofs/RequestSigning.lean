import MycsCommon.Proofs.SignedFields
import MycsCommon.Rest.RestClient

/-! The server validates the request as it was sent, the client signed it before the query
and the token header were added. -/

namespace MycsCommon.Rest
open Network Library List Base64 Prod RequestAuthToken ResponseAuthToken RestRequest

section Sent
variable (libs : Libs) {urls : UrlLib} {client : RestApiClient} {authCrypt : AuthCrypt} {request : RestRequest} {url : Url}

def RestRequest.signed (request : RestRequest) (url : Url) (body : Body) : Request := { url, header := request.header, body }

/-- The signed request with the token header and the query. -/
def RestRequest.sent (request : RestRequest) (urls : UrlLib) (url : Url) (body : Body) (encryptedToken : Bytes) : Request where
  url := { url with rawQuery := request.query urls url.rawQuery }
  header := request.header.set (textBytes "X-Auth-Token") encryptedToken
  body := body

def RestRequest.token (request : RestRequest) (authCrypt : AuthCrypt) (hashKey : HashKey) (url : Url) (body : Body)
    (payloadChecksum : Bytes) : AuthTokenCommon :=
  ⟨authCrypt, hashKey.val, transportChecksum libs hashKey.val request.keysToSign (request.signed url body).value, payloadChecksum⟩

theorem RestRequest.reader_eq (hashKey : HashKey) (payloadNonce : Nonce) : ∃ body payloadChecksum, bar ∉ payloadChecksum ∧
    ∀ tokenNonce, request.reader libs ⟨hashKey, payloadNonce, tokenNonce⟩ (some (.new authCrypt hashKey)) =
      .ok (some ⟨⟨authCrypt, hashKey.val, [], payloadChecksum⟩⟩, body) := by
  unfold reader
  cases request.body with
  | none => exact ⟨none, [], by simp, fun _ => rfl⟩
  | some payload =>
    exact ⟨some (libs.encodePayload (encode (authCrypt.crypt.encrypt payloadNonce payload))), _,
      bar_notMem_hex (libs.sum64 hashKey.val payload),
      fun _ => bind_of_ok (AuthTokenCommon.encryptPayload_eq libs hashKey.property payloadNonce payload)⟩

theorem RestRequest.send_eq (authenticates : client.authCrypt = some authCrypt) (authenticated : authCrypt.isAuthenticated)
    (parsed : urls.parse (client.requestUrl request.path) = some url) (unread : textBytes "body" ∉ request.keysToSign)
    (hashKey : HashKey) (payloadNonce : Nonce) (method : Method) : ∃ body payloadChecksum, bar ∉ payloadChecksum ∧
    ∀ tokenNonce, ∃ encryptedToken,
      RequestAuthToken.getEncryptedToken ⟨request.token libs authCrypt hashKey url body payloadChecksum⟩ tokenNonce =
        .ok encryptedToken ∧
      request.send libs urls client ⟨hashKey, payloadNonce, tokenNonce⟩ method =
        .ok ⟨method, request.sent urls url body encryptedToken,
          some ⟨request.token libs authCrypt hashKey url body payloadChecksum⟩⟩ := by
  obtain ⟨body, payloadChecksum, plain, reads⟩ := @reader_eq libs authCrypt request hashKey payloadNonce
  refine ⟨body, payloadChecksum, plain, fun tokenNonce => ?_⟩
  obtain ⟨encryptedToken, encrypts⟩ : ∃ encryptedToken, RequestAuthToken.getEncryptedToken
      ⟨request.token libs authCrypt hashKey url body payloadChecksum⟩ tokenNonce = .ok encryptedToken :=
    ⟨_, if_pos authenticated⟩
  have signs := @signTransportData_eq libs ⟨⟨authCrypt, hashKey.val, [], payloadChecksum⟩⟩ hashKey.property
    request.keysToSign (request.signed url body)
  rw [if_neg fun panics => unread panics.1] at signs
  have authorized : request.authorize libs ⟨hashKey, payloadNonce, tokenNonce⟩ (request.signed url body)
      (some ⟨⟨authCrypt, hashKey.val, [], payloadChecksum⟩⟩) =
        .ok (some ⟨request.token libs authCrypt hashKey url body payloadChecksum⟩, { request.signed url body with
          header := request.header.set (textBytes "X-Auth-Token") encryptedToken }) := by
    refine (bind_of_ok signs).trans ?_
    exact bind_of_ok encrypts
  refine ⟨encryptedToken, encrypts, ?_⟩
  rw [send, authenticates]
  refine (bind_of_ok (reads tokenNonce)).trans ?_
  simp only [parsed]
  exact bind_of_ok authorized

theorem RestRequest.receive_sent {libs} {hashKey body payloadChecksum encryptedToken tokenNonce}
    (authenticated : authCrypt.isAuthenticated) (plainKey : bar ∉ authCrypt.authTokenKey)
    (plainNames : ∀ key ∈ request.keysToSign, bar ∉ key) (plain : bar ∉ payloadChecksum)
    (encrypts : RequestAuthToken.getEncryptedToken ⟨request.token libs authCrypt hashKey url body payloadChecksum⟩ tokenNonce = .ok encryptedToken) :
    receive libs authCrypt (request.sent urls url body encryptedToken) = validateTransportData libs
      ⟨request.token libs authCrypt hashKey url body payloadChecksum⟩ (request.sent urls url body encryptedToken) := by
  obtain ⟨other, encrypts', heard⟩ := @heard ⟨request.token libs authCrypt hashKey url body payloadChecksum⟩
    authenticated plainKey (bar_notMem_transportChecksum libs _ _ plainNames) plain tokenNonce
  obtain rfl : encryptedToken = other := Except.ok.inj (encrypts.symm.trans encrypts')
  have header : (request.sent urls url body encryptedToken).header.get (textBytes "X-Auth-Token") = encryptedToken :=
    (Header.get_set _ _ _ _).trans (if_pos rfl)
  have heard : (ResponseAuthToken.new authCrypt).setEncryptedToken encryptedToken = _ := heard
  simp [receive, header, heard]

theorem receive_barred {libs} (barred : bar ∈ authCrypt.authTokenKey) (received : Request) :
    ¬∃ read, receive libs authCrypt received = .ok read := by
  have rejects (encryptedToken : Bytes) :
      ∃ error, ((ResponseAuthToken.new authCrypt).setEncryptedToken encryptedToken).2 = some error := by
    unfold ResponseAuthToken.setEncryptedToken
    split
    · exact ⟨_, rfl⟩
    · split
      next key _ _ _ parts =>
        have first : bar ∉ key := notMem_of_mem_splitOn (parts ▸ mem_cons_self)
        have differs : key ≠ authCrypt.authTokenKey := fun same => first (same ▸ barred)
        exact ⟨_, congrArg snd (if_neg differs)⟩
      next => exact ⟨_, rfl⟩
  obtain ⟨error, rejected⟩ := rejects (received.header.get (textBytes "X-Auth-Token"))
  rintro ⟨read, accepted⟩
  unfold receive at accepted
  split at accepted
  next same => rw [same] at rejected; cases rejected
  next => cases accepted

theorem RestRequest.sent_value {body encryptedToken key} (unread : key ≠ textBytes "body") :
    (request.sent urls url body encryptedToken).value key =
      if key = textBytes "url" then ({ url with rawQuery := request.query urls url.rawQuery } : Url).requestURI
      else if canonicalMIMEHeaderKey key = textBytes "X-Auth-Token" then encryptedToken
      else (request.signed url body).value key := by
  unfold Request.value
  split_ifs with named token
  · rfl
  · exact (Header.get_set _ _ _ _).trans (if_pos token)
  · exact (Header.get_set _ _ _ _).trans (if_neg token)

end Sent

/-- Nothing that is signed changes before the request is sent. -/
structure RestRequest.Unchanged (request : RestRequest) (authCrypt : AuthCrypt) (url : Url) : Prop where
  key : bar ∉ authCrypt.authTokenKey
  args : request.queryArgs = []
  query : request.rawQuery = [] ∨ request.rawQuery = url.rawQuery
  token : ∀ name ∈ request.headers.map fst, canonicalMIMEHeaderKey name ≠ textBytes "X-Auth-Token"

/-- Runs of values that differ only where the token stands agree only if the two tokens start alike. -/
private theorem tokens_start_alike {first second} {token other : Bytes} {isToken : Bytes → Prop} {keys : List Bytes}
    (tokens : ∀ key ∈ keys, isToken key → first key = token ∧ second key = other)
    (same : ∀ key ∈ keys, ¬isToken key → first key = second key) (some : ∃ key ∈ keys, isToken key)
    (together : keys.flatMap first = keys.flatMap second) : ∃ rest otherRest, token ++ rest = other ++ otherRest := by
  induction keys with
  | nil =>
    obtain ⟨key, member, -⟩ := some
    cases member
  | cons key keys ih =>
    rw [flatMap_cons, flatMap_cons] at together
    by_cases named : isToken key
    · obtain ⟨is, isOther⟩ := tokens key mem_cons_self named
      rw [is, isOther] at together
      exact ⟨_, _, together⟩
    · rw [same key mem_cons_self named, append_cancel_left_eq] at together
      obtain ⟨later, member, token⟩ := some
      rcases mem_cons.mp member with rfl | inside
      · exact absurd token named
      · exact ih (fun key member => tokens key (mem_cons_of_mem _ member))
          (fun key member => same key (mem_cons_of_mem _ member)) ⟨later, inside, token⟩ together

private theorem nonce_of_start {crypt : Crypt} {nonce other plainData otherData rest otherRest}
    (same : crypt.encryptB64 nonce plainData ++ rest = crypt.encryptB64 other otherData ++ otherRest) :
    nonce = other := by
  have quanta (nonce : Nonce) : 3 ∣ nonce.val.length := by rw [nonce.property]; decide
  have long (nonce : Nonce) : (encode nonce.val).length = 16 := by rw [length_encode (quanta nonce), nonce.property]
  rw [Crypt.encryptB64, Crypt.encryptB64, Crypt.encrypt, Crypt.encrypt, encode_append (quanta nonce),
    encode_append (quanta other), append_assoc, append_assoc] at same
  have starts := (append_inj same ((long nonce).trans (long other).symm)).1
  exact Subtype.ext (encode_injective starts)

/-- Whatever is drawn, the request is sent and the receiving side accepts it as it was sent. It sees the headers as
they were handed to `net/http`, which drops a few and trims values. -/
def RestRequest.Agreed (libs : Libs) (urls : UrlLib) (client : RestApiClient) (authCrypt : AuthCrypt) (method : Method)
    (request : RestRequest) : Prop :=
  ∀ draws, ∃ sent, request.send libs urls client draws method = .ok sent ∧
    ∃ read, receive libs authCrypt sent.httpRequest = .ok read

section Agreed
variable {libs : Libs} {urls : UrlLib} {client : RestApiClient} {authCrypt : AuthCrypt} {request : RestRequest} {url : Url}
  (authenticates : client.authCrypt = some authCrypt) (authenticated : authCrypt.isAuthenticated)
  (parsed : urls.parse (client.requestUrl request.path) = some url)
  (plain : ∀ key ∈ request.keysToSign, tilde ∉ key ∧ bar ∉ key ∧ key ≠ textBytes "body")

include plain in
private theorem unread : textBytes "body" ∉ request.keysToSign := fun member => (plain _ member).2.2 rfl

include plain in
private theorem validates_sent (hashKey : HashKey) (body : Body) (payloadChecksum encryptedToken : Bytes)
    (unchanged : request.Unchanged authCrypt url) :
    ∃ read, validateTransportData libs ⟨request.token libs authCrypt hashKey url body payloadChecksum⟩
      (request.sent urls url body encryptedToken) = .ok read := by
  have query : request.query urls url.rawQuery = url.rawQuery := by
    rw [query, if_neg (not_not.mpr unchanged.args)]
    rcases unchanged.query with none | same
    · rw [if_neg (not_not.mpr none)]
    · rw [same, ite_self]
  have values : request.keysToSign.flatMap (request.sent urls url body encryptedToken).value =
      request.keysToSign.flatMap (request.signed url body).value := by
    refine flatMap_congr fun key member => ?_
    rw [sent_value (plain key member).2.2, query]
    split_ifs with isUrl isToken
    · rw [isUrl]
      rfl
    · rcases mem_cons.mp member with same | named
      · exact absurd same isUrl
      · exact absurd isToken (unchanged.token key named)
    · rfl
  refine ⟨request.sent urls url body encryptedToken,
    ((Request.reads _).validateData libs hashKey.property _ _ (request.signed url body).value).trans ?_⟩
  rw [keysRead_plain fun key member => (plain key member).1, if_neg fun panics => unread plain panics.1, values, if_pos rfl]

include authenticates authenticated parsed plain

private theorem Agreed.together (injective : ∀ hashKey, Function.Injective (libs.sum64 hashKey)) {method}
    (agreed : request.Agreed libs urls client authCrypt method) (plainKey : bar ∉ authCrypt.authTokenKey) :
    ∃ body, ∀ tokenNonce, ∃ plainData,
      request.keysToSign.flatMap (request.sent urls url body (authCrypt.crypt.encryptB64 tokenNonce plainData)).value =
        request.keysToSign.flatMap (request.signed url body).value := by
  obtain ⟨body, payloadChecksum, plainPayload, sends⟩ :=
    request.send_eq libs authenticates authenticated parsed (unread plain) stepKey zeroNonce method
  refine ⟨body, fun tokenNonce => ?_⟩
  obtain ⟨encryptedToken, encrypts, sends⟩ := sends tokenNonce
  obtain ⟨sent, sends', read, received⟩ := agreed ⟨stepKey, zeroNonce, tokenNonce⟩
  obtain rfl := Except.ok.inj (sends.symm.trans sends')
  rw [RestRequest.receive_sent authenticated plainKey (fun key member => (plain key member).2.1) plainPayload encrypts] at received
  have together := ((validated_iff injective (Request.reads _) stepKey.property _ _ _).mp ⟨_, received⟩).2
  rw [keysRead_plain fun key member => (plain key member).1] at together
  obtain rfl := Except.ok.inj ((if_pos authenticated).symm.trans encrypts)
  exact ⟨_, together⟩

end Agreed

section Together
variable {urls : UrlLib} {authCrypt : AuthCrypt} {request : RestRequest} {url : Url} {body : Body}
  (names : ∀ name ∈ request.headers.map fst,
    tilde ∉ name ∧ bar ∉ name ∧ name ≠ textBytes "url" ∧ name ≠ textBytes "body")
  (together : ∀ tokenNonce, ∃ plainData,
    request.keysToSign.flatMap (request.sent urls url body (authCrypt.crypt.encryptB64 tokenNonce plainData)).value =
      request.keysToSign.flatMap (request.signed url body).value)
include names together

private theorem token_notMem :
    ∀ name ∈ request.headers.map fst, canonicalMIMEHeaderKey name ≠ textBytes "X-Auth-Token" := by
  intro name member isToken
  obtain ⟨plainData, first⟩ := together zeroNonce
  obtain ⟨otherData, second⟩ := together ⟨List.replicate 12 1, rfl⟩
  have headers : (request.headers.map fst).flatMap
      (request.sent urls url body (authCrypt.crypt.encryptB64 zeroNonce plainData)).value =
        (request.headers.map fst).flatMap
          (request.sent urls url body (authCrypt.crypt.encryptB64 ⟨List.replicate 12 1, rfl⟩ otherData)).value := by
    have same := first.trans second.symm
    rw [keysToSign, flatMap_cons, flatMap_cons] at same
    exact append_cancel_left same
  have values (key : Bytes) (named : key ∈ request.headers.map fst) (encryptedToken : Bytes) :
      (request.sent urls url body encryptedToken).value key =
        if canonicalMIMEHeaderKey key = textBytes "X-Auth-Token" then encryptedToken
        else (request.signed url body).value key :=
    (sent_value (names key named).2.2.2).trans (if_neg (names key named).2.2.1)
  obtain ⟨rest, otherRest, alike⟩ := tokens_start_alike
    (fun key named token => ⟨(values key named _).trans (if_pos token), (values key named _).trans (if_pos token)⟩)
    (fun key named other => ((values key named _).trans (if_neg other)).trans ((values key named _).trans (if_neg other)).symm)
    ⟨name, member, isToken⟩ headers
  exact absurd (nonce_of_start alike) (by decide)

private theorem requestURI_of_together
    (token : ∀ name ∈ request.headers.map fst, canonicalMIMEHeaderKey name ≠ textBytes "X-Auth-Token") :
    ({ url with rawQuery := request.query urls url.rawQuery } : Url).requestURI = url.requestURI := by
  obtain ⟨plainData, same⟩ := together zeroNonce
  have headers : (request.headers.map fst).flatMap
      (request.sent urls url body (authCrypt.crypt.encryptB64 zeroNonce plainData)).value =
        (request.headers.map fst).flatMap (request.signed url body).value := by
    refine flatMap_congr fun name member => ?_
    rw [sent_value (names name member).2.2.2, if_neg (names name member).2.2.1, if_neg (token name member)]
  rw [keysToSign, flatMap_cons, flatMap_cons, headers, append_cancel_right_eq,
    sent_value (by decide), if_pos rfl] at same
  exact same

end Together

theorem RestRequest.agreed_iff {libs : Libs} {urls : UrlLib} {client : RestApiClient} {authCrypt : AuthCrypt}
    {request : RestRequest} {url : Url} (authenticates : client.authCrypt = some authCrypt)
    (authenticated : authCrypt.isAuthenticated) (parsed : urls.parse (client.requestUrl request.path) = some url)
    (names : ∀ name ∈ request.headers.map fst,
      tilde ∉ name ∧ bar ∉ name ∧ name ≠ textBytes "url" ∧ name ≠ textBytes "body") (method : Method) :
    (request.Unchanged authCrypt url → request.Agreed libs urls client authCrypt method) ∧
    ((∀ hashKey, Function.Injective (libs.sum64 hashKey)) → request.Agreed libs urls client authCrypt method →
      request.Unchanged authCrypt url) := by
  have plain : ∀ key ∈ request.keysToSign, tilde ∉ key ∧ bar ∉ key ∧ key ≠ textBytes "body" := by
    intro key member
    rcases mem_cons.mp member with rfl | named
    · decide
    · exact ⟨(names key named).1, (names key named).2.1, (names key named).2.2.2⟩
  constructor
  · intro unchanged draws
    obtain ⟨body, payloadChecksum, plainPayload, sends⟩ :=
      request.send_eq libs authenticates authenticated parsed (unread plain) draws.hashKey draws.payloadNonce method
    obtain ⟨encryptedToken, encrypts, sends⟩ := sends draws.tokenNonce
    refine ⟨_, sends, ?_⟩
    rw [RestRequest.receive_sent authenticated unchanged.key (fun key member => (plain key member).2.1) plainPayload encrypts]
    exact validates_sent plain draws.hashKey body payloadChecksum encryptedToken unchanged
  · intro injective agreed
    have plainKey : bar ∉ authCrypt.authTokenKey := by
      intro barred
      obtain ⟨sent, -, received⟩ := agreed ⟨stepKey, zeroNonce, zeroNonce⟩
      exact receive_barred barred _ received
    obtain ⟨body, together⟩ := Agreed.together authenticates authenticated parsed plain injective agreed plainKey
    have token := token_notMem names together
    have uri := requestURI_of_together names together token
    have args : request.queryArgs = [] := by
      by_contra args
      have added : request.query urls url.rawQuery = urls.addQuery url.rawQuery request.queryArgs := if_pos args
      obtain ⟨nonempty, differs⟩ := urls.addQuery_ne url.rawQuery _ args
      rw [added] at uri
      exact differs ((Url.requestURI_query nonempty).mp uri)
    refine ⟨plainKey, args, ?_, token⟩
    by_cases none : request.rawQuery = []
    · exact .inl none
    · have replaced : request.query urls url.rawQuery = request.rawQuery :=
        (if_neg (not_not.mpr args)).trans (if_pos none)
      rw [replaced] at uri
      exact .inr ((Url.requestURI_query none).mp uri)

def appendQuery (rawQuery : Bytes) (args : List (Bytes × Bytes)) : Bytes :=
  args.foldl (fun query arg => (if query = [] then [] else query ++ textBytes "&") ++ arg.1 ++ textBytes "=" ++ arg.2) rawQuery

private theorem length_appendQuery (rawQuery : Bytes) (args : List (Bytes × Bytes)) :
    rawQuery.length + args.length ≤ (appendQuery rawQuery args).length := by
  induction args generalizing rawQuery with
  | nil => exact Nat.le_refl _
  | cons arg args ih =>
    have longer : rawQuery.length <
        ((if rawQuery = [] then [] else rawQuery ++ textBytes "&") ++ arg.1 ++ textBytes "=" ++ arg.2).length := by
      have one : (textBytes "=").length = 1 := by decide
      split_ifs with none
      · simp only [none, length_append, length_nil, one]
        omega
      · simp only [length_append, one]
        omega
    have rest := ih ((if rawQuery = [] then [] else rawQuery ++ textBytes "&") ++ arg.1 ++ textBytes "=" ++ arg.2)
    rw [length_cons]
    exact Nat.le_trans (by omega) rest

def samplePage : UrlLib where
  parse text := if text = textBytes "http://h/p" then some { scheme := textBytes "http", escapedPath := textBytes "/p" } else none
  addQuery := appendQuery
  addQuery_ne rawQuery args some := by
    have longer := length_appendQuery rawQuery args
    have one := length_pos_iff.mpr some
    constructor
    · intro none
      simp only [none, length_nil] at longer
      omega
    · intro same
      rw [same] at longer
      omega

def sampleCrypt : AuthCrypt := ⟨true, textBytes "key", flipCrypt⟩

def sampleClient : RestApiClient := ⟨textBytes "http://h/", some sampleCrypt⟩

theorem RestRequest.agreed_with_header : Agreed (payloadLibs fun _ data => data) samplePage sampleClient sampleCrypt
    .post { path := textBytes "/p", headers := [(textBytes "Api-Key", textBytes "12345")], body := some (textBytes "1") } := by
  have parsed : samplePage.parse (sampleClient.requestUrl (textBytes "/p")) =
      some { scheme := textBytes "http", escapedPath := textBytes "/p" } := rfl
  exact (agreed_iff rfl rfl parsed (by decide) .post).1 ⟨by decide, rfl, .inl rfl, by decide⟩

def uriSums (_ data : Bytes) : Bytes :=
  if data = textBytes "/p" then [236, 140, 13, 171, 31, 142, 224, 106]
  else if data = textBytes "/p?a=1" then [4, 29, 206, 26, 159, 180, 36, 110] else []

theorem RestRequest.query_not_signed : (do
    let sent ← send (payloadLibs uriSums) samplePage
      { path := textBytes "/p", queryArgs := [(textBytes "a", textBytes "1")] } sampleClient ⟨stepKey, zeroNonce, zeroNonce⟩ .get
    receive (payloadLibs uriSums) sampleCrypt sent.httpRequest) = .error (.error .requestChecksum) := by
  set_option maxRecDepth 2000 in rfl

end MycsCommon.Rest
