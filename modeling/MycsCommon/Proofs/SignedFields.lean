import MycsCommon.Proofs.TokenExchange
import Mathlib.Tactic.Ring

/-! What a signature says about the fields it covers. The values are hashed one after the
other without separators, so a signature over two fields does not tell where the one
ends and the other begins. -/

namespace MycsCommon.Rest
open Network Library List Request RequestAuthToken Response UInt8

/-- The part of a message that a key names. -/
inductive Field where
  | url
  | body
  | header (name : Bytes)
deriving DecidableEq

def Request.field (key : Bytes) : Field :=
  if key = textBytes "url" then .url else if key = textBytes "body" then .body else .header (canonicalMIMEHeaderKey key)

def Response.field (key : Bytes) : Field :=
  if key = textBytes "body" then .body else .header (canonicalMIMEHeaderKey key)

private theorem mapped_tilde (upper : Bool) (byte : UInt8) :
    (if upper && 97 ≤ byte && byte ≤ 122 then byte - 32
      else if !upper && 65 ≤ byte && byte ≤ 90 then byte + 32 else byte) = tilde ↔ byte = tilde := by
  have all : ∀ value < 256, ∀ upper : Bool,
      (if upper && 97 ≤ ofNat value && ofNat value ≤ 122 then ofNat value - 32
        else if !upper && 65 ≤ ofNat value && ofNat value ≤ 90 then ofNat value + 32
        else ofNat value) = tilde ↔ ofNat value = tilde := by decide +kernel
  simpa using all byte.toNat byte.toNat_lt upper

private theorem tilde_mem_canonicalBytes (upper : Bool) (key : Bytes) : tilde ∈ canonicalBytes upper key ↔ tilde ∈ key := by
  induction key generalizing upper with
  | nil => rfl
  | cons byte key ih =>
    rw [canonicalBytes, mem_cons, mem_cons, ih, eq_comm, mapped_tilde, eq_comm]

private theorem tilde_mem_canonical (key : Bytes) : tilde ∈ canonicalMIMEHeaderKey key ↔ tilde ∈ key := by
  unfold canonicalMIMEHeaderKey
  split_ifs
  · exact tilde_mem_canonicalBytes true key
  · rfl

/-- Whether a key holds a tilde shows in the field. -/
def Field.Tilde : Field → Prop
  | url | body => False
  | header name => tilde ∈ name

theorem Request.field_tilde (key : Bytes) : (field key).Tilde ↔ tilde ∈ key := by
  unfold field
  split_ifs with url body
  · exact iff_of_false id (by rw [url]; decide)
  · exact iff_of_false id (by rw [body]; decide)
  · exact tilde_mem_canonical key

theorem Response.field_tilde (key : Bytes) : (field key).Tilde ↔ tilde ∈ key := by
  unfold field
  split_ifs with body
  · exact iff_of_false id (by rw [body]; decide)
  · exact tilde_mem_canonical key

/-- Messages of which every field is a run of slashes of the given length. -/
def Request.slashes (length : Field → Nat) : Request where
  url := { escapedPath := List.replicate (length .url) 47 }
  header name := [List.replicate (length (.header name)) 47]
  body := some (List.replicate (length .body) 47)

def Response.slashes (length : Field → Nat) : Response where
  header name := [List.replicate (length (.header name)) 47]
  body := some (List.replicate (length .body) 47)

theorem Request.value_slashes {length} (positive : 0 < length .url) (key : Bytes) :
    (slashes length).value key = List.replicate (length (field key)) 47 := by
  have path : List.replicate (length .url) (47 : UInt8) ≠ [] := by simp; omega
  unfold value field
  split_ifs
  · simp [slashes, Url.requestURI, Url.target, path]
  · rfl
  · rfl

theorem Response.value_slashes (length : Field → Nat) (key : Bytes) :
    (slashes length).value key = List.replicate (length (field key)) 47 := by
  unfold value field
  split_ifs <;> rfl

theorem Request.value_eq_of_field {request : Request} {key other} (same : field key = field other) :
    request.value key = request.value other := by
  unfold field at same
  unfold value Header.get
  split_ifs at same ⊢ <;> simp_all

theorem Response.value_eq_of_field {response : Response} {key other} (same : field key = field other) :
    response.value key = response.value other := by
  unfold field at same
  unfold value Header.get
  split_ifs at same ⊢ <;> simp_all

/-! Run lengths that add up to the same total although some field differs. -/

/-- The lengths `base`, with one field longer by `extra`. -/
private def raised (base : Nat) (field : Field) (extra : Nat) (other : Field) : Nat :=
  base + if other = field then extra else 0

private theorem sum_raised (base : Nat) (field : Field) (extra : Nat) (fields : List Field) :
    (fields.map (raised base field extra)).sum = fields.length * base + fields.count field * extra := by
  induction fields with
  | nil => simp
  | cons other fields ih =>
    rw [map_cons, sum_cons, ih, length_cons, raised]
    by_cases same : other = field
    · rw [if_pos same, same, count_cons_self]
      ring
    · rw [if_neg same, count_cons_of_ne same]
      ring

theorem notMem_of_mem_splitOn {byte} {bytes part : Bytes} (member : part ∈ bytes.splitOn byte) : byte ∉ part := by
  induction bytes generalizing part with
  | nil =>
    rw [splitOn_nil, mem_singleton] at member
    simp [member]
  | cons first rest ih =>
    rw [List.splitOn, splitOnP_cons_eq_if_modifyHead] at member
    split_ifs at member with separator
    · rcases mem_cons.mp member with rfl | later
      · simp
      · exact ih later
    · cases parts : rest.splitOnP (· == byte) with
      | nil => exact absurd parts (splitOnP_ne_nil _ _)
      | cons head tail =>
        have heads := ih (by rw [List.splitOn, parts]; exact mem_cons_self)
        rw [parts, modifyHead_cons] at member
        rcases mem_cons.mp member with rfl | later
        · simp only [beq_iff_eq] at separator
          simp [Ne.symm separator, heads]
        · exact ih (by rw [List.splitOn, parts]; exact mem_cons_of_mem _ later)

private theorem tilde_notMem_keysRead {keys} {key : Bytes} (member : key ∈ keysRead keys) : tilde ∉ key := by
  obtain ⟨whole, -, part⟩ := mem_flatMap.mp member
  exact notMem_of_mem_splitOn part

private theorem length_keysRead (keys : List Bytes) : keys.length ≤ (keysRead keys).length := by
  induction keys with
  | nil => exact Nat.zero_le _
  | cons key keys ih =>
    have parts : 0 < (key.splitOn tilde).length := length_pos_iff.mpr (splitOn_ne_nil _ _)
    have split : keysRead (key :: keys) = key.splitOn tilde ++ keysRead keys := flatMap_cons
    rw [split, length_append, length_cons]
    omega

/-- The keys name a single field, by its name as it is. -/
def OneField (field : Bytes → Field) (keys : List Bytes) : Prop :=
  (∀ key ∈ keys, tilde ∉ key) ∧ ∀ key ∈ keys, ∀ other ∈ keys, field key = field other

private theorem exists_lengths {field} (tilded : ∀ key, (field key).Tilde ↔ tilde ∈ key) {keys}
    (several : ¬OneField field keys) : ∃ signed received : Field → Nat, 0 < signed .url ∧ 0 < received .url ∧
      ((keysRead keys).map fun key => received (field key)).sum = (keys.map fun key => signed (field key)).sum ∧
      ∃ key ∈ keys, signed (field key) ≠ received (field key) := by
  have total (base : Nat) (named : Field) (extra : Nat) (keys : List Bytes) :
      (keys.map fun key => raised base named extra (field key)).sum = keys.length * base + (keys.map field).count named * extra := by
    have sum := sum_raised base named extra (keys.map field)
    rwa [map_map, length_map] at sum
  by_cases plain : ∀ key ∈ keys, tilde ∉ key
  · -- two fields trade their surplus
    obtain ⟨key, signed, other, signed', differ⟩ : ∃ key ∈ keys, ∃ other ∈ keys, field key ≠ field other := by
      by_contra none
      push Not at none
      exact several ⟨plain, none⟩
    have count : 0 < (keys.map field).count (field other) := count_pos_iff.mpr (mem_map_of_mem signed')
    refine ⟨raised 1 (field key) ((keys.map field).count (field other)), raised 1 (field other) ((keys.map field).count (field key)),
      by unfold raised; omega, by unfold raised; omega, ?_, key, signed, ?_⟩
    · rw [keysRead_plain plain, total, total, Nat.mul_comm (List.count _ _)]
    · simp only [raised, if_true, if_neg differ]
      omega
  · -- a key with a tilde is never read back, so its field may be anything
    push Not at plain
    obtain ⟨key, signed, split⟩ := plain
    have count : 0 < (keys.map field).count (field key) := count_pos_iff.mpr (mem_map_of_mem signed)
    have unread : ((keysRead keys).map field).count (field key) = 0 := by
      rw [count_eq_zero]
      intro member
      obtain ⟨part, read, same⟩ := mem_map.mp member
      exact tilde_notMem_keysRead read ((tilded part).mp (same ▸ (tilded key).mpr split))
    obtain ⟨surplus, longer⟩ := Nat.exists_eq_add_of_le (length_keysRead keys)
    refine ⟨raised ((keys.map field).count (field key)) (field key) surplus,
      raised ((keys.map field).count (field key)) (field key) (surplus + 1),
      by unfold raised; omega, by unfold raised; omega, ?_, key, signed, ?_⟩
    · rw [total, total, unread, longer]
      ring
    · simp only [raised, if_true]
      omega

private theorem flatMap_slashes (length : Bytes → Nat) (keys : List Bytes) :
    keys.flatMap (fun key => List.replicate (length key) (47 : UInt8)) = List.replicate (keys.map length).sum 47 := by
  induction keys with
  | nil => rfl
  | cons key keys ih => rw [flatMap_cons, ih, map_cons, sum_cons, replicate_append_replicate]

private theorem eq_of_flatMap_eq {keys : List Bytes} {signed received : Bytes → Bytes}
    (oneSigned : ∀ key ∈ keys, ∀ other ∈ keys, signed key = signed other)
    (oneReceived : ∀ key ∈ keys, ∀ other ∈ keys, received key = received other)
    (same : keys.flatMap received = keys.flatMap signed) {key} (member : key ∈ keys) : signed key = received key := by
  have lengths (value : Bytes → Bytes) (one : ∀ key ∈ keys, ∀ other ∈ keys, value key = value other) :
      (keys.flatMap value).length = keys.length * (value key).length := by
    have constant := flatMap_congr fun other signed => one other signed key member
    rw [constant, length_flatMap, map_const', sum_replicate_nat]
  have long : (signed key).length = (received key).length := by
    have equal := congrArg List.length same
    rw [lengths signed oneSigned, lengths received oneReceived] at equal
    exact Nat.eq_of_mul_eq_mul_left (length_pos_of_mem member) equal.symm
  cases keys with
  | nil => cases member
  | cons first rest =>
    rw [flatMap_cons, flatMap_cons] at same
    rw [oneSigned key member first mem_cons_self, oneReceived key member first mem_cons_self] at long ⊢
    exact (append_inj same long.symm).1.symm

section Accepted
variable (libs : Libs)

/-- The peer, which holds the signer's token, accepts `received` under the signature made for `signed`. -/
def RequestAuthToken.Accepted (token : RequestAuthToken) (keys : List Bytes) (signed received : Request) : Prop :=
  ∃ after sent, token.signTransportData libs keys signed = .ok (after, sent) ∧
    ∃ read, ResponseAuthToken.validateTransportData libs ⟨after.toAuthTokenCommon⟩ received = .ok read

def ResponseAuthToken.Accepted (token : ResponseAuthToken) (keys : List Bytes) (signed received : Response) : Prop :=
  ∃ after sent, token.signTransportData libs keys signed = .ok (after, sent) ∧
    ∃ read, RequestAuthToken.validateTransportData libs ⟨after.toAuthTokenCommon⟩ received = .ok read

variable {libs} (injective : ∀ hashKey, Function.Injective (libs.sum64 hashKey))
include injective

theorem validated_iff {σ : Type} {read} {data : σ} {body} {value} (reads : Reads read data body value) {hashKey}
    (size : hashKey.length = 32) (failure : RestError) (keys : List Bytes) (signed : Bytes → Bytes) :
    (∃ after, validateData libs read failure hashKey (transportChecksum libs hashKey keys signed) data = .ok after) ↔
      ¬Panics body (keysRead keys) ∧ (keysRead keys).flatMap value = keys.flatMap signed := by
  rw [reads.validateData libs size]
  simp only [(injective hashKey).eq_iff]
  split_ifs with panics same
  · simp [panics]
  · simp [panics, same]
  · simp [same]

theorem RequestAuthToken.accepted_iff {token : RequestAuthToken} (size : token.hashKey.length = 32) (keys : List Bytes)
    (signed received : Request) : token.Accepted libs keys signed received ↔ ¬Panics signed.body keys ∧
      ¬Panics received.body (keysRead keys) ∧ (keysRead keys).flatMap received.value = keys.flatMap signed.value := by
  rw [← validated_iff injective received.reads size .requestChecksum, Accepted, token.signTransportData_eq libs size]
  split_ifs with panics
  · simp [panics]
  · simp [panics, ResponseAuthToken.validateTransportData]

theorem ResponseAuthToken.accepted_iff {token : ResponseAuthToken} (size : token.hashKey.length = 32) (keys : List Bytes)
    (signed received : Response) : token.Accepted libs keys signed received ↔ ¬Panics signed.body keys ∧
      ¬Panics received.body (keysRead keys) ∧ (keysRead keys).flatMap received.value = keys.flatMap signed.value := by
  rw [← validated_iff injective received.reads size .responseChecksum, Accepted, token.signTransportData_eq libs size]
  split_ifs with panics
  · simp [panics]
  · simp [panics, RequestAuthToken.validateTransportData]

end Accepted

/-- A kind of message that is accepted when the values read back run together as the signed ones do. -/
private theorem covers_iff {σ : Type} {body : σ → Body} {value : σ → Bytes → Bytes} {field}
    {accepted : σ → σ → Prop} {slashes : (Field → Nat) → σ} {keys}
    (accepts : ∀ signed received, accepted signed received ↔ ¬Panics (body signed) keys ∧ ¬Panics (body received) (keysRead keys) ∧ (keysRead keys).flatMap (value received) = keys.flatMap (value signed))
    (tilded : ∀ key, (field key).Tilde ↔ tilde ∈ key)
    (byField : ∀ {data key other}, field key = field other → value data key = value data other)
    (present : ∀ length, body (slashes length) ≠ none)
    (runs : ∀ {length}, 0 < length Field.url → ∀ key, value (slashes length) key = List.replicate (length (field key)) 47) :
    (∀ signed received, accepted signed received → ∀ key ∈ keys, value signed key = value received key) ↔
      OneField field keys := by
  constructor
  · intro covers
    by_contra several
    obtain ⟨signed, received, positive, positive', sums, key, member, differs⟩ := exists_lengths tilded several
    have together : (keysRead keys).flatMap (value (slashes received)) = keys.flatMap (value (slashes signed)) := by
      rw [funext (runs positive), funext (runs positive'), flatMap_slashes fun key => received (field key),
        flatMap_slashes fun key => signed (field key), sums]
    have same := covers (slashes signed) (slashes received)
      ((accepts _ _).mpr ⟨fun panics => present _ panics.2, fun panics => present _ panics.2, together⟩) key member
    rw [runs positive, runs positive', replicate_left_inj] at same
    exact differs same
  · intro ⟨plain, one⟩ signed received accepted key member
    obtain ⟨-, -, together⟩ := (accepts signed received).mp accepted
    rw [keysRead_plain plain] at together
    exact eq_of_flatMap_eq (fun key first other second => byField (one key first other second))
      (fun key first other second => byField (one key first other second)) together member

/-- A signature fixes every signed value exactly where a single field is signed. -/
theorem signature_covers_iff {libs : Libs} (injective : ∀ hashKey, Function.Injective (libs.sum64 hashKey)) (keys : List Bytes) :
    (∀ token : RequestAuthToken, token.hashKey.length = 32 →
      ((∀ signed received, token.Accepted libs keys signed received → ∀ key ∈ keys, signed.value key = received.value key) ↔
        OneField Request.field keys)) ∧
    (∀ token : ResponseAuthToken, token.hashKey.length = 32 →
      ((∀ signed received, token.Accepted libs keys signed received → ∀ key ∈ keys, signed.value key = received.value key) ↔
        OneField Response.field keys)) := by
  constructor
  · intro token size
    exact covers_iff (token.accepted_iff injective size keys) field_tilde value_eq_of_field
      (fun _ => Option.some_ne_none _) value_slashes
  · intro token size
    exact covers_iff (token.accepted_iff injective size keys) field_tilde value_eq_of_field
      (fun _ => Option.some_ne_none _) fun _ => value_slashes _

def hashAt (data sum : Bytes) : Libs := payloadLibs fun _ => Equiv.swap data sum

def stepToken : AuthTokenCommon := { authCrypt := ⟨true, textBytes "key", flipCrypt⟩, hashKey := stepKey.val }

/-- One signed header, under two spellings of its name. -/
theorem signature_covers_header :
    Accepted (hashAt (textBytes "77") [108, 78, 195, 209, 39, 93, 46, 24]) ⟨stepToken⟩
      [textBytes "X-Id", textBytes "x-id"] (getRequest none) { getRequest none with url := ⟨[], [], [], false, []⟩ } ∧
    (getRequest none).value (textBytes "x-id") =
      ({ getRequest none with url := ⟨[], [], [], false, []⟩ } : Request).value (textBytes "x-id") := by
  have injective (hashKey : Bytes) :
      Function.Injective ((hashAt (textBytes "77") [108, 78, 195, 209, 39, 93, 46, 24]).sum64 hashKey) :=
    (Equiv.swap _ _).injective
  have accepted := (@accepted_iff _ injective ⟨stepToken⟩ stepKey.property
    [textBytes "X-Id", textBytes "x-id"] (getRequest none) { getRequest none with url := ⟨[], [], [], false, []⟩ }).mpr (by decide)
  have covers := ((signature_covers_iff injective [textBytes "X-Id", textBytes "x-id"]).1 ⟨stepToken⟩ stepKey.property).mpr
    (by unfold OneField; decide)
  exact ⟨accepted, covers _ _ accepted _ (by simp)⟩

def twoHeaders (first second : String) : Request where
  url := { escapedPath := textBytes "/p" }
  header := fun key => if key = textBytes "A" then [textBytes first] else if key = textBytes "B" then [textBytes second] else []
  body := none

/-- A byte moved from one signed header to the next. -/
theorem signature_moves_byte :
    Accepted (hashAt (textBytes "abc") [5, 73, 22, 24, 188, 3, 39, 151]) ⟨stepToken⟩ [textBytes "A", textBytes "B"]
      (twoHeaders "ab" "c") (twoHeaders "a" "bc") ∧
    (twoHeaders "ab" "c").value (textBytes "A") ≠ (twoHeaders "a" "bc").value (textBytes "A") := by
  refine ⟨(accepted_iff (fun _ => ?_) stepKey.property _ _ _).mpr (by decide), by decide⟩
  exact (Equiv.swap _ _).injective

end MycsCommon.Rest
