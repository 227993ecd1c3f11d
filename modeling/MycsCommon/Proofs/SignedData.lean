import MycsCommon.Rest.AuthToken
import MycsCommon.Library.Text

/-! What signing writes and what validation compares, in terms of the values that the
keys name. Requests and responses differ only in how a key is read. -/

namespace MycsCommon.Rest
open Network Library List Except Hex Request Response

theorem bind_of_ok {α β : Type} {run} {value : α} {next : α → Except Fault β} (ran : run = .ok value) :
    run >>= next = next value := by
  rw [ran]
  rfl

theorem bind_of_error {α β : Type} {run} {fault} {next : α → Except Fault β} (failed : run = .error fault) :
    run >>= next = .error fault := by
  rw [failed]
  rfl

def Request.value (request : Request) (key : Bytes) : Bytes :=
  if key = textBytes "url" then request.url.requestURI
  else if key = textBytes "body" then request.body.getD []
  else request.header.get key

def Response.value (response : Response) (key : Bytes) : Bytes :=
  if key = textBytes "body" then response.body.getD [] else response.header.get key

/-- Reading one of the keys would read a nil body. -/
def Panics (body : Body) (keys : List Bytes) : Prop := textBytes "body" ∈ keys ∧ body = none

instance (body : Body) (keys : List Bytes) : Decidable (Panics body keys) :=
  inferInstanceAs (Decidable (_ ∧ _))

/-- A reader that returns the key's value and leaves the data as they are, or panics. -/
structure Reads {σ : Type} (read : σ → Bytes → Except Fault (Bytes × σ)) (data : σ) (body : Body) (value : Bytes → Bytes) :
    Prop where
  found : ∀ key, (key = textBytes "body" → body ≠ none) → read data key = .ok (value key, data)
  panics : body = none → read data (textBytes "body") = .error .nilBody

theorem Request.reads (request : Request) : Reads read request request.body request.value := by
  constructor
  · intro key present
    unfold read value
    split_ifs with url named
    · rfl
    · cases request with
      | mk url header body =>
        cases body with
        | none => exact absurd rfl (present named)
        | some bytes => rfl
    · rfl
  · intro missing
    rw [read, if_neg (by decide), if_pos rfl, missing]
    rfl

theorem Response.reads (response : Response) : Reads read response response.body response.value := by
  constructor
  · intro key present
    unfold read value
    split_ifs with named
    · cases response with
      | mk header body =>
        cases body with
        | none => exact absurd rfl (present named)
        | some bytes => rfl
    · rfl
  · intro missing
    rw [read, if_pos rfl, missing]
    rfl

section Reader
variable {σ : Type} {read : σ → Bytes → Except Fault (Bytes × σ)} {data : σ} {body : Body} {value : Bytes → Bytes}

theorem Reads.gather (reads : Reads read data body value) (keys : List Bytes) :
    gather read data keys = if Panics body keys then .error .nilBody else .ok (keys.flatMap value, data) := by
  induction keys with
  | nil => simp [Rest.gather, Panics]
  | cons key keys ih =>
    unfold Rest.gather
    by_cases nil : key = textBytes "body" ∧ body = none
    · obtain ⟨rfl, missing⟩ := nil
      rw [reads.panics missing, if_pos ⟨mem_cons_self, missing⟩]
      rfl
    · have present : key = textBytes "body" → body ≠ none := fun named missing => nil ⟨named, missing⟩
      have same : Panics body (key :: keys) ↔ Panics body keys := by
        simp only [Panics, mem_cons]
        exact ⟨fun ⟨member, missing⟩ => ⟨member.resolve_left fun named => present named.symm missing, missing⟩,
          fun ⟨member, missing⟩ => ⟨.inr member, missing⟩⟩
      rw [reads.found key present, if_congr same rfl rfl]
      simp only [bind, Except.bind, ih]
      split_ifs <;> rfl

variable (libs : Libs)

/-- The checksum text for the values of the keys. -/
def transportChecksum (hashKey : Bytes) (keys : List Bytes) (value : Bytes → Bytes) : Bytes :=
  keys.flatMap (· ++ [tilde]) ++ bytes.encode (libs.sum64 hashKey (keys.flatMap value))

theorem Reads.signData (reads : Reads read data body value) {hashKey} (size : hashKey.length = 32)
    (keys : List Bytes) : signData libs read hashKey keys data =
      if Panics body keys then .error .nilBody else .ok (transportChecksum libs hashKey keys value, data) := by
  rw [Rest.signData, reads.gather]
  split_ifs
  · rfl
  · simp [bind, Except.bind, checksumOf, if_pos size, pure, Except.pure, transportChecksum]

theorem tilde_notMem_hex (bytes : Bytes) : tilde ∉ Hex.bytes.encode bytes := by
  intro member
  obtain ⟨value, bound, same⟩ := mem_encode _ member
  revert value
  decide

theorem bar_notMem_hex (bytes : Bytes) : bar ∉ Hex.bytes.encode bytes := by
  intro member
  obtain ⟨value, bound, same⟩ := mem_encode _ member
  revert value
  decide

/-- The keys as validation reads them back: a tilde in a key splits it. -/
def keysRead (keys : List Bytes) : List Bytes := keys.flatMap (·.splitOn tilde)

theorem keysRead_plain {keys} (plain : ∀ key ∈ keys, tilde ∉ key) : keysRead keys = keys := by
  induction keys with
  | nil => rfl
  | cons key keys ih =>
    rw [keysRead, flatMap_cons, Text.splitOn_of_notMem (plain key mem_cons_self), singleton_append]
    exact congrArg _ (ih fun other member => plain other (mem_cons_of_mem _ member))

theorem splitOn_transportChecksum (hashKey : Bytes) (keys : List Bytes) (value : Bytes → Bytes) :
    (transportChecksum libs hashKey keys value).splitOn tilde =
      keysRead keys ++ [bytes.encode (libs.sum64 hashKey (keys.flatMap value))] := by
  have hash : (bytes.encode (libs.sum64 hashKey (keys.flatMap value))).splitOn tilde = _ :=
    Text.splitOn_of_notMem (tilde_notMem_hex _)
  rw [transportChecksum, Text.splitOn_flatMap, hash, keysRead]

theorem Reads.validateData (reads : Reads read data body value) {hashKey} (size : hashKey.length = 32)
    (failure : RestError) (keys : List Bytes) (signed : Bytes → Bytes) :
    validateData libs read failure hashKey (transportChecksum libs hashKey keys signed) data =
      if Panics body (keysRead keys) then .error .nilBody
      else if libs.sum64 hashKey ((keysRead keys).flatMap value) = libs.sum64 hashKey (keys.flatMap signed) then .ok data
      else .error (.error failure) := by
  unfold Rest.validateData
  simp only [splitOn_transportChecksum, dropLast_concat, getLast?_concat, Option.getD_some, reads.gather]
  split_ifs with nil same
  · rfl
  · simp [bind, Except.bind, checksumOf, size, same, pure, Except.pure]
  · have differs : Hex.bytes.encode (libs.sum64 hashKey ((keysRead keys).flatMap value)) ≠
        Hex.bytes.encode (libs.sum64 hashKey (keys.flatMap signed)) := fun encoded => same (by
      simpa using congrArg Hex.bytes.decode encoded)
    simp [bind, Except.bind, checksumOf, size, differs, throw, throwThe, MonadExceptOf.throw]

theorem Reads.validateData_signed (reads : Reads read data body value) {hashKey} (size : hashKey.length = 32)
    (failure : RestError) {keys} (plain : ∀ key ∈ keys, tilde ∉ key) (readable : ¬Panics body keys) :
    Rest.validateData libs read failure hashKey (transportChecksum libs hashKey keys value) data = .ok data := by
  rw [reads.validateData libs size, keysRead_plain plain, if_neg readable, if_pos rfl]

end Reader

end MycsCommon.Rest
