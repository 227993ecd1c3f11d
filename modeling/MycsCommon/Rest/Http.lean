import MycsCommon.Network.Netip

/-! The parts of Go's `net/http`, `net/textproto` and `net/url` that the auth tokens
read: headers by their canonical names, the request URI, and bodies. A Go string is
its bytes. -/

namespace MycsCommon.Rest
open Network

/-- A letter, a digit or one of the marks a header name may hold. -/
def validHeaderFieldByte (byte : UInt8) : Bool :=
  (48 ≤ byte && byte ≤ 57) || (65 ≤ byte && byte ≤ 90) || (97 ≤ byte && byte ≤ 122) ||
    (textBytes "!#$%&'*+-.^_`|~").contains byte

/-- Upper case at the start and after a dash, lower case elsewhere. -/
def canonicalBytes : Bool → Bytes → Bytes
  | _, [] => []
  | upper, byte :: bytes =>
    (if upper && 97 ≤ byte && byte ≤ 122 then byte - 32
      else if !upper && 65 ≤ byte && byte ≤ 90 then byte + 32 else byte) :: canonicalBytes (byte == 45) bytes

/-- `textproto.CanonicalMIMEHeaderKey`: a name with any other byte stays as it is. -/
def canonicalMIMEHeaderKey (key : Bytes) : Bytes :=
  if key.all validHeaderFieldByte then canonicalBytes true key else key

/-- The values of each key; a key that is missing has none. -/
abbrev Header := Bytes → List Bytes

def Header.get (header : Header) (key : Bytes) : Bytes := (header (canonicalMIMEHeaderKey key)).head?.getD []

def Header.set (header : Header) (key value : Bytes) : Header := fun other =>
  if other = canonicalMIMEHeaderKey key then [value] else header other

theorem Header.get_set (header : Header) (key value other : Bytes) : (header.set key value).get other =
    if canonicalMIMEHeaderKey other = canonicalMIMEHeaderKey key then value else header.get other := by
  unfold Header.get Header.set
  split <;> rfl

structure Url where
  scheme : Bytes := []
  opaquePart : Bytes := []
  escapedPath : Bytes := []
  forceQuery : Bool := false
  rawQuery : Bytes := []

def Url.target (url : Url) : Bytes :=
  if url.opaquePart = [] then (if url.escapedPath = [] then textBytes "/" else url.escapedPath)
  else if (textBytes "//").isPrefixOf url.opaquePart then url.scheme ++ textBytes ":" ++ url.opaquePart
  else url.opaquePart

def Url.requestURI (url : Url) : Bytes :=
  url.target ++ if url.forceQuery || url.rawQuery ≠ [] then textBytes "?" ++ url.rawQuery else []

theorem Url.requestURI_query {url : Url} {query : Bytes} (some : query ≠ []) :
    ({ url with rawQuery := query } : Url).requestURI = url.requestURI ↔ query = url.rawQuery := by
  have target : ({ url with rawQuery := query } : Url).target = url.target := rfl
  simp only [Url.requestURI, target, List.append_cancel_left_eq, some, ne_eq, not_false_eq_true, decide_true, Bool.or_true,
    if_true]
  constructor
  · intro same
    split at same
    · exact List.append_cancel_left same
    · exact absurd same (by simp [textBytes])
  · rintro rfl
    rw [if_pos (by simp [some])]

/-- What is left to read of a body; nothing where the body is nil. -/
abbrev Body := Option Bytes

structure Request where
  url : Url
  header : Header
  body : Body

structure Response where
  header : Header
  body : Body

end MycsCommon.Rest
