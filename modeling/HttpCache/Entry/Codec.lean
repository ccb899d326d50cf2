import HttpCache.Entry.Basic
import HttpCache.Json.Reader
import HttpCache.Json.Writer
import HttpCache.Text.Base64

/-!
# HttpCache.Entry.Codec

The stored form of an entry: a JSON object with the members `header`, `body`, `status_code` and
`expiration`; the body is in base64.

* `Entry.encode` — the compact form, with the members in this order.
* `Entry.read` — reads an object whose members stand in any order, among members of other names,
  or a list of the four values in order.
* `Entry.decode` — reads a whole stored value and refuses a status code that is not known.
* `Headers.encode`, `Headers.decode` — a list of pairs of texts.
-/

namespace HttpCache

namespace Headers

def encode (h : Headers) : Bytes :=
  Json.array (h.fields.map fun field => Json.array [Json.quoted field.1, Json.quoted field.2])

def read (s : Bytes) : Except Json.Fault (Headers × Bytes) :=
  match Json.readPairs s with
  | .error e => .error e
  | .ok (pairs, rest) => .ok (ofList pairs, rest)

def decode (input : Bytes) : Except Json.Error Headers := Json.document read input

theorem read_le {s t : Bytes} {h : Headers} (hr : read s = .ok (h, t)) : t.length ≤ s.length := by
  unfold read at hr
  split at hr
  · cases hr
  · rename_i hp
    cases hr
    exact Json.readPairs_le hp

end Headers

/-- Why a stored value is no entry. -/
inductive EntryError where
  | malformed (cause : Json.Error)
  | unknownStatus (code : UInt16)
  deriving DecidableEq, Repr

namespace EntryError

def message : EntryError → String
  | malformed cause => "malformed cache entry: " ++ cause.message
  | unknownStatus code =>
    "cache entry carries unsupported status code " ++ Decimal.text code.toNat

end EntryError

namespace Entry

open Json (Fault)

inductive Member where
  | header
  | body
  | statusCode
  | expiration
  deriving DecidableEq, Repr

namespace Member

def name : Member → String
  | header => "header"
  | body => "body"
  | statusCode => "status_code"
  | expiration => "expiration"

/-- All members, in the order in which they are written. -/
def all : List Member := [header, body, statusCode, expiration]

def ofName? (name : String) : Option Member := all.find? fun member => member.name == name

end Member

def encodeMember (e : Entry) : Member → Bytes
  | .header => e.headers.encode
  | .body => Json.quotedBytes (Base64.encode e.body)
  | .statusCode => Json.natural e.statusCode.toNat
  | .expiration => Json.integer e.expiration.toInt

def encode (e : Entry) : Bytes :=
  Json.object (Member.all.map fun member => (member.name, e.encodeMember member))

structure Draft where
  headers : Option Headers
  body : Option Bytes
  statusCode : Option UInt16
  expiration : Option Int64
  deriving DecidableEq, Repr

namespace Draft

def empty : Draft := ⟨none, none, none, none⟩

def has (d : Draft) : Member → Bool
  | .header => d.headers.isSome
  | .body => d.body.isSome
  | .statusCode => d.statusCode.isSome
  | .expiration => d.expiration.isSome

/-- The entry, or the first member that is missing. -/
def complete (d : Draft) : Except Member Entry :=
  match d.headers, d.body, d.statusCode, d.expiration with
  | none, _, _, _ => .error .header
  | _, none, _, _ => .error .body
  | _, _, none, _ => .error .statusCode
  | _, _, _, none => .error .expiration
  | some headers, some body, some statusCode, some expiration =>
    .ok { headers, body, statusCode, expiration }

end Draft

/-- Reads a body; `after` is where a text that is no base64 is noticed. -/
def readBody (after : Bytes → Bytes) (s : Bytes) : Except Fault (Bytes × Bytes) :=
  match Json.readTextValue s with
  | .error e => .error e
  | .ok (text, rest) =>
    match Base64.decode (Text.utf8 text) with
    | .error e => .error ⟨.notBase64 e, after rest⟩
    | .ok body => .ok (body, rest)

def readStatusCode (s : Bytes) : Except Fault (UInt16 × Bytes) :=
  match Json.readIntegerIn 0 65535 "u16" s with
  | .error e => .error e
  | .ok (i, rest) => .ok (UInt16.ofNat i.toNat, rest)

def readExpiration (s : Bytes) : Except Fault (Int64 × Bytes) :=
  match Json.readIntegerIn (-0x8000000000000000) 0x7FFFFFFFFFFFFFFF "i64" s with
  | .error e => .error e
  | .ok (i, rest) => .ok (Int64.ofInt i, rest)

def readValue (after : Bytes → Bytes) (member : Member) (d : Draft) (s : Bytes) :
    Except Fault (Draft × Bytes) :=
  match member with
  | .header =>
    match Headers.read s with
    | .error e => .error e
    | .ok (headers, rest) => .ok ({ d with headers := some headers }, rest)
  | .body =>
    match readBody after s with
    | .error e => .error e
    | .ok (body, rest) => .ok ({ d with body := some body }, rest)
  | .statusCode =>
    match readStatusCode s with
    | .error e => .error e
    | .ok (statusCode, rest) => .ok ({ d with statusCode := some statusCode }, rest)
  | .expiration =>
    match readExpiration s with
    | .error e => .error e
    | .ok (expiration, rest) => .ok ({ d with expiration := some expiration }, rest)

/-- Reads what follows the name of a member of an object. A member that is there already is
refused, one of another name is skipped. -/
def readMember (name : String) (d : Draft) (s : Bytes) : Except Fault (Draft × Bytes) :=
  match Member.ofName? name with
  | some member =>
    if d.has member then .error ⟨.duplicateField name, Json.afterObject s⟩
    else
      match Json.readColon s with
      | .error e => .error e
      | .ok rest => readValue Json.afterObject member d rest
  | none =>
    match Json.readColon s with
    | .error e => .error e
    | .ok rest =>
      match Json.skipValue rest with
      | .error e => .error e
      | .ok rest => .ok (d, rest)

theorem readBody_le {after : Bytes → Bytes} {s t body : Bytes}
    (h : readBody after s = .ok (body, t)) : t.length ≤ s.length := by
  unfold readBody at h
  split at h
  · cases h
  · rename_i hr
    split at h
    · cases h
    · cases h
      exact (Json.readTextValue_suffix hr).length_le

theorem readStatusCode_le {s t : Bytes} {code : UInt16}
    (h : readStatusCode s = .ok (code, t)) : t.length ≤ s.length := by
  unfold readStatusCode at h
  split at h
  · cases h
  · rename_i hr
    cases h
    exact (Json.readIntegerIn_suffix hr).length_le

theorem readExpiration_le {s t : Bytes} {second : Int64}
    (h : readExpiration s = .ok (second, t)) : t.length ≤ s.length := by
  unfold readExpiration at h
  split at h
  · cases h
  · rename_i hr
    cases h
    exact (Json.readIntegerIn_suffix hr).length_le

theorem readValue_le {after : Bytes → Bytes} {member : Member} {d d' : Draft} {s t : Bytes}
    (h : readValue after member d s = .ok (d', t)) : t.length ≤ s.length := by
  cases member with
  | header =>
    simp only [readValue] at h
    split at h
    · cases h
    · rename_i hr; cases h; exact Headers.read_le hr
  | body =>
    simp only [readValue] at h
    split at h
    · cases h
    · rename_i hr; cases h; exact readBody_le hr
  | statusCode =>
    simp only [readValue] at h
    split at h
    · cases h
    · rename_i hr; cases h; exact readStatusCode_le hr
  | expiration =>
    simp only [readValue] at h
    split at h
    · cases h
    · rename_i hr; cases h; exact readExpiration_le hr

theorem readMember_le {name : String} {d d' : Draft} {s t : Bytes}
    (h : readMember name d s = .ok (d', t)) : t.length ≤ s.length := by
  unfold readMember at h
  split at h
  · split at h
    · cases h
    · split at h
      · cases h
      · rename_i hc
        have h₁ := readValue_le h
        have h₂ := (Json.readColon_suffix hc).length_le
        omega
  · split at h
    · cases h
    · rename_i hc
      split at h
      · cases h
      · rename_i hs
        cases h
        have h₁ := Json.skipValue_lt hs
        have h₂ := (Json.readColon_suffix hc).length_le
        omega

/-- Reads the members of an object, after the opening brace, up to and with the closing one. -/
def readMembers (first : Bool) (d : Draft) (s : Bytes) : Except Fault (Draft × Bytes) :=
  match _hk : Json.nextKey first s with
  | .error e => .error e
  | .ok (none, rest) => .ok (d, rest)
  | .ok (some name, rest) =>
    match _hm : readMember name d rest with
    | .error e => .error e
    | .ok (d, rest) => readMembers false d rest
  termination_by s.length
  decreasing_by
    have h₁ := Json.nextKey_lt _hk
    have h₂ := readMember_le _hm
    omega

def shape : String := "struct CachedResponse"

def readObject (s : Bytes) : Except Fault (Entry × Bytes) :=
  match readMembers true .empty s with
  | .error e => .error e
  | .ok (d, rest) =>
    match d.complete with
    | .error member => .error ⟨.missingField member.name, rest⟩
    | .ok e => .ok (e, rest)

/-- Reads the given members from the items of a list, `n` items having been read before. -/
def readItems (n : Nat) (d : Draft) : List Member → Bytes → Except Fault (Draft × Bytes)
  | [], s => .ok (d, s)
  | member :: members, s =>
    match Json.nextItem (n == 0) s with
    | .error e => .error e
    | .ok (false, s) => .error ⟨.wrongLength n (shape ++ " with 4 elements"), Json.afterList s⟩
    | .ok (true, s) =>
      match readValue Json.afterList member d s with
      | .error e => .error e
      | .ok (d, s) => readItems (n + 1) d members s

def readList (s : Bytes) : Except Fault (Entry × Bytes) :=
  match readItems 0 .empty Member.all s with
  | .error e => .error e
  | .ok (d, s) =>
    match Json.closeList s with
    | .error e => .error e
    | .ok rest =>
      match d.complete with
      | .error member => .error ⟨.missingField member.name, rest⟩
      | .ok e => .ok (e, rest)

def read (s : Bytes) : Except Fault (Entry × Bytes) :=
  match Json.skipBlanks s with
  | [] => .error ⟨.endOf .value, []⟩
  | b :: rest =>
    if b = Ascii.leftBrace then readObject rest
    else if b = Ascii.leftBracket then readList rest
    else .error (Json.mismatch shape b rest)

def decode (data : Bytes) : Except EntryError Entry :=
  match Json.document read data with
  | .error cause => .error (.malformed cause)
  | .ok e =>
    match e.status? with
    | .error code => .error (.unknownStatus code)
    | .ok _ => .ok e

end Entry
end HttpCache
