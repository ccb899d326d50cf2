import HttpCache.Text.Ascii
import HttpCache.Text.Utf8

/-!
# HttpCache.Message.Head

The head of an HTTP/1 request: the request line and the header lines, up to the empty line.

* `RequestError` — why octets are not a request; `incomplete` is the only one that further
  octets can change.
* `Head.read` — reads a head strictly from left to right and returns it with the octets after it.

Each reader takes the octets still unread and returns its result with the rest.
-/

namespace HttpCache

/-- The rule of the grammar that a malformed head breaks. -/
inductive HeadFault where
  | headerName
  | headerValue
  | newLine
  | status
  | token
  | tooManyHeaders
  | version
  deriving DecidableEq, Repr

namespace HeadFault

def message : HeadFault → String
  | headerName => "invalid header name"
  | headerValue => "invalid header value"
  | newLine => "invalid new line"
  | status => "invalid response status"
  | token => "invalid token"
  | tooManyHeaders => "too many headers"
  | version => "invalid HTTP version"

end HeadFault

inductive RequestError where
  | incomplete
  | malformed (fault : HeadFault)
  | missingField (field : String)
  deriving DecidableEq, Repr

namespace RequestError

def message : RequestError → String
  | incomplete => "request is incomplete: more data needed"
  | malformed fault => "HTTP parse error: " ++ fault.message
  | missingField field => "missing required field: " ++ field

end RequestError

inductive Version where
  | http10
  | http11
  deriving DecidableEq, Repr

namespace Version

def minor : Version → Nat
  | http10 => 0
  | http11 => 1

end Version

structure Head where
  method : String
  target : String
  version : Version
  fields : List (String × Bytes)
  deriving DecidableEq, Repr

namespace Head

open Ascii

def maxFields : Nat := 64

def skipLineEnds : Bytes → Except RequestError Bytes
  | [] => .error .incomplete
  | b :: rest =>
    if b = cr then
      match rest with
      | [] => .error .incomplete
      | c :: tail => if c = lf then skipLineEnds tail else .error (.malformed .newLine)
    else if b = lf then skipLineEnds rest
    else .ok (b :: rest)

/-- Reads one line end, with or without its carriage return. -/
def readLineEnd (fault : HeadFault) : Bytes → Except RequestError Bytes
  | [] => .error .incomplete
  | b :: rest =>
    if b = cr then
      match rest with
      | [] => .error .incomplete
      | c :: tail => if c = lf then .ok tail else .error (.malformed fault)
    else if b = lf then .ok rest
    else .error (.malformed fault)

/-- Reads a non-empty run of octets of a class and the space after it. -/
def readWord (member : UInt8 → Bool) (s : Bytes) : Except RequestError (Bytes × Bytes) :=
  match s.dropWhile member with
  | [] => .error .incomplete
  | b :: rest =>
    if b = space && !(s.takeWhile member).isEmpty then .ok (s.takeWhile member, rest)
    else .error (.malformed .token)

/-- Reads the request target, which has to be UTF-8. -/
def readTarget (s : Bytes) : Except RequestError (String × Bytes) :=
  match readWord isTargetByte s with
  | .error e => .error e
  | .ok (word, rest) =>
    match Text.ofUtf8? word with
    | none => .error (.malformed .token)
    | some target => .ok (target, rest)

/-- The octets that both versions begin with. -/
def versionStem : Bytes := [72, 84, 84, 80, 47, 49, 46]

/-- Reads the protocol version; fewer than eight octets are compared as far as they go. -/
def readVersion (s : Bytes) : Except RequestError (Version × Bytes) :=
  if s.length < 8 then
    if (s.take 7).isPrefixOf versionStem then .error .incomplete
    else .error (.malformed .version)
  else if s.take 8 = versionStem ++ [48] then .ok (.http10, s.drop 8)
  else if s.take 8 = versionStem ++ [49] then .ok (.http11, s.drop 8)
  else .error (.malformed .version)

def trimEnd (value : Bytes) : Bytes := (value.reverse.dropWhile isBlank).reverse

def readFieldValue (s : Bytes) : Except RequestError (Bytes × Bytes) :=
  match readLineEnd .headerValue ((s.dropWhile isBlank).dropWhile isFieldByte) with
  | .error e => .error e
  | .ok rest => .ok (trimEnd ((s.dropWhile isBlank).takeWhile isFieldByte), rest)

def readField (s : Bytes) : Except RequestError ((String × Bytes) × Bytes) :=
  match s.dropWhile isTokenByte with
  | [] => .error .incomplete
  | b :: rest =>
    if b = colon && !(s.takeWhile isTokenByte).isEmpty then
      match readFieldValue rest with
      | .error e => .error e
      | .ok (value, tail) => .ok ((Utf8.lossy (s.takeWhile isTokenByte), value), tail)
    else .error (.malformed .headerName)

/-- Reads header lines up to the empty line; at most `room` of them. -/
def readFields (room : Nat) (s : Bytes) : Except RequestError (List (String × Bytes) × Bytes) :=
  match s with
  | [] => .error .incomplete
  | b :: _ =>
    if b = cr || b = lf then
      match readLineEnd .newLine s with
      | .error e => .error e
      | .ok rest => .ok ([], rest)
    else
      match readField s with
      | .error e => .error e
      | .ok (field, rest) =>
        match room with
        | 0 => .error (.malformed .tooManyHeaders)
        | room + 1 =>
          match readFields room rest with
          | .error e => .error e
          | .ok (fields, tail) => .ok (field :: fields, tail)

def readRequestLine (s : Bytes) : Except RequestError ((String × String × Version) × Bytes) :=
  match readWord isTokenByte s with
  | .error e => .error e
  | .ok (method, s) =>
    match readTarget s with
    | .error e => .error e
    | .ok (target, s) =>
      match readVersion s with
      | .error e => .error e
      | .ok (version, s) =>
        match readLineEnd .newLine s with
        | .error e => .error e
        | .ok rest => .ok ((Utf8.lossy method, target, version), rest)

def read (s : Bytes) : Except RequestError (Head × Bytes) :=
  match skipLineEnds s with
  | .error e => .error e
  | .ok s =>
    match readRequestLine s with
    | .error e => .error e
    | .ok ((method, target, version), s) =>
      match readFields maxFields s with
      | .error e => .error e
      | .ok (fields, rest) => .ok (⟨method, target, version, fields⟩, rest)

/-! ## What is left over is a shorter end of the input -/

theorem skipLineEnds_suffix {s t : Bytes} (h : skipLineEnds s = .ok t) : t <:+ s := by
  fun_induction skipLineEnds s with
  | case1 => cases h
  | case2 => cases h
  | case3 tail ih => exact (ih h).trans ⟨[cr, lf], rfl⟩
  | case4 => cases h
  | case5 rest _ ih => exact (ih h).trans ⟨[lf], rfl⟩
  | case6 b rest hb hl => cases h; exact List.suffix_rfl

/-- From `s` to `t` at least one octet is read. -/
structure Consumes (s t : Bytes) : Prop where
  suffix : t <:+ s
  lt : t.length < s.length

namespace Consumes

variable {s t u : Bytes}

theorem of_cons_suffix {b : UInt8} (h : b :: t <:+ s) : Consumes s t where
  suffix := (List.suffix_cons b t).trans h
  lt := h.length_le

theorem of_suffix (h₁ : Consumes t u) (h₂ : t <:+ s) : Consumes s u where
  suffix := h₁.suffix.trans h₂
  lt := Nat.lt_of_lt_of_le h₁.lt h₂.length_le

theorem trans (h₁ : Consumes s t) (h₂ : Consumes t u) : Consumes s u := h₂.of_suffix h₁.suffix

end Consumes

theorem readLineEnd_consumes {fault : HeadFault} {s t : Bytes} (h : readLineEnd fault s = .ok t) :
    Consumes s t := by
  unfold readLineEnd at h
  split at h
  · cases h
  · split at h
    · split at h
      · cases h
      · split at h
        · cases h; exact .of_cons_suffix (List.suffix_cons _ _)
        · cases h
    · split at h
      · cases h; exact .of_cons_suffix List.suffix_rfl
      · cases h

theorem readWord_consumes {member : UInt8 → Bool} {s word t : Bytes}
    (h : readWord member s = .ok (word, t)) : Consumes s t := by
  unfold readWord at h
  split at h
  · cases h
  · rename_i b rest heq
    split at h
    · cases h; exact .of_cons_suffix (heq ▸ List.dropWhile_suffix member)
    · cases h

theorem readTarget_consumes {s t : Bytes} {target : String} (h : readTarget s = .ok (target, t)) :
    Consumes s t := by
  unfold readTarget at h
  split at h
  · cases h
  · rename_i word rest heq
    split at h
    · cases h
    · cases h; exact readWord_consumes heq

theorem readVersion_consumes {s t : Bytes} {version : Version}
    (h : readVersion s = .ok (version, t)) : Consumes s t := by
  unfold readVersion at h
  split at h
  · split at h <;> cases h
  · rename_i hs
    have hdrop : Consumes s (s.drop 8) :=
      ⟨List.drop_suffix 8 s, by rw [List.length_drop]; omega⟩
    split at h
    · cases h; exact hdrop
    · split at h
      · cases h; exact hdrop
      · cases h

theorem readRequestLine_consumes {s t : Bytes} {parts : String × String × Version}
    (h : readRequestLine s = .ok (parts, t)) : Consumes s t := by
  unfold readRequestLine at h
  split at h
  · cases h
  · rename_i hmethod
    split at h
    · cases h
    · rename_i htarget
      split at h
      · cases h
      · rename_i hversion
        split at h
        · cases h
        · rename_i hend
          cases h
          exact (readWord_consumes hmethod).trans <| (readTarget_consumes htarget).trans <|
            (readVersion_consumes hversion).trans (readLineEnd_consumes hend)

theorem readFieldValue_consumes {s value t : Bytes} (h : readFieldValue s = .ok (value, t)) :
    Consumes s t := by
  unfold readFieldValue at h
  split at h
  · cases h
  · rename_i hend
    cases h
    exact (readLineEnd_consumes hend).of_suffix <|
      (List.dropWhile_suffix isFieldByte).trans (List.dropWhile_suffix isBlank)

theorem readField_consumes {s t : Bytes} {field : String × Bytes}
    (h : readField s = .ok (field, t)) : Consumes s t := by
  unfold readField at h
  split at h
  · cases h
  · rename_i b rest heq
    split at h
    · split at h
      · cases h
      · rename_i hvalue
        cases h
        exact (readFieldValue_consumes hvalue).of_suffix <|
          (List.suffix_cons b rest).trans (heq ▸ List.dropWhile_suffix isTokenByte)
    · cases h

theorem readFields_consumes {room : Nat} {s t : Bytes} {fields : List (String × Bytes)}
    (h : readFields room s = .ok (fields, t)) : Consumes s t := by
  induction room generalizing s fields with
  | zero =>
    unfold readFields at h
    split at h
    · cases h
    · split at h
      · split at h
        · cases h
        · rename_i hend; cases h; exact readLineEnd_consumes hend
      · split at h
        · cases h
        · cases h
  | succ room ih =>
    unfold readFields at h
    split at h
    · cases h
    · split at h
      · split at h
        · cases h
        · rename_i hend; cases h; exact readLineEnd_consumes hend
      · split at h
        · cases h
        · rename_i hfield
          simp only at h
          split at h
          · cases h
          · rename_i hrest
            cases h
            exact (readField_consumes hfield).trans (ih hrest)

theorem read_consumes {s t : Bytes} {head : Head} (h : read s = .ok (head, t)) :
    Consumes s t := by
  unfold read at h
  split at h
  · cases h
  · rename_i hskip
    split at h
    · cases h
    · rename_i hline
      split at h
      · cases h
      · rename_i hfields
        cases h
        exact ((readRequestLine_consumes hline).trans (readFields_consumes hfields)).of_suffix
          (skipLineEnds_suffix hskip)

end Head
end HttpCache
