import HttpCache.Text.Bytes

/-!
# HttpCache.Text.Utf8

Decoding octets that may not be well-formed UTF-8.

* `lossy bs` — the text of `bs`, where each maximal ill-formed part stands as one U+FFFD.
* `lossy_utf8` — on the octets of a text nothing is replaced.

The replacing decoder runs over the octets once. While a sequence is open it knows the range of
the next octet; an octet outside that range closes the open part as ill-formed and is then read
again as the start of a sequence.
-/

namespace HttpCache
namespace Utf8

def replacement : Char := Char.ofNat 0xFFFD

inductive Pending where
  | start
  /-- The next octet lies in `low..high` and `more` continuation octets follow it. -/
  | within (value : Nat) (low high : UInt8) (more : Nat)

/-- How an octet at the start of a sequence is taken: a character of its own, an ill-formed part
of its own, or the beginning of a longer sequence. -/
def first (b : UInt8) : List Char × Pending :=
  if b < 0x80 then ([Char.ofNat b.toNat], .start)
  else if b < 0xC2 then ([replacement], .start)
  else if b < 0xE0 then ([], .within (b.toNat - 0xC0) 0x80 0xBF 0)
  else if b < 0xF0 then
    ([], .within (b.toNat - 0xE0) (if b = 0xE0 then 0xA0 else 0x80)
      (if b = 0xED then 0x9F else 0xBF) 1)
  else if b < 0xF5 then
    ([], .within (b.toNat - 0xF0) (if b = 0xF0 then 0x90 else 0x80)
      (if b = 0xF4 then 0x8F else 0xBF) 2)
  else ([replacement], .start)

def replacing : Pending → Bytes → List Char
  | .start, [] => []
  | .within _ _ _ _, [] => [replacement]
  | .start, b :: rest => (first b).1 ++ replacing (first b).2 rest
  | .within value low high more, b :: rest =>
    if low ≤ b && b ≤ high then
      match more with
      | 0 => Char.ofNat (value * 64 + (b.toNat - 0x80)) :: replacing .start rest
      | more + 1 => replacing (.within (value * 64 + (b.toNat - 0x80)) 0x80 0xBF more) rest
    else replacement :: ((first b).1 ++ replacing (first b).2 rest)

/-- The text of `bs`, with U+FFFD for each maximal ill-formed part. -/
def lossy (bs : Bytes) : String :=
  match Text.ofUtf8? bs with
  | some s => s
  | none => String.ofList (replacing .start bs)

@[simp] theorem lossy_utf8 (s : String) : lossy (Text.utf8 s) = s := by
  simp [lossy, Text.ofUtf8?_utf8]

end Utf8
end HttpCache
