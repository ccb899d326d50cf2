/-!
# HttpCache.Text.Mark

The mark that tells the order of octets, in front of a text.

* `withoutMark` — a text without one such mark in front.
-/

namespace HttpCache
namespace Text

def byteOrderMark : Char := Char.ofNat 0xFEFF

/-- A text without the mark in front; a second mark stays. -/
def withoutMark (s : String) : String :=
  match s.toList with
  | c :: rest => if c = byteOrderMark then String.ofList rest else s
  | [] => s

end Text
end HttpCache
