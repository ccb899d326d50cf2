import HttpCache.Number.Binary64
import HttpCache.Text.Decimal

/-!
# HttpCache.Number.Reading

Floating-point numbers from decimal text: an optional sign, and then digits with an optional point
and an optional exponent, or the name of an infinity or of not-a-number in any case.
-/

namespace HttpCache
namespace Binary64

def splitDigits (cs : List Char) : List Char × List Char :=
  (cs.takeWhile Char.isDigit, cs.dropWhile Char.isDigit)

/-- An exponent after its mark: an optional sign and at least one digit. -/
def signedExponent? : List Char → Option Int
  | '-' :: cs => (Decimal.value? cs).map fun n => -(n : Int)
  | '+' :: cs => (Decimal.value? cs).map Int.ofNat
  | cs => (Decimal.value? cs).map Int.ofNat

def exponent? : List Char → Option Int
  | [] => some 0
  | c :: cs => if c = 'e' || c = 'E' then signedExponent? cs else none

/-- A number without a sign and without a name: digits on at least one side of the point. -/
def decimal? (negative : Bool) (cs : List Char) : Option Binary64 :=
  let (whole, rest) := splitDigits cs
  let (places, rest) := match rest with
    | '.' :: rest => splitDigits rest
    | rest => ([], rest)
  match Decimal.value? (whole ++ places), exponent? rest with
  | some n, some e => some (ofDecimal negative n (e - places.length))
  | _, _ => none

def unsigned? (negative : Bool) (cs : List Char) : Option Binary64 :=
  let name := String.ofList (cs.map Char.toLower)
  if name = "inf" || name = "infinity" then some (.infinity negative)
  else if name = "nan" then some .nan
  else decimal? negative cs

def ofText? (s : String) : Option Binary64 :=
  match s.toList with
  | '-' :: cs => unsigned? true cs
  | '+' :: cs => unsigned? false cs
  | cs => unsigned? false cs

end Binary64
end HttpCache
