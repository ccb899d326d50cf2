import HttpCache.Config.Tree
import HttpCache.Number.Reading
import HttpCache.Text.Radix

/-!
# HttpCache.Toml.Scalar

The scalars of TOML that are no strings: truth values, integers, floating-point numbers, dates and
times.

* `integer?`, `float?`, `dateTime?` — the value of a token, if it has that form.
* `readScalar` — the scalar in front of other characters.

A date or a time becomes its text, in one spelling: `T` between the two, a fraction of at most nine
digits without needless zeros at its end, `Z` or hours and minutes for the offset. What is left out,
such as the seconds of a time, is left out of the text too.
-/

namespace HttpCache
namespace Toml

open Config (Tree)

/-- The digits of a number, in which single underscores may stand between digits. -/
def ungroup (isDigit : Char → Bool) : List Char → Option (List Char)
  | [] => none
  | [c] => if isDigit c then some [c] else none
  | c :: '_' :: rest => if isDigit c then (ungroup isDigit rest).map (c :: ·) else none
  | c :: rest => if isDigit c then (ungroup isDigit rest).map (c :: ·) else none

def splitSign : List Char → List Char × List Char
  | '+' :: rest => (['+'], rest)
  | '-' :: rest => (['-'], rest)
  | cs => ([], cs)

/-- Decimal digits without a needless zero in front. -/
def wholeDigits? (cs : List Char) : Option (List Char) :=
  match ungroup Char.isDigit cs with
  | some ('0' :: _ :: _) => none
  | digits => digits

def maxInteger : Nat := 0x7FFFFFFFFFFFFFFF

def based? (base : Nat) (cs : List Char) : Option Int :=
  (((ungroup (Radix.isDigit base) cs).bind (Radix.number? base)).filter (· ≤ maxInteger)).map
    Int.ofNat

def integer? (cs : List Char) : Option Int :=
  match cs with
  | '0' :: 'x' :: rest => based? 16 rest
  | '0' :: 'o' :: rest => based? 8 rest
  | '0' :: 'b' :: rest => based? 2 rest
  | cs =>
    let (sign, body) := splitSign cs
    (wholeDigits? body).bind fun digits => Decimal.integer? (String.ofList (sign ++ digits))

def isExponent : List Char → Bool
  | c :: rest => (c = 'e' || c = 'E') && (ungroup Char.isDigit (splitSign rest).2).isSome
  | [] => false

/-- Whether a fraction, an exponent or both follow the whole digits of a number. -/
def isFraction : List Char → Bool
  | '.' :: rest =>
    let places := rest.takeWhile fun c => c.isDigit || c = '_'
    let rest := rest.drop places.length
    (ungroup Char.isDigit places).isSome && (rest.isEmpty || isExponent rest)
  | cs => isExponent cs

/-- A floating-point number; one beyond all finite numbers is refused. -/
def float? (cs : List Char) : Option Binary64 :=
  let (sign, body) := splitSign cs
  if body = "inf".toList then some (.infinity (sign = ['-']))
  else if body = "nan".toList then some .nan
  else
    let whole := body.takeWhile fun c => c.isDigit || c = '_'
    if (wholeDigits? whole).isSome && isFraction (body.drop whole.length) then
      (Binary64.ofText? (String.ofList (cs.filter (· != '_')))).filter (!·.isInfinite)
    else none

/-! ## Dates and times -/

def twoDigits? : List Char → Option (Nat × List Char)
  | a :: b :: rest => (Decimal.value? [a, b]).map fun n => (n, rest)
  | _ => none

def expect? (c : Char) : List Char → Option (List Char)
  | d :: rest => if d = c then some rest else none
  | [] => none

def isLeapYear (year : Nat) : Bool := year % 4 = 0 && (year % 100 != 0 || year % 400 = 0)

def daysIn (year month : Nat) : Nat :=
  if month = 2 then if isLeapYear year then 29 else 28
  else if month = 4 || month = 6 || month = 9 || month = 11 then 30
  else 31

def padded (n : Nat) : String := if n < 10 then "0" ++ Decimal.text n else Decimal.text n

def readDate (cs : List Char) : Option (String × List Char) := do
  let year ← Decimal.value? (cs.take 4)
  let rest ← expect? '-' (cs.drop 4)
  let (month, rest) ← twoDigits? rest
  let rest ← expect? '-' rest
  let (day, rest) ← twoDigits? rest
  if 1 ≤ month && month ≤ 12 && 1 ≤ day && day ≤ daysIn year month then
    some (String.ofList (cs.take 10), rest)
  else none

/-- The digits of a fraction: at most nine, without zeros at the end, but one at least. -/
def fractionText (digits : List Char) : String :=
  match ((digits.take 9).reverse.dropWhile (· = '0')).reverse with
  | [] => "0"
  | kept => String.ofList kept

def readFraction : List Char → Option (String × List Char)
  | '.' :: rest =>
    let digits := rest.takeWhile Char.isDigit
    if digits.isEmpty then none
    else some ("." ++ fractionText digits, rest.drop digits.length)
  | cs => some ("", cs)

def readSeconds : List Char → Option (String × List Char)
  | ':' :: rest => do
    let (second, rest) ← twoDigits? rest
    let (fraction, rest) ← readFraction rest
    if second ≤ 60 then some (":" ++ padded second ++ fraction, rest) else none
  | cs => some ("", cs)

def readTime (cs : List Char) : Option (String × List Char) := do
  let (hour, rest) ← twoDigits? cs
  let rest ← expect? ':' rest
  let (minute, rest) ← twoDigits? rest
  let (seconds, rest) ← readSeconds rest
  if hour ≤ 23 && minute ≤ 59 then
    some (padded hour ++ ":" ++ padded minute ++ seconds, rest)
  else none

def offset? (cs : List Char) : Option String :=
  match cs with
  | [] => some ""
  | ['Z'] | ['z'] => some "Z"
  | sign :: rest => do
    let (hour, rest) ← twoDigits? rest
    let rest ← expect? ':' rest
    let (minute, rest) ← twoDigits? rest
    if (sign = '+' || sign = '-') && rest.isEmpty && hour ≤ 23 && minute ≤ 59 then
      let sign := if hour = 0 && minute = 0 then "+" else String.singleton sign
      some (sign ++ padded hour ++ ":" ++ padded minute)
    else none

def dateTime? (cs : List Char) : Option String :=
  match readDate cs with
  | some (date, []) => some date
  | some (date, mark :: rest) => do
    let (time, rest) ← readTime rest
    let offset ← offset? rest
    if mark = 'T' || mark = 't' || mark = ' ' then some (date ++ "T" ++ time ++ offset) else none
  | none =>
    match readTime cs with
    | some (time, []) => some time
    | _ => none

/-! ## Tokens -/

def isScalarChar (c : Char) : Bool :=
  c.isAlphanum || c = '_' || c = '-' || c = '+' || c = '.' || c = ':'

/-- The characters of the scalar in front. Between a date and a time there may be a space. -/
def scalarToken (cs : List Char) : List Char :=
  let token := cs.takeWhile isScalarChar
  match (readDate token).map (·.2), cs.drop token.length with
  | some [], ' ' :: c :: rest =>
    if c.isDigit then token ++ ' ' :: (c :: rest).takeWhile isScalarChar else token
  | _, _ => token

def scalar? (token : List Char) : Option Tree :=
  if token = "true".toList then some (.bool true)
  else if token = "false".toList then some (.bool false)
  else
    match integer? token, float? token with
    | some i, _ => some (.integer i)
    | none, some x => some (.float x)
    | none, none => (dateTime? token).map .text

def readScalar (cs : List Char) : Option (Tree × List Char) :=
  let token := scalarToken cs
  (scalar? token).map fun value => (value, cs.drop token.length)

end Toml
end HttpCache
