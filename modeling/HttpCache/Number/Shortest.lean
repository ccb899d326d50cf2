import HttpCache.Number.Binary64
import HttpCache.Text.Decimal

/-!
# HttpCache.Number.Shortest

The decimal text of a binary floating-point number.

* `shortest tie m q` — the number `d · 10^e` with the fewest digits in `d` that still reads back as
  `m · 2^q`, and of those the nearest; `Tie` says which of two that are equally near.
* `Binary64.positional` — that decimal without an exponent and without a needless point; a tie goes
  up.
* `Binary64.literal` — that decimal with a point, and with an exponent far from one; a tie goes to
  the even digit.
-/

namespace HttpCache
namespace Binary64

/-- The decimal digits in front of the point of `num / den`, negative for leading zeros. -/
def magnitude (num den : Nat) : Int :=
  if den ≤ num then ((Decimal.digits (num / den)).length : Int)
  else 1 - ((Decimal.digits ((den - 1) / num)).length : Int)

structure Interval where
  low : Nat
  value : Nat
  high : Nat
  den : Nat
  closed : Bool

/-- The reals nearer to `m · 2^q` than to any other number. -/
def interval (m : Nat) (q : Int) : Interval :=
  let below := if m = 0x10000000000000 && -1074 < q then 1 else 2
  let scale := Nat.pow 2 (q - 2).toNat
  { low := (4 * m - below) * scale, value := 4 * m * scale, high := (4 * m + 2) * scale
    den := Nat.pow 2 (2 - q).toNat, closed := m % 2 = 0 }

def Interval.contains (i : Interval) (d : Nat) (e : Int) : Bool :=
  let point := d * Nat.pow 10 e.toNat * i.den
  let scale := Nat.pow 10 (-e).toNat
  if i.closed then i.low * scale ≤ point && point ≤ i.high * scale
  else i.low * scale < point && point < i.high * scale

inductive Tie where
  | up
  | even
  deriving DecidableEq, Repr

/-- A value half-way above a number goes to the next one. -/
def Tie.raises (below : Nat) : Tie → Bool
  | up => true
  | even => below % 2 = 1

/-- The neighbour of the value on the grid of multiples of `10^e` that reads back, if any. -/
def Interval.onGrid? (tie : Tie) (i : Interval) (e : Int) : Option Nat :=
  let num := i.value * Nat.pow 10 (-e).toNat
  let den := i.den * Nat.pow 10 e.toNat
  let below := num / den
  let rest := num % den
  match i.contains below e, i.contains (below + 1) e with
  | true, true =>
    if den < 2 * rest || (den = 2 * rest && tie.raises below) then some (below + 1) else some below
  | true, false => some below
  | false, true => some (below + 1)
  | false, false => none

def stripZeros (fuel d : Nat) (e : Int) : Nat × Int :=
  match fuel with
  | 0 => (d, e)
  | fuel + 1 => if d % 10 = 0 then stripZeros fuel (d / 10) (e + 1) else (d, e)

def shortest (tie : Tie) (m : Nat) (q : Int) : Nat × Int :=
  let i := interval m q
  let top := magnitude i.value i.den
  let hits := (List.range 17).filterMap fun n =>
    let e : Int := top - Int.ofNat (n + 1)
    (i.onGrid? tie e).map fun d => (d, e)
  match hits.head? with
  | some (d, e) => stripZeros 17 d e
  | none => (m, q)

def sign (negative : Bool) : String := if negative then "-" else ""

def withPoint (digits : List Char) (places : Nat) : String :=
  let padded := List.replicate (places + 1 - digits.length) '0' ++ digits
  String.ofList (padded.take (padded.length - places)) ++ "." ++
    String.ofList (padded.drop (padded.length - places))

/-- The shortest text without an exponent. -/
def positional : Binary64 → String
  | nan => "NaN"
  | infinity negative => sign negative ++ "inf"
  | finite negative m q =>
    if m = 0 then sign negative ++ "0"
    else
      let (d, e) := shortest .up m q
      if 0 ≤ e then
        sign negative ++ String.ofList (Decimal.digits d ++ List.replicate e.toNat '0')
      else sign negative ++ withPoint (Decimal.digits d) (-e).toNat

/-- The shortest text that always has a point or an exponent. -/
def literal : Binary64 → String
  | nan => "NaN"
  | infinity negative => sign negative ++ "inf"
  | finite negative m q =>
    if m = 0 then sign negative ++ "0.0"
    else
      let (d, e) := shortest .even m q
      let digits := Decimal.digits d
      let point : Int := digits.length + e
      if 0 ≤ e && point ≤ 16 then
        sign negative ++ String.ofList (digits ++ List.replicate e.toNat '0') ++ ".0"
      else if e < 0 && -5 < point && point ≤ 16 then
        sign negative ++ withPoint digits (-e).toNat
      else
        let fraction := if digits.length = 1 then "" else "." ++ String.ofList (digits.drop 1)
        sign negative ++ String.ofList (digits.take 1) ++ fraction ++ "e" ++
          Decimal.integerText (point - 1)

end Binary64
end HttpCache
