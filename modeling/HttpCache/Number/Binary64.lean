/-!
# HttpCache.Number.Binary64

Binary floating-point numbers of 64 bits, as exact values.

* `Binary64` — a finite number is `± m · 2^q`; besides there are the infinities and not-a-number.
* `ofDecimal` — the number nearest to `± n · 10^e`, with ties to the even significand.
* `mul`, `div` — the numbers nearest to a product and to a quotient.
* `Binary64.roundAway` — the nearest integer, a half going away from zero.

A finite number is kept with `m < 2^53` and `-1074 ≤ q`, and with `2^52 ≤ m` unless
`q = -1074`; so each number has one form.
-/

namespace HttpCache

inductive Binary64 where
  | finite (negative : Bool) (m : Nat) (q : Int)
  | infinity (negative : Bool)
  | nan
  deriving DecidableEq, Repr

namespace Binary64

/-- The quotient rounded to the nearest integer, a tie going to the even one. -/
def roundEven (num den : Nat) : Nat :=
  let quotient := num / den
  let twice := 2 * (num % den)
  if twice < den then quotient
  else if den < twice then quotient + 1
  else if quotient % 2 = 0 then quotient
  else quotient + 1

def bitLength (n : Nat) : Nat := if n = 0 then 0 else n.log2 + 1

/-- The fraction `num / den` scaled by `2^-q`, rounded to an integer. -/
def scaled (num den : Nat) (q : Int) : Nat :=
  if 0 ≤ q then roundEven num (den * Nat.pow 2 q.toNat) else roundEven (num * Nat.pow 2 (-q).toNat) den

/-- The exponent that gives `num / den` a significand of 53 digits, or the smallest exponent. -/
def exponentFor (num den : Nat) : Int :=
  let guess : Int := (bitLength num : Int) - (bitLength den : Int) - 53
  let q := if bitLength (scaled num den guess) ≤ 53 then guess else guess + 1
  max q (-1074)

/-- The number nearest to `± num / den`. -/
def ofRatio (negative : Bool) (num den : Nat) : Binary64 :=
  if num = 0 then .finite negative 0 (-1074)
  else
    let q := exponentFor num den
    let m := scaled num den q
    let (m, q) := if m = 0x20000000000000 then (0x10000000000000, q + 1) else (m, q)
    if 971 < q then .infinity negative else .finite negative m q

/-- Exponents beyond this size leave the range of every number of at most this many digits. -/
def exponentSpan (n : Nat) : Int := 400 + (bitLength n : Int)

def ofDecimal (negative : Bool) (n : Nat) (e : Int) : Binary64 :=
  if n = 0 then .finite negative 0 (-1074)
  else if exponentSpan n < e then .infinity negative
  else if e < -(exponentSpan n) then .finite negative 0 (-1074)
  else if 0 ≤ e then ofRatio negative (n * Nat.pow 10 e.toNat) 1
  else ofRatio negative n (Nat.pow 10 (-e).toNat)

def mul : Binary64 → Binary64 → Binary64
  | finite s m q, finite s' m' q' =>
    let e := q + q'
    if 0 ≤ e then ofRatio (s != s') (m * m' * Nat.pow 2 e.toNat) 1
    else ofRatio (s != s') (m * m') (Nat.pow 2 (-e).toNat)
  | nan, _ => nan
  | _, nan => nan
  | infinity s, finite s' m' _ => if m' = 0 then nan else infinity (s != s')
  | finite s m _, infinity s' => if m = 0 then nan else infinity (s != s')
  | infinity s, infinity s' => infinity (s != s')

def div : Binary64 → Binary64 → Binary64
  | finite s m q, finite s' m' q' =>
    if m' = 0 then if m = 0 then nan else infinity (s != s')
    else
      let e := q - q'
      if 0 ≤ e then ofRatio (s != s') (m * Nat.pow 2 e.toNat) m'
      else ofRatio (s != s') m (m' * Nat.pow 2 (-e).toNat)
  | nan, _ => nan
  | _, nan => nan
  | infinity s, finite s' _ _ => infinity (s != s')
  | finite s _ _, infinity s' => finite (s != s') 0 (-1074)
  | infinity _, infinity _ => nan

def isInfinite : Binary64 → Bool
  | infinity _ => true
  | _ => false

/-- Every number except the two zeros. -/
def isNonzero : Binary64 → Bool
  | finite _ m _ => m != 0
  | _ => true

/-- The absolute value rounded to the nearest integer, a half going up. -/
def roundHalfUp (m : Nat) (q : Int) : Nat :=
  if 0 ≤ q then m * Nat.pow 2 q.toNat
  else (m + Nat.pow 2 ((-q).toNat - 1)) / Nat.pow 2 (-q).toNat

/-- The nearest number in `0..limit`; not-a-number counts as zero. -/
def roundAway (limit : Nat) : Binary64 → Nat
  | finite true _ _ => 0
  | finite false m q => min (roundHalfUp m q) limit
  | infinity negative => if negative then 0 else limit
  | nan => 0

end Binary64
end HttpCache
