/-!
# HttpCache.Text.Radix

Whole numbers in bases up to 16.

* `digit? base c` — the value of a digit; letters of both cases follow the ten figures.
* `number? base cs` — the number that a non-empty run of digits stands for.
-/

namespace HttpCache
namespace Radix

def value? (c : Char) : Option Nat :=
  if c.isDigit then some (c.toNat - 48)
  else if 'a' ≤ c && c ≤ 'f' then some (c.toNat - 87)
  else if 'A' ≤ c && c ≤ 'F' then some (c.toNat - 55)
  else none

def digit? (base : Nat) (c : Char) : Option Nat := (value? c).filter (· < base)

def isDigit (base : Nat) (c : Char) : Bool := (digit? base c).isSome

/-- The number that digits stand for, the most significant first. -/
def ofDigits (base : Nat) (values : List Nat) : Nat := values.foldl (fun n d => n * base + d) 0

def number? (base : Nat) (cs : List Char) : Option Nat :=
  if cs.isEmpty then none else (cs.mapM (digit? base)).map (ofDigits base)

end Radix
end HttpCache
