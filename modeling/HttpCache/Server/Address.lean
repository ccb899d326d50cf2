import HttpCache.Server.Host
import HttpCache.Text.Decimal

/-!
# HttpCache.Server.Address

The addresses that a server listens on: a host, a colon and a number.

* `Address.ofText?` — reads an address; a host of eight groups may stand in brackets.
-/

namespace HttpCache

structure Address where
  host : Host
  /-- Zero stands for any number that is free. -/
  number : Nat
  deriving DecidableEq, Repr

namespace Address

def maxNumber : Nat := 65535

def loopback : Address := ⟨.loopback, 0⟩

def ofBracketed? (cs : List Char) : Option Address := do
  let host ← Host.ofGroups? (cs.takeWhile (· != ']'))
  match cs.dropWhile (· != ']') with
  | ']' :: ':' :: digits => do
    let number ← (Decimal.value? digits).filter (· ≤ maxNumber)
    some ⟨host, number⟩
  | _ => none

/-- Reads a host and a number, cut at the last colon. The number may have a plus in front. -/
def ofPlain? (cs : List Char) : Option Address := do
  let reversed := cs.reverse
  let host ← Host.ofText? (reversed.dropWhile (· != ':')).tail.reverse
  let digits := (reversed.takeWhile (· != ':')).reverse
  let number ← Decimal.natural? maxNumber (String.ofList digits)
  some ⟨host, number⟩

def ofText? (text : String) : Option Address :=
  match text.toList with
  | '[' :: cs => ofBracketed? cs
  | cs => ofPlain? cs

end Address
end HttpCache
