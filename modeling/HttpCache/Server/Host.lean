import HttpCache.Text.Radix

/-!
# HttpCache.Server.Host

Hosts as they are written in front of the number of an address.

* `Host` — one number of 32 bits, or eight groups of 16 bits.
* `Host.ofParts?` — up to four numbers with points between them, the last one filling what is left:
  `127.1` and `127.0.0.1` are the same host.
* `Host.ofGroups?` — groups of hexadecimal digits, with `::` in place of a run of zeros.
* `Host.isUsable` — whether a server can listen there.
-/

namespace HttpCache

open Radix (number?)

inductive Host where
  | v4 (value : Nat)
  | v6 (groups : List Nat)
  deriving DecidableEq, Repr

namespace Host

/-! ## Four octets -/

/-- A number between points: `0x` and `0` in front stand for the bases 16 and 8. -/
def part? : List Char → Option Nat
  | '0' :: 'x' :: rest => number? 16 rest
  | '0' :: 'X' :: rest => number? 16 rest
  | '0' :: c :: rest => number? 8 (c :: rest)
  | cs => number? 10 cs

/-- The octets of several numbers in one; the last one has `room` octets to fill. -/
def join? (room : Nat) : List Nat → Option Nat
  | [] => none
  | [last] => if last < Nat.pow 256 room then some last else none
  | first :: rest =>
    match room with
    | 0 => none
    | room + 1 =>
      if first < 256 then (join? room rest).map fun n => first * Nat.pow 256 room + n else none

def ofParts? (cs : List Char) : Option Host :=
  let parts := cs.splitOn '.'
  if parts.length ≤ 4 then ((parts.mapM part?).bind (join? 4)).map .v4 else none

/-! ## Eight groups -/

def group? (cs : List Char) : Option Nat := if cs.length ≤ 4 then number? 16 cs else none

/-- One of exactly four numbers between points, in decimal and without needless zeros. -/
def octet? : List Char → Option Nat
  | '0' :: _ :: _ => none
  | cs => (number? 10 cs).filter (· < 256)

def octetPair? (cs : List Char) : Option (List Nat) := do
  match ← (cs.splitOn '.').mapM octet? with
  | [a, b, c, d] => some [a * 256 + b, c * 256 + d]
  | _ => none

/-- Groups with colons between them; the last two may be written as four octets. -/
def groups? : List (List Char) → Option (List Nat)
  | [] => some []
  | [last] => if last.contains '.' then octetPair? last else (group? last).map ([·])
  | first :: rest => do
    let first ← group? first
    let rest ← groups? rest
    pure (first :: rest)

/-- The pieces between single colons; nothing has none. -/
def pieces (cs : List Char) : List (List Char) := if cs.isEmpty then [] else cs.splitOn ':'

def cutRun : List Char → List Char × Option (List Char)
  | ':' :: ':' :: rest => ([], some rest)
  | c :: rest => (c :: (cutRun rest).1, (cutRun rest).2)
  | [] => ([], none)

/-- Eight groups; a double colon stands for one zero at least. -/
def ofGroups? (cs : List Char) : Option Host :=
  match cutRun cs with
  | (all, none) => ((groups? (pieces all)).filter (·.length = 8)).map .v6
  | (head, some tail) => do
    let head ← if head.contains '.' then none else groups? (pieces head)
    let tail ← groups? (pieces tail)
    if head.length + tail.length < 8 then
      some (.v6 (head ++ List.replicate (8 - head.length - tail.length) 0 ++ tail))
    else none

/-! ## All forms -/

def localName : String := "localhost"

def loopback : Host := .v4 0x7F000001

def ofText? (cs : List Char) : Option Host :=
  if String.ofList (cs.map Char.toLower) = localName then some loopback
  else (ofParts? cs).or (ofGroups? cs)

/-- Whether a server can listen there: on every host of 32 bits, on the one of all zeros, and on
eight groups that stand for a host of 32 bits. -/
def isUsable : Host → Bool
  | v4 _ => true
  | v6 groups => groups.all (· = 0) || groups.take 6 = [0, 0, 0, 0, 0, 0xFFFF]

end Host
end HttpCache
