import HttpCache.Text.Decimal

/-!
# HttpCache.Text.Base64

Base64 with the standard alphabet, mandatory padding and canonical trailing bits.

* `encode` — three octets become four symbols; a shorter last group is padded with `=`.
* `decode` — accepts exactly the texts that `encode` writes: no other alphabet, no blanks, no
  missing or extra padding, and no unused bit set in the last group.
* `Error` — why a text is refused, and for an octet at which offset.

The octets of a text are looked at from left to right, except that the last one is looked at first
if it stands alone after groups of four. Padding and unused bits are looked at when all symbols of
the last group are known.
-/

namespace HttpCache
namespace Base64

abbrev pad : UInt8 := 61

def symbol (n : Nat) : UInt8 :=
  if n < 26 then UInt8.ofNat (65 + n)
  else if n < 52 then UInt8.ofNat (71 + n)
  else if n < 62 then UInt8.ofNat (n - 4)
  else if n = 62 then 43
  else 47

def value? (b : UInt8) : Option Nat :=
  if 65 ≤ b && b ≤ 90 then some (b.toNat - 65)
  else if 97 ≤ b && b ≤ 122 then some (b.toNat - 71)
  else if 48 ≤ b && b ≤ 57 then some (b.toNat + 4)
  else if b = 43 then some 62
  else if b = 47 then some 63
  else none

def encode : Bytes → Bytes
  | [] => []
  | [a] =>
    let n := a.toNat * 16
    [symbol (n / 64), symbol (n % 64), pad, pad]
  | [a, b] =>
    let n := (a.toNat * 256 + b.toNat) * 4
    [symbol (n / 4096), symbol (n / 64 % 64), symbol (n % 64), pad]
  | a :: b :: c :: rest =>
    let n := (a.toNat * 256 + b.toNat) * 256 + c.toNat
    symbol (n / 262144) :: symbol (n / 4096 % 64) :: symbol (n / 64 % 64) :: symbol (n % 64) ::
      encode rest

/-- One octet from two symbols; the four low bits have to be clear. -/
def lastOne? (x y : Nat) : Option Bytes :=
  let n := x * 64 + y
  if n % 16 = 0 then some [UInt8.ofNat (n / 16)] else none

/-- Two octets from three symbols; the two low bits have to be clear. -/
def lastTwo? (x y z : Nat) : Option Bytes :=
  let n := (x * 64 + y) * 64 + z
  if n % 4 = 0 then some [UInt8.ofNat (n / 1024), UInt8.ofNat (n / 4 % 256)] else none

def group (x y z w : Nat) : Bytes :=
  let n := ((x * 64 + y) * 64 + z) * 64 + w
  [UInt8.ofNat (n / 65536), UInt8.ofNat (n / 256 % 256), UInt8.ofNat (n % 256)]

inductive Error where
  /-- An octet that is no symbol, or padding in the place of one. -/
  | invalidSymbol (offset : Nat) (b : UInt8)
  /-- The last symbol stands alone in its group. -/
  | invalidLength (n : Nat)
  /-- The last symbol has a bit set that belongs to no octet. -/
  | invalidLastSymbol (offset : Nat) (b : UInt8)
  | invalidPadding
  deriving DecidableEq, Repr

namespace Error

def message : Error → String
  | invalidSymbol offset b =>
    "Invalid symbol " ++ Decimal.text b.toNat ++ ", offset " ++ Decimal.text offset ++ "."
  | invalidLength n => "Invalid input length: " ++ Decimal.text n
  | invalidLastSymbol offset b =>
    "Invalid last symbol " ++ Decimal.text b.toNat ++ ", offset " ++ Decimal.text offset ++ "."
  | invalidPadding => "Invalid padding"

end Error

def readSymbol (offset : Nat) (b : UInt8) : Except Error Nat :=
  match value? b with
  | none => .error (.invalidSymbol offset b)
  | some n => .ok n

/-- The octets that end with this symbol, if its unused bits are clear. -/
def endedBy (offset : Nat) (b : UInt8) : Option Bytes → Except Error Bytes
  | none => .error (.invalidLastSymbol offset b)
  | some octets => .ok octets

/-- The octets of four symbols. -/
def decodeGroup (offset : Nat) (a b c d : UInt8) : Except Error Bytes := do
  let x ← readSymbol offset a
  let y ← readSymbol (offset + 1) b
  let z ← readSymbol (offset + 2) c
  let w ← readSymbol (offset + 3) d
  pure (group x y z w)

/-- The octets of the last group; it may end with padding. -/
def decodeLast (offset : Nat) (a b c d : UInt8) : Except Error Bytes := do
  let x ← readSymbol offset a
  let y ← readSymbol (offset + 1) b
  if c = pad then
    if d = pad then endedBy (offset + 1) b (lastOne? x y)
    else .error (.invalidSymbol (offset + 2) c)
  else
    let z ← readSymbol (offset + 2) c
    if d = pad then endedBy (offset + 2) c (lastTwo? x y z)
    else
      let w ← readSymbol (offset + 3) d
      pure (group x y z w)

/-- What is wrong with a last group of fewer than four octets, unless there is none. -/
def decodeShort (offset : Nat) : Bytes → Except Error Bytes
  | [] => .ok []
  | [a] => do
    let _ ← readSymbol offset a
    .error (.invalidLength (offset + 1))
  | a :: b :: rest => do
    let _ ← readSymbol offset a
    let _ ← readSymbol (offset + 1) b
    match rest with
    | [] => .error .invalidPadding
    | c :: _ =>
      if c = pad then .error .invalidPadding
      else
        let _ ← readSymbol (offset + 2) c
        .error .invalidPadding

/-- The octets of the groups from an offset on. -/
def decodeFrom (offset : Nat) : Bytes → Except Error Bytes
  | a :: b :: c :: d :: rest =>
    if rest.isEmpty then decodeLast offset a b c d
    else do
      let octets ← decodeGroup offset a b c d
      let more ← decodeFrom (offset + 4) rest
      pure (octets ++ more)
  | s => decodeShort offset s

/-- What is wrong with the last octet of a text that has one too many for its groups. Padding is
left to be refused where it stands. -/
def stray? (s : Bytes) : Option Error :=
  match s.getLast? with
  | none => none
  | some b =>
    if s.length % 4 = 1 && b != pad && (value? b).isNone then
      some (.invalidSymbol (s.length - 1) b)
    else none

/-- The octets that a padded text stands for. -/
def decode (s : Bytes) : Except Error Bytes :=
  match stray? s with
  | some e => .error e
  | none => decodeFrom 0 s

theorem value?_symbol : ∀ n, n < 64 → value? (symbol n) = some n := by decide

theorem symbol_ne_pad : ∀ n, n < 64 → symbol n ≠ pad := by decide

end Base64
end HttpCache
