import DenialMonitor.Decimal.Shortest

set_option autoImplicit false

/-!
# JSON numbers

A number of a document is an integer or a binary64 float. A literal without fraction and exponent
that fits a signed or an unsigned word of 64 bits is an integer; every other literal is a float,
and so is `-0`. Floats are written as the shortest decimal that reads back.

A float literal is read as a significand of 64 bits times a power of ten. Digits enter the
significand from the left while they fit; whole digits beyond that raise the exponent and
fraction digits beyond that are dropped. The significand is rounded once and then multiplied or
divided by the power of ten, in steps of at most `10 ^ 308`.

## Main definitions

* `NumberLiteral` — the digits of a number as they stand in a text.
* `Number` — an integer or a float.
* `NumberLiteral.value?` — the number a literal stands for.
* `Number.toChars` — the text of a number.
-/

namespace DenialMonitor

/-- A number as it stands in a text. Digits are numbers below ten. -/
structure NumberLiteral where
  negative : Bool
  whole : List Nat
  /-- The digits after the point; a literal without a point has none. -/
  fraction : List Nat
  /-- The sign (negative or not) and the digits after the exponent mark. -/
  exponent : Option (Bool × List Nat)
  deriving DecidableEq, Repr

/-- A number of a document. -/
inductive Number where
  | integer (n : Int)
  | float (x : Float)
  deriving DecidableEq, Repr

namespace Number

/-- Equality of values: floats are compared as numbers, so the two zeros are equal, and an
integer never equals a float. -/
def same : Number → Number → Bool
  | .integer m, .integer n => m == n
  | .float x, .float y => x = y || x == y
  | _, _ => false

end Number

namespace NumberLiteral

/-- The natural number with the decimal digits `ds`. -/
def natural (ds : List Nat) : Nat :=
  ds.foldl (fun n d => 10 * n + d) 0

/-- Appends digits to `n` while the result fits 64 bits; also gives the digits left over. -/
def absorb (n : Nat) : List Nat → Nat × List Nat
  | [] => (n, [])
  | d :: ds => if 10 * n + d < UInt64.size then absorb (10 * n + d) ds else (n, d :: ds)

/-- The float nearest to `10 ^ n`. -/
def powerOfTen (n : Nat) : Float :=
  Float.ofScientific 1 false n

/-- `x · 10 ^ e`, or `none` on overflow. Quotients by more than `10 ^ 308` are formed in
steps. -/
def scale? (x : Float) (e : Int) : Option Float :=
  if 308 < e then if x == 0 then some x else none
  else if 0 ≤ e then
    let y := x * powerOfTen e.toNat
    if y.isInf then none else some y
  else if -308 ≤ e then some (x / powerOfTen (-e).toNat)
  else if x == 0 then some x
  else scale? (x / powerOfTen 308) (e + 308)
termination_by (-e).toNat
decreasing_by omega

/-- The power of ten that the exponent part denotes. -/
def exponentValue (l : NumberLiteral) : Int :=
  match l.exponent with
  | none => 0
  | some (true, ds) => -(natural ds : Int)
  | some (false, ds) => natural ds

/-- The float that `l` stands for, or `none` on overflow. -/
def float? (l : NumberLiteral) : Option Float :=
  let (n, dropped) := absorb 0 l.whole
  let (n, unread) := absorb n l.fraction
  let shift : Int := (dropped.length : Int) - ((l.fraction.length : Int) - unread.length)
  (scale? (UInt64.ofNat n).toFloat (shift + l.exponentValue)).map fun x =>
    if l.negative then -x else x

/-- Whether the literal has neither fraction nor exponent. -/
def isWhole (l : NumberLiteral) : Bool :=
  l.fraction.isEmpty && l.exponent.isNone

/-- The integer that `l` stands for, if it is one that fits 64 bits with or without a sign.
`-0` is not an integer. -/
def integer? (l : NumberLiteral) : Option Int :=
  let n := natural l.whole
  if !l.isWhole then none
  else if l.negative then if 0 < n ∧ n ≤ 0x8000000000000000 then some (-(n : Int)) else none
  else if n < UInt64.size then some n else none

/-- The number that `l` stands for, or `none` if it is a float that overflows. -/
def value? (l : NumberLiteral) : Option Number :=
  match l.integer? with
  | some n => some (.integer n)
  | none => l.float?.map .float

end NumberLiteral

namespace Decimal

/-- The decimal digits of `n`. -/
def digitChars (n : Nat) : List Char :=
  Nat.toDigits 10 n

/-- The text of a decimal. One whose leading digit stands for `10 ^ -5` up to `10 ^ 15` is
written in full with a point and at least one digit after it, any other one with an exponent that
always has a sign. -/
def toChars (d : Decimal) : List Char :=
  let ds := digitChars d.digits
  let lead : Int := d.exponent + ds.length - 1
  if d.digits = 0 then ['0', '.', '0']
  else if -5 ≤ lead ∧ lead < 0 then
    '0' :: '.' :: (List.replicate ((-lead).toNat - 1) '0' ++ ds)
  else if 0 ≤ lead ∧ lead ≤ 15 then
    if 0 ≤ d.exponent then ds ++ List.replicate d.exponent.toNat '0' ++ ['.', '0']
    else ds.take (lead.toNat + 1) ++ '.' :: ds.drop (lead.toNat + 1)
  else
    let fraction := if ds.length ≤ 1 then [] else '.' :: ds.drop 1
    let sign := if lead < 0 then '-' else '+'
    ds.take 1 ++ fraction ++ 'e' :: sign :: digitChars lead.natAbs

end Decimal

namespace Number

/-- The text of an integer: its decimal digits after a minus sign if it is negative. -/
def integerChars (n : Int) : List Char :=
  if n < 0 then '-' :: Decimal.digitChars n.natAbs else Decimal.digitChars n.natAbs

/-- The text of a finite float. -/
def floatChars (x : Float) : List Char :=
  let b := Binary.ofFloat x
  let ds := (Decimal.shortest b).toChars
  if b.negative then '-' :: ds else ds

/-- The text of a number. -/
def toChars : Number → List Char
  | .integer n => integerChars n
  | .float x => floatChars x

end Number

end DenialMonitor
