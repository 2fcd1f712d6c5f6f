set_option autoImplicit false

/-!
# Shortest decimals

The shortest decimal that reads back as a given binary64 number. A finite number is `m · 2^q`
with a whole `m`, and the reals that round to it form an interval around it whose ends count
exactly when `m` is even. For one, two, … up to seventeen digits the two neighbours of the number
on the grid of decimals with that many digits are tested; the first grid with a hit wins, of two
hits the nearer one, and of two equally near ones the even one.

## Main definitions

* `Decimal` — a whole number times a power of ten.
* `Binary.ofFloat` — the sign, `m` and `q` of a number.
* `Decimal.shortest` — the shortest decimal inside the rounding interval.
-/

namespace DenialMonitor

/-- The number `digits · 10 ^ exponent`. -/
structure Decimal where
  digits : Nat
  exponent : Int
  deriving DecidableEq, Repr

/-- The number `± significand · 2 ^ exponent`. -/
structure Binary where
  negative : Bool
  significand : Nat
  exponent : Int
  /-- Whether the next smaller number is only half as far away as the next greater one. -/
  closeBelow : Bool
  deriving DecidableEq, Repr

namespace Binary

/-- The bit of a significand that is not stored, `2 ^ 52`. -/
def leadingBit : Nat := 0x10000000000000

/-- The parts of a finite number, read off its 64 bits. -/
def ofFloat (x : Float) : Binary :=
  let bits := x.toBits.toNat
  let fraction := bits % leadingBit
  let biased : Nat := bits / leadingBit % 2048
  let negative : Bool := bits / leadingBit / 2048 = 1
  if biased = 0 then ⟨negative, fraction, -1074, false⟩
  else ⟨negative, leadingBit + fraction, (Int.ofNat biased) - 1075, fraction = 0 ∧ 1 < biased⟩

end Binary

namespace Decimal

/-- `n · base ^ e` as a fraction. -/
def scaled (n base : Nat) (e : Int) : Nat × Nat :=
  if 0 ≤ e then (n * Nat.pow base e.toNat, 1) else (n, Nat.pow base (-e).toNat)

/-- Whether the fraction `a` is below the fraction `b`, or equal to it where `ends` allows. -/
def below (ends : Bool) (a b : Nat × Nat) : Bool :=
  if ends then a.1 * b.2 ≤ b.1 * a.2 else a.1 * b.2 < b.1 * a.2

/-- The `e` with `10 ^ e ≤ num / den < 10 ^ (e + 1)`, for a positive fraction. -/
def magnitude (num den : Nat) : Int :=
  let e : Int := ((Nat.toDigits 10 num).length : Int) - (Nat.toDigits 10 den).length
  if below true (scaled 1 10 e) (num, den) then e else e - 1

/-- The distance between two fractions, over the product of their denominators. -/
def distance (a b : Nat × Nat) : Nat :=
  if a.1 * b.2 ≤ b.1 * a.2 then b.1 * a.2 - a.1 * b.2 else a.1 * b.2 - b.1 * a.2

/-- The decimal without zeros at the end of its digits. -/
def normalize (fuel : Nat) (d : Decimal) : Decimal :=
  match fuel with
  | 0 => d
  | n + 1 => if d.digits % 10 = 0 ∧ d.digits ≠ 0 then normalize n ⟨d.digits / 10, d.exponent + 1⟩
      else d

/-- The decimal with `count` digits that rounds to `b`, if its grid has one: the nearer of the
neighbours `f` and `f + 1` of `b` that lie in the rounding interval. -/
def onGrid? (b : Binary) (count : Nat) : Option Decimal :=
  let quarter := b.exponent - 2
  let value := scaled (4 * b.significand) 2 quarter
  let low := scaled (4 * b.significand - if b.closeBelow then 1 else 2) 2 quarter
  let high := scaled (4 * b.significand + 2) 2 quarter
  let ends := b.significand % 2 == 0
  let unit := magnitude value.1 value.2 - ((count : Int) - 1)
  let grid := scaled 1 10 (-unit)
  let f := value.1 * grid.1 / (value.2 * grid.2)
  let inside (n : Nat) : Bool :=
    below ends low (scaled n 10 unit) && below ends (scaled n 10 unit) high
  let toFloor := distance (scaled f 10 unit) value
  let toNext := distance (scaled (f + 1) 10 unit) value
  match inside f, inside (f + 1) with
  | false, false => none
  | true, false => some ⟨f, unit⟩
  | false, true => some ⟨f + 1, unit⟩
  | true, true =>
    if toFloor < toNext ∨ (toFloor = toNext ∧ f % 2 = 0) then some ⟨f, unit⟩
    else some ⟨f + 1, unit⟩

/-- The shortest decimal that reads back as the magnitude of `b`. Seventeen digits always
suffice. -/
def shortest (b : Binary) : Decimal :=
  if b.significand = 0 then ⟨0, 0⟩
  else
    match (List.range 17).findSome? fun n => onGrid? b (n + 1) with
    | some d => normalize 20 d
    | none => ⟨b.significand, 0⟩

end Decimal

end DenialMonitor
