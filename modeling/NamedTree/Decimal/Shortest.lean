import NamedTree.Decimal.Digits

/-! # The shortest decimal of a binary number

A finite double is `mantissa · 2 ^ exponent`. The reals that round to it form an `Interval`, whose
ends belong to it exactly when the mantissa is even. `shortest` looks for a decimal in that interval
on the grids of 1, 2, … 17 significant digits, where only the two neighbours of the number need to
be tried: the first grid with a hit wins, of two hits the nearer one, and the even one of two equally
near. All of it is exact arithmetic on natural numbers. -/

namespace NamedTree.Decimal

/-- A decimal number, `significand · 10 ^ exponent`. -/
structure Scientific where
  significand : Nat
  exponent : Int
deriving DecidableEq

/-- The same number without a zero at the end of its significand. -/
def Scientific.reduce (s : Scientific) : Scientific :=
  if s.significand % 10 = 0 then ⟨s.significand / 10, s.exponent + 1⟩ else s

/-- The reals that round to a binary number, as fractions over `denominator`, with the number itself
between the two ends. -/
structure Interval where
  low : Nat
  center : Nat
  high : Nat
  denominator : Nat
  closed : Bool

namespace Interval

/-- The interval of `mantissa · 2 ^ exponent`. Below a power of two the neighbour is only half as
far away, which `narrow` says. -/
def ofBinary (mantissa : Nat) (exponent : Int) (narrow : Bool) : Interval :=
  let scale := Nat.pow 2 (exponent - 2).toNat
  { low := (4 * mantissa - if narrow then 1 else 2) * scale
    center := 4 * mantissa * scale
    high := (4 * mantissa + 2) * scale
    denominator := Nat.pow 2 (2 - exponent).toNat
    closed := mantissa % 2 = 0 }

/-- The least power of ten above the number, as its exponent. -/
def magnitude (i : Interval) : Int :=
  if i.denominator ≤ i.center then (digits (i.center / i.denominator)).length
  else 1 - ((digits ((i.denominator - 1) / i.center)).length : Int)

/-- Whether the multiple `c · 10 ^ exponent` lies in the interval. -/
def contains (i : Interval) (c : Nat) (exponent : Int) : Bool :=
  let up := Nat.pow 10 (-exponent).toNat
  let x := c * i.denominator * Nat.pow 10 exponent.toNat
  if i.closed then i.low * up ≤ x && x ≤ i.high * up else i.low * up < x && x < i.high * up

/-- The multiple of `10 ^ exponent` in the interval that is nearest to the number. -/
def nearest? (i : Interval) (exponent : Int) : Option Nat :=
  let num := i.center * Nat.pow 10 (-exponent).toNat
  let den := i.denominator * Nat.pow 10 exponent.toNat
  let below := num / den
  match i.contains below exponent, i.contains (below + 1) exponent with
  | true, true =>
    match compare (2 * num) ((2 * below + 1) * den) with
    | .lt => some below
    | .gt => some (below + 1)
    | .eq => some (if below % 2 = 0 then below else below + 1)
  | true, false => some below
  | false, true => some (below + 1)
  | false, false => none

/-- The decimal of fewest digits in the interval, nearest to the number. A neighbour above may be the
next power of ten, which is the only hit that ends in a zero. -/
def shortest (i : Interval) : Scientific :=
  let top := i.magnitude
  let found := (List.range 17).findSome? fun n =>
    let exponent := top - (n + 1 : Nat)
    (i.nearest? exponent).map fun c => Scientific.reduce ⟨c, exponent⟩
  found.getD ⟨0, 0⟩

end Interval

/-- The shortest decimal that reads back as the magnitude of a finite double other than zero. -/
def shortest (x : Float) : Scientific :=
  let bits := x.toBits.toNat
  let fraction := bits % 0x10000000000000
  let biased : Nat := bits / 0x10000000000000 % 0x800
  if biased = 0 then (Interval.ofBinary fraction (-1074) false).shortest
  else
    let narrow := fraction = 0 && biased ≠ 1
    (Interval.ofBinary (0x10000000000000 + fraction) ((biased : Int) - 1075) narrow).shortest

end NamedTree.Decimal
