import NamedTree.Decimal.Shortest

/-! # Doubles as text

A double is written with its shortest digits, positionally as long as the point falls close to them
and with an exponent otherwise. `FloatStyle` holds what differs between formats, which is only
whether a positive exponent has a sign. -/

namespace NamedTree.Decimal

/-- The decisions of a format on how to write doubles. -/
structure FloatStyle where
  /-- Whether an exponent that is not negative is written with a plus sign. -/
  plusSign : Bool

namespace FloatStyle

/-- Digits `ds` with the point after the first `point` of them: positional when the point lies at
most sixteen places to the right or four zeros to the left of the first digit, and scientific
otherwise. -/
def place (style : FloatStyle) (ds : List Char) (point : Int) : List Char :=
  if 0 < point ∧ point ≤ 16 then
    let whole := point.toNat
    if ds.length ≤ whole then ds ++ List.replicate (whole - ds.length) '0' ++ ['.', '0']
    else ds.take whole ++ '.' :: ds.drop whole
  else if -5 < point ∧ point ≤ 0 then
    ['0', '.'] ++ List.replicate (-point).toNat '0' ++ ds
  else
    let power := point - 1
    let mark := if power < 0 then ['e', '-'] else if style.plusSign then ['e', '+'] else ['e']
    ds.take 1 ++ (if ds.length ≤ 1 then [] else '.' :: ds.drop 1) ++ mark ++ digits power.natAbs

/-- The text of a finite double. -/
def write (style : FloatStyle) (x : Float) : List Char :=
  let sign := if 0x8000000000000000 ≤ x.toBits.toNat then ['-'] else []
  if x.toBits.toNat % 0x8000000000000000 = 0 then sign ++ ['0', '.', '0']
  else
    let decimal := shortest x
    let ds := digits decimal.significand
    sign ++ style.place ds (ds.length + decimal.exponent)

end FloatStyle

end NamedTree.Decimal
