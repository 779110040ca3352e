import NamedTree.Decimal.Digits

/-! # Texts that YAML reads as numbers

A plain scalar that looks like a number is one. `looksNumeric` says which texts do: whole numbers in
base 16, 8 or 2 with a mark or in base 10, as long as they fit 128 bits, infinities and the
not-a-number, and decimal fractions whose value is a finite double. A run of digits after a leading
zero is no number but is not left to the reader's judgement either (`paddedDigits`). -/

namespace NamedTree.Yaml

/-- The number of a digit in bases up to sixteen. -/
def digitValue (c : Char) : Nat :=
  if c.isDigit then c.toNat - '0'.toNat
  else if 'a' ≤ c ∧ c ≤ 'f' then c.toNat - 'a'.toNat + 10
  else if 'A' ≤ c ∧ c ≤ 'F' then c.toNat - 'A'.toNat + 10
  else 16

/-- Whether a text is a whole number in a base, at most `bound`. -/
def isWhole (base bound : Nat) (cs : List Char) : Bool :=
  !cs.isEmpty && cs.all (digitValue · < base) &&
    cs.foldl (fun n c => n * base + digitValue c) 0 ≤ bound

/-- The text without a leading sign of the given sort. -/
def dropSign (sign : Char) : List Char → List Char
  | [] => []
  | c :: cs => if c = sign then cs else c :: cs

/-- Whether a text is a whole number with the mark of its base, at most `bound`. -/
def isMarked (bound : Nat) : List Char → Bool
  | '0' :: 'x' :: cs => isWhole 16 bound cs
  | '0' :: 'o' :: cs => isWhole 8 bound cs
  | '0' :: 'b' :: cs => isWhole 2 bound cs
  | _ => false

/-- Digits after a leading zero, with at most one sign. -/
def paddedDigits (cs : List Char) : Bool :=
  let body := match cs with
    | '-' :: cs => cs
    | '+' :: cs => cs
    | cs => cs
  match body with
  | '0' :: c :: cs => (c :: cs).all Char.isDigit
  | _ => false

/-- Whether a text is a whole number of 128 bits. -/
def isInteger (cs : List Char) : Bool :=
  let above := Nat.pow 2 128 - 1
  let below := Nat.pow 2 127
  match cs with
  | '-' :: cs => isMarked below cs || isWhole 10 below cs
  | cs => isMarked above (dropSign '+' cs) || isWhole 10 above (dropSign '+' cs)

/-- A decimal fraction as it is written: its digits, the number of them after the point, and its
exponent. -/
structure Fraction where
  digits : List Char
  places : Nat
  exponent : Int

/-- The digits at the beginning of a text, and what is left. -/
def spanDigits (cs : List Char) : List Char × List Char :=
  (cs.takeWhile Char.isDigit, cs.dropWhile Char.isDigit)

/-- The exponent that fills the rest of a text; no rest is exponent zero. -/
def exponent? : List Char → Option Int
  | [] => some 0
  | c :: cs =>
    if c = 'e' ∨ c = 'E' then
      let (negative, ds) := match cs with
        | '-' :: ds => (true, ds)
        | '+' :: ds => (false, ds)
        | ds => (false, ds)
      if ds.isEmpty || !ds.all Char.isDigit then none
      else some (if negative then -(Decimal.value ds : Int) else Decimal.value ds)
    else none

/-- The decimal fraction that fills a text without a sign. -/
def Fraction.ofText? (cs : List Char) : Option Fraction :=
  let (whole, rest) := spanDigits cs
  let (places, rest) := match rest with
    | '.' :: rest => spanDigits rest
    | rest => ([], rest)
  if whole.isEmpty && places.isEmpty then none
  else (exponent? rest).map fun exponent => ⟨whole ++ places, places.length, exponent⟩

/-- Whether the value rounds to a finite double: it is less than half a step above the greatest one,
which lies between the powers 308 and 309 of ten. -/
def Fraction.isFinite (f : Fraction) : Bool :=
  let significand := Decimal.value f.digits
  let power := f.exponent - f.places
  let magnitude : Int := (Decimal.digits significand).length + power
  if significand = 0 || magnitude ≤ 308 then true
  else if 309 < magnitude then false
  else significand * Nat.pow 10 power.toNat <
    (Nat.pow 2 1024 - Nat.pow 2 970) * Nat.pow 10 (-power).toNat

/-- Whether a text is a number that is not whole: a finite fraction, an infinity, or not a number. -/
def isFloat (cs : List Char) : Bool :=
  let unsigned := match cs with
    | '-' :: cs => cs
    | '+' :: cs => cs
    | cs => cs
  let infinities := [".inf".toList, ".Inf".toList, ".INF".toList]
  infinities.contains unsigned || [".nan".toList, ".NaN".toList, ".NAN".toList].contains cs ||
    ((Fraction.ofText? unsigned).map Fraction.isFinite).getD false

/-- Whether a plain text would be read as a number, or nearly so. -/
def looksNumeric (cs : List Char) : Bool := paddedDigits cs || isInteger cs || isFloat cs

end NamedTree.Yaml
