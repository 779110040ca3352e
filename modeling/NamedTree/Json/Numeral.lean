import NamedTree.Json.Fault

/-! # Numbers of JSON texts

A `Numeral` is a number as it is written; `Numeral.scan` splits one off a text and `Numeral.value`
says what it means. Whole numbers within 64 bits are exact. Everything else becomes a double: as many
leading digits as fit 64 bits make the significand, which is converted to a double and multiplied or
divided by a power of ten. That is not always the nearest double. -/

namespace NamedTree.Json

/-- The exponent part of a number. -/
structure Exponent where
  negative : Bool
  digits : List Char

/-- A number as it is written. An empty fraction means that there is no decimal point. -/
structure Numeral where
  negative : Bool
  whole : List Char
  fraction : List Char
  exponent : Option Exponent

namespace Numeral

/-- The digits at the beginning of a text, and what is left. -/
def spanDigits (cs : List Char) : List Char × List Char :=
  (cs.takeWhile Char.isDigit, cs.dropWhile Char.isDigit)

/-- At least one digit, or the place where it is missing. -/
def scanDigits (cs : List Char) : Except (List Char) (List Char × List Char) :=
  if (spanDigits cs).1.isEmpty then .error cs else .ok (spanDigits cs)

/-- The digits before the point: no zero may stand before another digit. -/
def scanWhole : List Char → Except (List Char) (List Char × List Char)
  | '0' :: cs => if (spanDigits cs).1.isEmpty then .ok (['0'], cs) else .error cs
  | cs => scanDigits cs

/-- The point and the digits after it, if there is a point. -/
def scanFraction : List Char → Except (List Char) (List Char × List Char)
  | '.' :: cs => scanDigits cs
  | cs => .ok ([], cs)

/-- The sign of an exponent. -/
def scanSign : List Char → Bool × List Char
  | '+' :: cs => (false, cs)
  | '-' :: cs => (true, cs)
  | cs => (false, cs)

/-- The exponent, if there is one. -/
def scanExponent : List Char → Except (List Char) (Option Exponent × List Char)
  | [] => .ok (none, [])
  | c :: cs =>
    if c = 'e' ∨ c = 'E' then do
      let (digits, rest) ← scanDigits (scanSign cs).2
      return (some ⟨(scanSign cs).1, digits⟩, rest)
    else .ok (none, c :: cs)

/-- The number at the beginning of a text, its minus sign already read, or the place where a digit
is missing or stands after a leading zero. -/
def scan (negative : Bool) (cs : List Char) : Except (List Char) (Numeral × List Char) := do
  let (whole, cs) ← scanWhole cs
  let (fraction, cs) ← scanFraction cs
  let (exponent, cs) ← scanExponent cs
  return (⟨negative, whole, fraction, exponent⟩, cs)

/-- Appends digits to a significand as long as it fits 64 bits; the others are left over. -/
def absorb (significand : Nat) : List Char → Nat × List Char
  | [] => (significand, [])
  | c :: cs =>
    let next := 10 * significand + Decimal.digitValue c
    if next < 0x10000000000000000 then absorb next cs else (significand, c :: cs)

/-- The number that the digits of an exponent make within 31 bits, or the digits after the one
where it becomes too large. -/
def boundedValue (n : Nat) : List Char → Except (List Char) Nat
  | [] => .ok n
  | c :: cs =>
    let next := 10 * n + Decimal.digitValue c
    if next < 0x80000000 then boundedValue next cs else .error cs

/-- The double nearest to a power of ten. -/
def powerOfTen (n : Nat) : Float := Float.ofScientific 1 false n

/-- A double times a power of ten, in steps of at most 308 places; none when it is too large. -/
def scale (x : Float) (exponent : Int) : Option Float :=
  if 0 ≤ exponent then
    if 308 < exponent then (if x == 0 then some x else none)
    else
      let scaled := x * powerOfTen exponent.toNat
      if scaled.isInf then none else some scaled
  else if -308 ≤ exponent then some (x / powerOfTen (-exponent).toNat)
  else if x == 0 then some x
  else scale (x / powerOfTen 308) (exponent + 308)
termination_by (-exponent).toNat
decreasing_by omega

/-- The significand and the power of ten that the digits around the point make. -/
def significand (n : Numeral) : Nat × Int :=
  let whole := absorb 0 n.whole
  let all := absorb whole.1 n.fraction
  (all.1, (whole.2.length : Int) - ((n.fraction.length - all.2.length : Nat) : Int))

/-- The magnitude of a number as a double; an error holds the digits that were not looked at. -/
def magnitude (n : Numeral) : Except (List Char) Float :=
  let (digits, places) := n.significand
  let scaled (exponent : Int) : Except (List Char) Float :=
    match scale (UInt64.ofNat digits).toFloat exponent with
    | some x => .ok x
    | none => .error []
  match n.exponent with
  | none => scaled places
  | some exponent =>
    match boundedValue 0 exponent.digits with
    | .ok e => scaled (if exponent.negative then places - e else places + e)
    | .error unread => if digits = 0 ∨ exponent.negative then .ok 0 else .error unread

/-- The whole number that is written, if it has neither fraction nor exponent and is in bounds. The
negative zero is not a whole number. -/
def integer? (n : Numeral) : Option Integer :=
  if n.fraction.isEmpty && n.exponent.isNone then
    let magnitude := Decimal.value n.whole
    if n.negative then
      if magnitude = 0 then none else Integer.ofInt? (-magnitude)
    else Integer.ofInt? magnitude
  else none

/-- What a number means; an error holds the digits that were not looked at. -/
def value (n : Numeral) : Except (List Char) Json :=
  match n.integer? with
  | some i => .ok (.int i)
  | none => n.magnitude.map fun x => .float (if n.negative then -x else x)

end Numeral

/-- The number at the beginning of a text, its minus sign already read. -/
def readNumber (negative : Bool) (cs : List Char) : Except Fault (Json × List Char) :=
  match Numeral.scan negative cs with
  | .error rest => .error ⟨if rest.isEmpty then .eofValue else .invalidNumber, rest, 1⟩
  | .ok (numeral, rest) =>
    match numeral.value with
    | .ok v => .ok (v, rest)
    | .error unread => .error ⟨.numberOutOfRange, unread ++ rest, 0⟩

/-- Passes over the number at the beginning of a text, its minus sign already read. -/
def skipNumber (cs : List Char) : Except Fault (List Char) :=
  match Numeral.scan false cs with
  | .error rest => .error ⟨.invalidNumber, rest, 1⟩
  | .ok (_, rest) => .ok rest

end NamedTree.Json
