import NamedTree.Yaml.Number

/-! # Strings in YAML

A string is written plainly if it can be read back that way, in single quotes if it would be taken
for something else, in double quotes if it holds characters that must be escaped, and as a literal
block if it has several lines. `style` makes the choice from independent traits of the text; the
writers below it do the rest. -/

namespace NamedTree.Yaml

/-- The line breaks. -/
def isBreak (c : Char) : Bool :=
  c = '\n' || c = '\r' || c = '\u0085' || c = '\u2028' || c = '\u2029'

/-- The characters that may stand unescaped. -/
def isPrintable (c : Char) : Bool :=
  c = '\n' || (0x20 ≤ c.toNat && c.toNat ≤ 0x7E) ||
    (0xA0 ≤ c.toNat && c.toNat ≠ 0xFEFF && c.toNat ≠ 0xFFFE && c.toNat ≠ 0xFFFF)

/-- The characters that end a word. -/
def isBlank (c : Char) : Bool := c = ' ' || c = '\t' || c = '\x00' || isBreak c

/-- Whether a text has ended or goes on with a blank. -/
def startsBlank (cs : List Char) : Bool := (cs.head?.map isBlank).getD true

/-! ### Traits of a text -/

/-- The words that stand for null and for the truth values. -/
def reserved : List String :=
  ["", "~", "null", "Null", "NULL", "true", "True", "TRUE", "false", "False", "FALSE"]

/-- Whether a text begins with a mark of the document structure. -/
def startsWithMarker (cs : List Char) : Bool :=
  cs.take 3 = ['-', '-', '-'] || cs.take 3 = ['.', '.', '.']

/-- Whether the first character has a meaning of its own. -/
def startsWithIndicator : List Char → Bool
  | [] => false
  | c :: cs =>
    "#,[]\x7b\x7d&*!|>'\"%@`".toList.contains c ||
      ((c = '?' || c = ':' || c = '-') && startsBlank cs)

/-- Whether a colon that ends a word or a number sign that begins one stands after `previous`. -/
def holdsIndicator (previous : Char) : List Char → Bool
  | [] => false
  | c :: cs =>
    (c = ':' && startsBlank cs) || (c = '#' && isBlank previous) || holdsIndicator c cs

/-- Whether two neighbours of a text satisfy the two conditions. -/
def hasNeighbours (p q : Char → Bool) : List Char → Bool
  | a :: b :: cs => (p a && q b) || hasNeighbours p q (b :: cs)
  | _ => false

/-- A space or a line break. -/
def isSpaceOrBreak (c : Char) : Bool := c = ' ' || isBreak c

/-- Whether escapes are the only way to write a text. -/
def needsEscapes (cs : List Char) : Bool :=
  hasNeighbours (· = ' ') isBreak cs || cs.any fun c => !isPrintable c

/-- Whether single quotes keep a text. -/
def singleAllowed (cs : List Char) : Bool :=
  !needsEscapes cs && !hasNeighbours isBreak (· = ' ') cs

/-- Whether a text can stand without quotes. -/
def plainAllowed (cs : List Char) : Bool :=
  singleAllowed cs && !startsWithMarker cs && !startsWithIndicator cs &&
    !(cs.head?.map fun c => holdsIndicator c cs.tail).getD false &&
    !(cs.head?.map isSpaceOrBreak).getD false && !(cs.getLast?.map isSpaceOrBreak).getD false &&
    !cs.any isBreak

/-- Whether a literal block keeps a text. -/
def literalAllowed (cs : List Char) : Bool :=
  !needsEscapes cs && cs.getLast? ≠ some ' '

/-! ### Styles -/

/-- The ways of writing a string. -/
inductive Style where
  | plain
  | single
  | double
  | literal
deriving DecidableEq

/-- The style of a text. -/
def style (cs : List Char) : Style :=
  if cs.contains '\n' then if literalAllowed cs then .literal else .double
  else if (reserved.contains (String.ofList cs) || looksNumeric cs || !plainAllowed cs) then
    if singleAllowed cs then .single else .double
  else .plain

/-! ### Writers -/

/-- The blanks at the beginning of a line. -/
def indentation (n : Nat) : List Char := List.replicate n ' '

/-- The text with its lines indented: blanks come before the first character of every line that is
not empty. `fresh` says that a line has just begun. -/
def indentLines (indent : Nat) (escape : Char → List Char) (fresh : Bool) : List Char → List Char
  | [] => []
  | c :: cs =>
    if isBreak c then c :: indentLines indent escape true cs
    else (if fresh then indentation indent else []) ++ escape c ++ indentLines indent escape false cs

/-- A text in single quotes, which are doubled inside; a line that ends in a break goes on indented. -/
def singleQuoted (indent : Nat) (cs : List Char) : List Char :=
  let double (c : Char) : List Char := if c = '\'' then ['\'', '\''] else [c]
  let last := (cs.getLast?.map isBreak).getD false
  '\'' :: indentLines indent double false cs ++ (if last then indentation indent else []) ++ ['\'']

/-- Upper-case hexadecimal digits of a number, at least `width` of them. -/
def hexPadded (width n : Nat) : List Char :=
  let ds := (Nat.toDigits 16 n).map Char.toUpper
  List.replicate (width - ds.length) '0' ++ ds

/-- The letters of the short escapes. -/
def shortEscapes : List (Char × Char) :=
  [('\x00', '0'), ('\x07', 'a'), ('\x08', 'b'), ('\t', 't'), ('\n', 'n'), ('\x0B', 'v'),
    ('\x0C', 'f'), ('\r', 'r'), ('\x1B', 'e'), ('"', '"'), ('\\', '\\'), ('\u0085', 'N'),
    ('\u2028', 'L'), ('\u2029', 'P')]

/-- A character as it stands in double quotes. -/
def escape (c : Char) : List Char :=
  match shortEscapes.lookup c with
  | some letter => ['\\', letter]
  | none =>
    if isPrintable c then [c]
    else if c.toNat ≤ 0xFF then '\\' :: 'x' :: hexPadded 2 c.toNat
    else if c.toNat ≤ 0xFFFF then '\\' :: 'u' :: hexPadded 4 c.toNat
    else '\\' :: 'U' :: hexPadded 8 c.toNat

/-- A text in double quotes. -/
def doubleQuoted (cs : List Char) : List Char := '"' :: cs.flatMap escape ++ ['"']

/-- What a literal block says about the breaks at its end: none, several, or the usual one. -/
def chomping (cs : List Char) : List Char :=
  match cs.reverse with
  | [] => ['-']
  | [c] => if isBreak c then ['+'] else ['-']
  | c :: d :: _ => if !isBreak c then ['-'] else if isBreak d then ['+'] else []

/-- A literal block. Its indentation is given when the text begins with a space or a break. -/
def literalBlock (indent : Nat) (cs : List Char) : List Char :=
  let hint := if (cs.head?.map isSpaceOrBreak).getD false then ['2'] else []
  '|' :: hint ++ chomping cs ++ '\n' :: indentLines indent (fun c => [c]) true cs

/-- A string as a value, with the line feed that ends it; further lines are indented. A literal
block that ends in a break needs no other. -/
def stringLine (indent : Nat) (cs : List Char) : List Char :=
  match style cs with
  | .plain => cs ++ ['\n']
  | .single => singleQuoted indent cs ++ ['\n']
  | .double => doubleQuoted cs ++ ['\n']
  | .literal =>
    literalBlock indent cs ++ (if (cs.getLast?.map isBreak).getD false then [] else ['\n'])

/-- A string as a key, on one line. -/
def keyText (cs : List Char) : List Char :=
  match style cs with
  | .plain => cs
  | .single => singleQuoted 0 cs
  | .double => doubleQuoted cs
  | .literal => doubleQuoted cs

end NamedTree.Yaml
