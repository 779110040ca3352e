import NamedTree.Decimal.Text
import NamedTree.Json

/-! # JSON text

`compact` writes a value without any blanks, `pretty` with one entry a line, indented by two spaces
a level. Strings escape the quotation mark, the reverse solidus and the control characters below
U+0020, and nothing else. -/

namespace NamedTree.Json

/-- How JSON writes doubles: `1e+16`. -/
def floatStyle : Decimal.FloatStyle := ⟨true⟩

/-- One hexadecimal digit, in lower case. -/
def hexDigit (n : Nat) : Char := Nat.digitChar (n % 16)

/-- A character as it stands between quotation marks. -/
def escape (c : Char) : List Char :=
  if c = '"' then ['\\', '"']
  else if c = '\\' then ['\\', '\\']
  else if c = '\x08' then ['\\', 'b']
  else if c = '\x0C' then ['\\', 'f']
  else if c = '\n' then ['\\', 'n']
  else if c = '\r' then ['\\', 'r']
  else if c = '\t' then ['\\', 't']
  else if c.toNat < 0x20 then ['\\', 'u', '0', '0', hexDigit (c.toNat / 16), hexDigit c.toNat]
  else [c]

/-- A string in quotation marks. -/
def quote (s : String) : List Char := '"' :: s.toList.flatMap escape ++ ['"']

/-- The values that are written the same in every layout. -/
def scalar : Json → List Char
  | .null => "null".toList
  | .bool true => "true".toList
  | .bool false => "false".toList
  | .int n => Decimal.integer n.val
  | .float x => floatStyle.write x
  | .str s => quote s
  | .arr _ => ['[', ']']
  | .obj _ => ['\x7b', '\x7d']

mutual
/-- The text of a value without blanks. -/
def compact : Json → List Char
  | .arr (item :: items) => '[' :: compact item ++ (compactItems items ++ [']'])
  | .obj ((key, v) :: entries) =>
    '\x7b' :: quote key ++ (':' :: compact v ++ (compactEntries entries ++ ['\x7d']))
  | v => scalar v

/-- The items after the first, each with its comma. -/
def compactItems : List Json → List Char
  | [] => []
  | item :: items => ',' :: compact item ++ compactItems items

/-- The entries after the first, each with its comma. -/
def compactEntries : List (String × Json) → List Char
  | [] => []
  | (key, v) :: entries => ',' :: quote key ++ (':' :: compact v ++ compactEntries entries)
end

/-- A line feed and the blanks of an indentation level. -/
def newline (level : Nat) : List Char := '\n' :: List.replicate (2 * level) ' '

mutual
/-- The indented text of a value that stands at the given level. -/
def prettyAt (level : Nat) : Json → List Char
  | .arr (item :: items) =>
    '[' :: newline (level + 1) ++ (prettyAt (level + 1) item ++
      (prettyItems (level + 1) items ++ (newline level ++ [']'])))
  | .obj ((key, v) :: entries) =>
    '\x7b' :: newline (level + 1) ++ (quote key ++ (':' :: ' ' :: prettyAt (level + 1) v ++
      (prettyEntries (level + 1) entries ++ (newline level ++ ['\x7d']))))
  | v => scalar v

/-- The items after the first, each after its comma on a line of its own. -/
def prettyItems (level : Nat) : List Json → List Char
  | [] => []
  | item :: items => ',' :: newline level ++ (prettyAt level item ++ prettyItems level items)

/-- The entries after the first, each after its comma on a line of its own. -/
def prettyEntries (level : Nat) : List (String × Json) → List Char
  | [] => []
  | (key, v) :: entries =>
    ',' :: newline level ++ (quote key ++ (':' :: ' ' :: prettyAt level v ++
      prettyEntries level entries))
end

/-- The indented text of a value. -/
def pretty (v : Json) : List Char := prettyAt 0 v

/-- The text of a value without blanks, as a string. -/
def toCompact (v : Json) : String := String.ofList v.compact

/-- The indented text of a value, as a string. -/
def toPretty (v : Json) : String := String.ofList v.pretty

end NamedTree.Json
