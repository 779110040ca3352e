import NamedTree.Decimal.Text
import NamedTree.Json
import NamedTree.Yaml.Scalar

/-! # YAML text

`Yaml.write` writes a value in block style: an entry a line, the entries of a nested object two
columns further in, the items of a list after dashes that stand below the key they belong to. The
first item or entry of what stands in a list follows its dash on the same line. -/

namespace NamedTree.Yaml

/-- How YAML writes doubles: `1e16`. -/
def floatStyle : Decimal.FloatStyle := ⟨false⟩

/-- A value on the rest of a line, with the line feed. Lists and objects count as empty here. -/
def scalarLine (indent : Nat) : Json → List Char
  | .null => "null\n".toList
  | .bool true => "true\n".toList
  | .bool false => "false\n".toList
  | .int n => Decimal.integer n.val ++ ['\n']
  | .float x => floatStyle.write x ++ ['\n']
  | .str s => stringLine indent s.toList
  | .arr _ => "[]\n".toList
  | .obj _ => "\x7b\x7d\n".toList

mutual
/-- What follows the colon of a key that stands at the given column. -/
def afterKey (column : Nat) : Json → List Char
  | .arr (item :: items) => '\n' :: itemLines column (item :: items)
  | .obj (entry :: entries) => '\n' :: entryLines (column + 2) (entry :: entries)
  | v => ' ' :: scalarLine (column + 2) v

/-- What follows a dash that stands at the given column. -/
def afterDash (column : Nat) : Json → List Char
  | .arr (item :: items) =>
    ' ' :: '-' :: afterDash (column + 2) item ++ itemLines (column + 2) items
  | .obj ((key, v) :: entries) =>
    ' ' :: keyText key.toList ++
      (':' :: afterKey (column + 2) v ++ entryLines (column + 2) entries)
  | v => ' ' :: scalarLine (column + 2) v

/-- Items on lines of their own, with their dashes at the given column. -/
def itemLines (column : Nat) : List Json → List Char
  | [] => []
  | item :: items => indentation column ++ ('-' :: afterDash column item ++ itemLines column items)

/-- Entries on lines of their own, with their keys at the given column. -/
def entryLines (column : Nat) : List (String × Json) → List Char
  | [] => []
  | (key, v) :: entries =>
    indentation column ++ (keyText key.toList ++ (':' :: afterKey column v ++
      entryLines column entries))
end

/-- The text of a value. -/
def write : Json → List Char
  | .arr (item :: items) => itemLines 0 (item :: items)
  | .obj (entry :: entries) => entryLines 0 (entry :: entries)
  | v => scalarLine 0 v

end NamedTree.Yaml
