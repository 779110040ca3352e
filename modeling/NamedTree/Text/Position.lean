import NamedTree.Text.Bytes

/-! # Lines and columns

`Position.after text i` is the line and column reached after `i` bytes of a text: lines count from
one, and the column is the number of bytes since the last line feed. `seek` goes the other way, but
it counts one column for each character: it is exact on lines of ASCII characters and ends at or
after the wanted place on others. -/

namespace NamedTree.Text

/-- A place in a text: the line from one, the column in bytes since the line began. -/
structure Position where
  line : Nat
  column : Nat
deriving DecidableEq

namespace Position

/-- The position reached from `p` by `n` more bytes of the text; a character may be entered partly. -/
def advance (p : Position) : Nat → List Char → Position
  | 0, _ => p
  | _ + 1, [] => p
  | n + 1, c :: cs =>
    if c = '\n' then advance ⟨p.line + 1, 0⟩ n cs
    else if c.utf8Size ≤ n + 1 then advance ⟨p.line, p.column + c.utf8Size⟩ (n + 1 - c.utf8Size) cs
    else ⟨p.line, p.column + (n + 1)⟩

/-- The position after `n` bytes of a text. -/
def after (cs : List Char) (n : Nat) : Position := advance ⟨1, 0⟩ n cs

/-- Skips characters, each one column wide, until the target line and column are reached, where
`p` is the position of the first character, both numbers counted from zero. -/
def seekFrom (target p : Position) : List Char → List Char
  | [] => []
  | c :: cs =>
    if target.line ≤ p.line + 1 ∧ target.column ≤ p.column + 1 then c :: cs
    else seekFrom target (if c = '\n' then ⟨p.line + 1, 0⟩ else ⟨p.line, p.column + 1⟩) cs

/-- What remains of a text from a line and column on, both counted from one. -/
def seek (target : Position) (cs : List Char) : List Char := seekFrom target ⟨0, 0⟩ cs

end Position

/-- A stretch of text by byte offset and length. -/
structure Span where
  offset : Nat
  length : Nat
deriving DecidableEq

/-- The one character at a line and column, or the empty span at the end of the text. -/
def Span.at (target : Position) (cs : List Char) : Span :=
  let rest := Position.seek target cs
  ⟨byteLength cs - byteLength rest, (rest.head?.map Char.utf8Size).getD 0⟩

end NamedTree.Text
