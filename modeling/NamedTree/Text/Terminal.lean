import NamedTree.Text.Quoted

/-! # Text for a terminal

Text that goes to a terminal must not steer it. The controls that begin or make up a control
sequence are given by their codes in hexadecimal: bell, backspace, form feed, escape and delete by
two digits, and the controls U+0080 to U+009F by their code points. All other characters stand as
they are, tabs and line breaks among them, so a text may still take several lines; `firstLine` is
the first of these. -/

namespace NamedTree.Text

/-- The controls of ASCII that a terminal takes as commands. -/
def isCommand (c : Char) : Bool :=
  c = '\x07' || c = '\x08' || c = '\x0C' || c = '\x1B' || c = '\x7F'

/-- A character as it is sent to a terminal. -/
def tameChar (c : Char) : List Char :=
  if isCommand c then ['\\', 'x'] ++ (if c.toNat < 16 then ['0'] else []) ++ hexDigits c.toNat
  else if 0x80 ≤ c.toNat && c.toNat ≤ 0x9F then ['\\', 'u', '\x7b'] ++ hexDigits c.toNat ++ ['\x7d']
  else [c]

/-- A text as it is sent to a terminal. -/
def tamed (s : String) : String := String.ofList (s.toList.flatMap tameChar)

/-- The first line of a text, without its end: a line feed, with a carriage return before it or
not. The end of the text ends a line too. -/
def firstLine (s : String) : String :=
  let line := s.toList.takeWhile (· ≠ '\n')
  String.ofList (if line.getLast? = some '\r' then line.dropLast else line)

end NamedTree.Text
