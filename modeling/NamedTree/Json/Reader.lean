import NamedTree.Json.Numeral
import NamedTree.Json.Quoted

/-! # Reading JSON texts

`readValue` reads one value at the beginning of a text and leaves the rest. After an opening bracket
and after each item, `nextItem` and `nextKey` decide whether the container closes or goes on. The
nesting may be bounded by a number of levels (`room`); without one it is as deep as the text.

The recursion is bounded by a number of steps, and `steps cs` of them are always enough for the text
`cs`: each call either reads a character or hands over to one that does. -/

namespace NamedTree.Json

/-- The blanks between the parts of a text. -/
def isBlank (c : Char) : Bool := c = ' ' || c = '\n' || c = '\t' || c = '\r'

/-- The text without the blanks at its beginning. -/
def skipBlanks (cs : List Char) : List Char := cs.dropWhile isBlank

/-- Passes over the given letters. -/
def readWord : List Char → List Char → Except Fault (List Char)
  | [], cs => .ok cs
  | _ :: _, [] => .error ⟨.eofValue, [], 0⟩
  | w :: ws, c :: cs => if c = w then readWord ws cs else .error ⟨.expectedIdent, c :: cs, 1⟩

/-- What follows inside a container: its end, or one more item. Both hold the text from there on. -/
inductive Next where
  | close (rest : List Char)
  | item (rest : List Char)

/-- What follows in a list, before the first item or after another one. -/
def nextItem (first : Bool) (cs : List Char) : Except Fault Next :=
  match skipBlanks cs with
  | [] => .error ⟨.eofList, [], 1⟩
  | c :: rest =>
    if c = ']' then .ok (.close rest)
    else if first then .ok (.item (c :: rest))
    else if c = ',' then
      match skipBlanks rest with
      | [] => .error ⟨.eofValue, [], 1⟩
      | d :: rest => if d = ']' then .error ⟨.trailingComma, d :: rest, 1⟩ else .ok (.item (d :: rest))
    else .error ⟨.expectedListEnd, c :: rest, 1⟩

/-- What follows in an object, before the first entry or after another one. An item begins after
the opening quotation mark of its key. -/
def nextKey (first : Bool) (cs : List Char) : Except Fault Next :=
  match skipBlanks cs with
  | [] => .error ⟨.eofObject, [], 1⟩
  | c :: rest =>
    if c = '\x7d' then .ok (.close rest)
    else if first then
      if c = '"' then .ok (.item rest) else .error ⟨.keyMustBeString, c :: rest, 1⟩
    else if c = ',' then
      match skipBlanks rest with
      | [] => .error ⟨.eofValue, [], 1⟩
      | d :: rest =>
        if d = '"' then .ok (.item rest)
        else if d = '\x7d' then .error ⟨.trailingComma, d :: rest, 1⟩
        else .error ⟨.keyMustBeString, d :: rest, 1⟩
    else .error ⟨.expectedObjectEnd, c :: rest, 1⟩

/-- Passes over the colon after a key. -/
def readColon (cs : List Char) : Except Fault (List Char) :=
  match skipBlanks cs with
  | [] => .error ⟨.eofObject, [], 1⟩
  | c :: rest => if c = ':' then .ok rest else .error ⟨.expectedColon, c :: rest, 1⟩

/-- Reads a value that is no container, from its first character on. -/
def readLeaf : List Char → Except Fault (Json × List Char)
  | [] => .error ⟨.eofValue, [], 1⟩
  | c :: rest =>
    if c = 'n' then (readWord "ull".toList rest).map fun rest => (.null, rest)
    else if c = 't' then (readWord "rue".toList rest).map fun rest => (.bool true, rest)
    else if c = 'f' then (readWord "alse".toList rest).map fun rest => (.bool false, rest)
    else if c = '-' then readNumber true rest
    else if c.isDigit then readNumber false (c :: rest)
    else if c = '"' then (readString rest).map fun (s, rest) => (.str s, rest)
    else .error ⟨.expectedValue, c :: rest, 1⟩

/-- One level less of the nesting that is left, if there is one. -/
def deeper : Option Nat → Option (Option Nat)
  | none => some none
  | some 0 => none
  | some (n + 1) => some (some n)

mutual
/-- Reads a value. -/
def readValue (room : Option Nat) : Nat → List Char → Except Fault (Json × List Char)
  | 0, cs => .error ⟨.eofValue, cs, 0⟩
  | fuel + 1, cs =>
    match skipBlanks cs with
    | [] => .error ⟨.eofValue, [], 1⟩
    | c :: rest =>
      if c = '[' then
        match deeper room with
        | none => .error ⟨.recursionLimit, c :: rest, 1⟩
        | some room => readItems room fuel true [] rest
      else if c = '\x7b' then
        match deeper room with
        | none => .error ⟨.recursionLimit, c :: rest, 1⟩
        | some room => readEntries room fuel true [] rest
      else readLeaf (c :: rest)

/-- Reads the items of a list to its end, after those in `acc`, which is reversed. -/
def readItems (room : Option Nat) :
    Nat → Bool → List Json → List Char → Except Fault (Json × List Char)
  | 0, _, _, cs => .error ⟨.eofList, cs, 0⟩
  | fuel + 1, first, acc, cs =>
    match nextItem first cs with
    | .error fault => .error fault
    | .ok (.close rest) => .ok (.arr acc.reverse, rest)
    | .ok (.item rest) =>
      match readValue room fuel rest with
      | .error fault => .error fault
      | .ok (v, rest) => readItems room fuel false (v :: acc) rest

/-- Reads the entries of an object to its end, after those in `acc`, which is reversed. -/
def readEntries (room : Option Nat) :
    Nat → Bool → List (String × Json) → List Char → Except Fault (Json × List Char)
  | 0, _, _, cs => .error ⟨.eofObject, cs, 0⟩
  | fuel + 1, first, acc, cs =>
    match nextKey first cs with
    | .error fault => .error fault
    | .ok (.close rest) => .ok (.obj acc.reverse, rest)
    | .ok (.item rest) =>
      match readString rest with
      | .error fault => .error fault
      | .ok (key, rest) =>
        match readColon rest with
        | .error fault => .error fault
        | .ok rest =>
          match readValue room fuel rest with
          | .error fault => .error fault
          | .ok (v, rest) => readEntries room fuel false ((key, v) :: acc) rest
end

/-- Steps that are enough to read any value at the beginning of a text. -/
def steps (cs : List Char) : Nat := 2 * cs.length + 2

/-- Nothing but blanks may be left at the end. -/
def finish (cs : List Char) : Except Fault Unit :=
  match skipBlanks cs with
  | [] => .ok ()
  | rest => .error ⟨.trailingCharacters, rest, 1⟩

/-- Reads a whole text as one value, within the given nesting. -/
def readText (room : Option Nat) (cs : List Char) : Except Fault Json := do
  let (v, rest) ← readValue room (steps cs) cs
  finish rest
  return v

/-- Reads a whole text as one value of any nesting. -/
def read (text : String) : Except Fault Json := readText none text.toList

end NamedTree.Json
