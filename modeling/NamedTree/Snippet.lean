import NamedTree.Text.Bytes
import NamedTree.Tree

/-! # Snippets

The snippet of a node is the piece of source it stands for, on one line: the bytes of its range,
with blanks and NULs removed from the end, and every run of blanks between words made one space.
Only the six ASCII spaces are blanks; other spaces are part of a word. -/

namespace NamedTree.Snippet

/-- The ASCII spaces: space, tab, line feed, vertical tab, form feed, carriage return. -/
def isBlank (c : Char) : Bool :=
  c = ' ' || c = '\t' || c = '\n' || c = '\x0B' || c = '\x0C' || c = '\r'

/-- The text without the blanks and NULs at its end. -/
def trimEnd (cs : List Char) : List Char :=
  (cs.reverse.dropWhile fun c => c = '\x00' || isBlank c).reverse

/-- The words of a text, which are its maximal runs of characters that are not blank. -/
def words (cs : List Char) : List (List Char) :=
  (cs.splitOnP isBlank).filter fun word => !word.isEmpty

/-- The words of a text joined by single spaces, blanks and NULs at its end left out. -/
def normalize (cs : List Char) : List Char :=
  List.intercalate [' '] (words (trimEnd cs))

/-- `normalize` on strings. -/
def trim (text : String) : String := String.ofList (normalize text.toList)

/-- The snippet of a range of the source, if the range lies in it between characters. -/
def ofRange (source : String) (range : Range) : Option String :=
  (Text.slice range.first.toNat range.last.toNat source.toList).map fun cs =>
    String.ofList (normalize cs)

/-- The snippet of the node at a location. -/
def extract (source : String) (location : Option Location) : Option String :=
  (Location.range? location).bind (ofRange source)

end NamedTree.Snippet
