import NamedTree.Json.Printer
import NamedTree.Text.Position
import NamedTree.Text.Quoted

/-! # Faults of JSON texts

A text that cannot be read has a `Fault`: its cause and the place where reading stopped. The place
is kept as the text that was left, plus the number of bytes of it that reading had already looked
at, and becomes a line and a column once the whole text is at hand. -/

namespace NamedTree.Json

/-- What stood where something else was expected. -/
inductive Found where
  | value (v : Json)
  | sequence
  | map

/-- What was expected instead. -/
inductive Expected where
  | text
  | document
deriving DecidableEq

/-- Why a text cannot be read. -/
inductive Cause where
  | eofValue
  | eofString
  | eofList
  | eofObject
  | expectedIdent
  | expectedValue
  | expectedColon
  | expectedListEnd
  | expectedObjectEnd
  | keyMustBeString
  | invalidNumber
  | numberOutOfRange
  | controlCharacter
  | invalidEscape
  | loneSurrogate
  | unexpectedEndOfHexEscape
  | trailingComma
  | trailingCharacters
  | recursionLimit
  | invalidType (found : Found) (expected : Expected)
  | missingField (name : String)
  | duplicateField (name : String)
  | tooShort
  | noTree

/-- A value named with its sort. -/
def Found.describe : Found → String
  | .value .null => "null"
  | .value (.bool b) => "boolean `" ++ (if b then "true" else "false") ++ "`"
  | .value (.int n) => "integer `" ++ String.ofList (Decimal.integer n.val) ++ "`"
  | .value (.float x) => "floating point `" ++ String.ofList (floatStyle.write x) ++ "`"
  | .value (.str s) => "string " ++ Text.quoted s
  | .value (.arr _) => "sequence"
  | .value (.obj _) => "map"
  | .sequence => "sequence"
  | .map => "map"

/-- The words for what was expected. -/
def Expected.describe : Expected → String
  | .text => "a string"
  | .document => "struct TreeDocument"

/-- The words for a cause. -/
def Cause.message : Cause → String
  | .eofValue => "EOF while parsing a value"
  | .eofString => "EOF while parsing a string"
  | .eofList => "EOF while parsing a list"
  | .eofObject => "EOF while parsing an object"
  | .expectedIdent => "expected ident"
  | .expectedValue => "expected value"
  | .expectedColon => "expected `:`"
  | .expectedListEnd => "expected `,` or `]`"
  | .expectedObjectEnd => "expected `,` or `\x7d`"
  | .keyMustBeString => "key must be a string"
  | .invalidNumber => "invalid number"
  | .numberOutOfRange => "number out of range"
  | .controlCharacter => "control character (\\u0000-\\u001F) found while parsing a string"
  | .invalidEscape => "invalid escape"
  | .loneSurrogate => "lone leading surrogate in hex escape"
  | .unexpectedEndOfHexEscape => "unexpected end of hex escape"
  | .trailingComma => "trailing comma"
  | .trailingCharacters => "trailing characters"
  | .recursionLimit => "recursion limit exceeded"
  | .invalidType found expected =>
    "invalid type: " ++ found.describe ++ ", expected " ++ expected.describe
  | .missingField name => "missing field `" ++ name ++ "`"
  | .duplicateField name => "duplicate field `" ++ name ++ "`"
  | .tooShort => "invalid length 1, expected struct TreeDocument with 3 elements"
  | .noTree => "data did not match any variant of untagged enum Child"

/-- A cause, the text that was left when it arose, and the bytes of it already looked at. -/
structure Fault where
  cause : Cause
  rest : List Char
  ahead : Nat := 1

namespace Fault

/-- The number of bytes of the text up to the fault. -/
def offset (fault : Fault) (text : List Char) : Nat :=
  let length := Text.byteLength text
  min length (length - Text.byteLength fault.rest + fault.ahead)

/-- The line and column of the fault in the text. -/
def position (fault : Fault) (text : List Char) : Text.Position :=
  Text.Position.after text (fault.offset text)

/-- The cause with its line and column. -/
def message (fault : Fault) (text : List Char) : String :=
  let p := fault.position text
  fault.cause.message ++ " at line " ++ toString p.line ++ " column " ++ toString p.column

end Fault

end NamedTree.Json
