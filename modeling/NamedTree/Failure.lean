import NamedTree.Json.Fault
import NamedTree.Path

/-! # Failures

Everything that can go wrong around a conversion: reading, decoding, encoding and writing documents,
and walking directories. A failure has a message, a code that names its family, and sometimes a hint;
one of decoding also points into the text. -/

namespace NamedTree

/-- What can go wrong around a conversion. -/
inductive Failure where
  | read (path : Path)
  | write (path : Path)
  | decode (path : Path) (text : String) (fault : Json.Fault)
  | encodeJson
  | encodeYaml
  | batch (failed total : Nat)
  | walk (root : Path)

namespace Failure

/-- The words for a failure. -/
def message : Failure → String
  | .read path => "failed to read " ++ path.toText
  | .write path => "failed to write " ++ path.toText
  | .decode _ text fault => "malformed tree document: " ++ fault.message text.toList
  | .encodeJson => "failed to encode output as JSON"
  | .encodeYaml => "failed to encode output as YAML"
  | .batch failed total =>
    toString failed ++ " of " ++ toString total ++ " documents failed to convert"
  | .walk root => "failed to walk " ++ root.toText

/-- The code of a failure's family. -/
def code : Failure → String
  | .read _ => "ruby_ast_json::io"
  | .write _ => "ruby_ast_json::io"
  | .decode .. => "ruby_ast_json::decode"
  | .encodeJson => "ruby_ast_json::encode"
  | .encodeYaml => "ruby_ast_json::encode"
  | .batch .. => "ruby_ast_json::batch"
  | .walk _ => "ruby_ast_json::discovery"

/-- A hint on what to do about a failure. -/
def help : Failure → Option String
  | .write _ => some "check that the output directory exists and is writable"
  | .decode .. => some "a tree document is a JSON object with `source` and `tree` keys"
  | .batch .. => some "the failing documents are logged above; the others were written"
  | _ => none

/-- The character of the text that a failure of decoding points at. -/
def label : Failure → Option Text.Span
  | .decode _ text fault => some (Text.Span.at (fault.position text.toList) text.toList)
  | _ => none

/-- The document that a failure of decoding points into. -/
def sourceName : Failure → Option String
  | .decode path .. => some path.toText
  | _ => none

end Failure

end NamedTree
