import NamedTree.Json.Printer
import NamedTree.Output.Encode
import NamedTree.Yaml.Printer

/-! # Rendering results

A result is rendered in a format chosen by the user; a missing result renders as `null`. -/

namespace NamedTree

/-- The output formats. -/
inductive Format where
  | json
  | yaml
deriving DecidableEq

/-- The name of a format, which is also the extension of its files. -/
def Format.extension : Format → String
  | .json => "json"
  | .yaml => "yaml"

/-- The format with the given name. -/
def Format.ofName? (name : String) : Option Format :=
  [Format.json, .yaml].find? (·.extension == name)

/-- How documents are converted and written. -/
structure Settings where
  format : Format := .json
  pretty : Bool := false
  maxDepth : UInt64 := 100
deriving DecidableEq

/-- The text of a result. Indentation is a matter of JSON only. -/
def Settings.render (settings : Settings) (result : Option OutputNode) : String :=
  let v := Json.ofOption OutputNode.toJson result
  String.ofList <|
    match settings.format, settings.pretty with
    | .json, false => v.compact
    | .json, true => v.pretty
    | .yaml, _ => Yaml.write v

/-- The text with a line feed at its end, one of its own or a new one. -/
def endLine (text : String) : String :=
  if text.toList.getLast? = some '\n' then text else text ++ "\n"

end NamedTree
