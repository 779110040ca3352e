import NamedTree.Document
import NamedTree.Failure
import NamedTree.Text.Terminal

/-! # The log

What a run reports on the side: the diagnostics of conversions, the documents that were skipped and
those that failed. An entry is written with its level, its origin, its message and its fields. The
message is made harmless to a terminal first; it may hold line breaks, and the `headline` of an
entry is the line that begins it. -/

namespace NamedTree

/-- One report of a run. -/
inductive LogEntry where
  | diagnostic (d : Diagnostic)
  | skipped (skip : Skip) (file : String)
  | failed (document : Path) (failure : Failure)

namespace LogEntry

/-- How serious a report is. -/
def level : LogEntry → Level
  | .diagnostic d => d.level
  | .skipped .. => .warn
  | .failed .. => .error

/-- The text of a report without its fields. -/
def message : LogEntry → String
  | .diagnostic d => d.message
  | .skipped skip _ => skip.message
  | .failed .. => "conversion failed"

/-- The part of the program that a report comes from. -/
def origin : LogEntry → String
  | .diagnostic _ => "ruby_ast_json::diagnostics"
  | .skipped .. => "ruby_ast_json::document"
  | .failed .. => "ruby_ast_json::cli"

/-- The fields of a report as they follow its message. -/
def fields : LogEntry → String
  | .diagnostic _ => ""
  | .skipped _ file => " file=" ++ Text.quoted file
  | .failed document failure =>
    " document=" ++ document.toText ++ " error=" ++ failure.message

/-- The word for a level in the log. -/
def levelWord : Level → String
  | .debug => "DEBUG"
  | .info => "INFO"
  | .warn => "WARN"
  | .error => "ERROR"

/-- A report as it is written to the log. -/
def written (entry : LogEntry) : String :=
  levelWord entry.level ++ " " ++ entry.origin ++ ": " ++ Text.tamed entry.message ++ entry.fields

/-- The first line of a report. -/
def headline (entry : LogEntry) : String := Text.firstLine entry.written

end LogEntry

/-- The reports of converting a document. -/
def Conversion.log (conversion : Conversion) (document : Document) : List LogEntry :=
  conversion.diagnostics.map .diagnostic ++
    match conversion.skipped with
    | none => []
    | some skip => [.skipped skip document.fileName]

end NamedTree
