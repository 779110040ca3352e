/-! # Diagnostics

A conversion never fails; what it degrades it reports as a list of diagnostics, in the order in
which they arise. A `Sink` is a destination for them: it keeps them, hands them to the log, or
drops them. -/

namespace NamedTree

/-- How serious a diagnostic is. -/
inductive Level where
  | debug
  | info
  | warn
  | error
deriving DecidableEq

/-- The word for a level. -/
def Level.label : Level → String
  | .debug => "debug"
  | .info => "info"
  | .warn => "warn"
  | .error => "error"

/-- The level that a word names. -/
def Level.ofLabel? (label : String) : Option Level :=
  [Level.debug, .info, .warn, .error].find? (·.label == label)

/-- A report of something that a conversion could not keep. -/
structure Diagnostic where
  level : Level
  message : String
deriving DecidableEq

/-- What becomes of the diagnostics of a conversion. -/
inductive Sink.Mode where
  | collecting
  | logging
  | discarding
deriving DecidableEq

/-- A destination of diagnostics with what it has kept and what it has logged so far. -/
structure Sink where
  mode : Sink.Mode
  entries : List Diagnostic := []
  logged : List Diagnostic := []

namespace Sink

/-- Hands one diagnostic to the sink. -/
def emit (sink : Sink) (diagnostic : Diagnostic) : Sink :=
  match sink.mode with
  | .collecting => { sink with entries := sink.entries ++ [diagnostic] }
  | .logging => { sink with logged := sink.logged ++ [diagnostic] }
  | .discarding => sink

/-- Hands a list of diagnostics to the sink, in order. -/
def emitAll (sink : Sink) (diagnostics : List Diagnostic) : Sink :=
  diagnostics.foldl emit sink

/-- The texts of the kept diagnostics of one level. -/
def messages (sink : Sink) (level : Level) : List String :=
  (sink.entries.filter (·.level = level)).map Diagnostic.message

end Sink

end NamedTree
