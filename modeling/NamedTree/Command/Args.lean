import NamedTree.Path
import NamedTree.Render

/-! # The command line

`Command.parse` turns the words of a command line into a command. Options and the positional argument
may come in any order; `--` ends the options. An option may be written `--name value`, `--name=value`,
`-n value`, `-nvalue` or `-n=value`.

A word is checked only when the next one shows that it is complete: a value that stands on its own is
kept as `pending` and accepted before the next option or argument. So a fault of a pending value gives
way to an unknown option right after it. -/

namespace NamedTree

/-- What the program is asked to do. -/
inductive Command where
  | convert (document : Path) (output : Option Path) (settings : Settings)
  | batch (dir outDir : Path) (settings : Settings)
  | kinds

namespace Command

/-- Why a command line gives no command. -/
inductive Refusal where
  | helpRequested
  | versionRequested
  | nothingAsked
  | unknownCommand
  | unknownArgument
  | missingArgument
  | invalidValue
  | malformedNumber
  | repeatedOption
  | needlessValue
deriving DecidableEq

/-- The exit code of a command line that gives no command. -/
def Refusal.exitCode : Refusal → Nat
  | .helpRequested => 0
  | .versionRequested => 0
  | _ => 2

/-- The arguments that take a value. -/
inductive Key where
  | target
  | destination
  | format
  | maxDepth
deriving DecidableEq

/-- What an option does. -/
inductive Action where
  | value (key : Key)
  | pretty
  | help

/-- The options of a command, long and short, and whether it has a positional argument. -/
structure Grammar where
  long : List (String × Action)
  short : List (Char × Action)
  positional : Bool

/-- The options on how to render results. -/
def renderOptions : List (String × Action) :=
  [("format", .value .format), ("pretty", .pretty), ("max-depth", .value .maxDepth), ("help", .help)]

/-- The options of `convert`. -/
def convertGrammar : Grammar :=
  ⟨("output", .value .destination) :: renderOptions, [('o', .value .destination), ('h', .help)], true⟩

/-- The options of `batch`. -/
def batchGrammar : Grammar :=
  ⟨("out-dir", .value .destination) :: renderOptions, [('h', .help)], true⟩

/-- The options of `kinds`. -/
def kindsGrammar : Grammar := ⟨[("help", .help)], [('h', .help)], false⟩

/-- The arguments that have been accepted. -/
structure Given where
  target : Option String := none
  destination : Option String := none
  format : Option Format := none
  pretty : Bool := false
  maxDepth : Option UInt64 := none

/-- A number of 64 bits: decimal digits after at most one plus sign. -/
def number? (text : String) : Option UInt64 :=
  let ds := match text.toList with
    | '+' :: cs => cs
    | cs => cs
  if ds.isEmpty || !ds.all Char.isDigit then none
  else if Decimal.value ds < 0x10000000000000000 then some (UInt64.ofNat (Decimal.value ds)) else none

/-- Accepts the value of an argument, once. A value that never came is refused first. -/
def Given.accept (given : Given) (key : Key) (value : Option String) : Except Refusal Given :=
  match value with
  | none => .error .invalidValue
  | some value =>
    match key with
    | .target =>
      if value.isEmpty then .error .invalidValue else .ok { given with target := some value }
    | .destination =>
      if given.destination.isSome then .error .repeatedOption
      else if value.isEmpty then .error .invalidValue
      else .ok { given with destination := some value }
    | .format =>
      if given.format.isSome then .error .repeatedOption
      else
        match Format.ofName? value with
        | some format => .ok { given with format := some format }
        | none => .error .invalidValue
    | .maxDepth =>
      if given.maxDepth.isSome then .error .repeatedOption
      else
        match number? value with
        | some depth => .ok { given with maxDepth := some depth }
        | none => .error .malformedNumber

/-- The state between two words: what has been accepted, the argument whose value is pending,
whether the positional argument has come, and whether the options have ended. -/
structure Progress where
  given : Given := {}
  pending : Option (Key × Option String) := none
  placed : Bool := false
  optionsEnded : Bool := false

namespace Progress

/-- Accepts the pending argument. -/
def settle (p : Progress) : Except Refusal Progress :=
  match p.pending with
  | none => .ok p
  | some (key, value) => do
    let given ← p.given.accept key value
    return { p with given := given, pending := none }

/-- Takes an option, with the value attached to it if there is one. -/
def takeOption (p : Progress) (action : Action) (attached : Option String) :
    Except Refusal Progress :=
  match action, attached with
  | .help, some _ => .error .needlessValue
  | .pretty, some _ => .error .needlessValue
  | .help, none => do
    let _ ← p.settle
    throw .helpRequested
  | .pretty, none => do
    let p ← p.settle
    if p.given.pretty then throw .repeatedOption
    return { p with given := { p.given with pretty := true } }
  | .value key, some value => do
    let p ← p.settle
    let given ← p.given.accept key (some value)
    return { p with given := given }
  | .value key, none => do
    let p ← p.settle
    return { p with pending := some (key, none) }

/-- Takes the positional argument. -/
def takePositional (p : Progress) (grammar : Grammar) (word : String) : Except Refusal Progress :=
  if p.placed || !grammar.positional then .error .unknownArgument
  else do
    let p ← p.settle
    return { p with pending := some (.target, some word), placed := true }

/-- Takes a word that is neither an option nor the end of the options: the value of the option
before it, or the positional argument. -/
def takeWord (p : Progress) (grammar : Grammar) (word : String) : Except Refusal Progress :=
  match p.pending with
  | some (key, none) => .ok { p with pending := some (key, some word) }
  | _ => p.takePositional grammar word

/-- The name of a long option and the value after its equals sign. -/
def splitLong (cs : List Char) : String × Option String :=
  let name := String.ofList (cs.takeWhile (· ≠ '='))
  match cs.dropWhile (· ≠ '=') with
  | [] => (name, none)
  | _ :: value => (name, some (String.ofList value))

/-- Takes a short option from its letter on; what follows the letter is its value. -/
def takeShort (p : Progress) (grammar : Grammar) (letter : Char) (rest : List Char) :
    Except Refusal Progress :=
  match grammar.short.lookup letter with
  | none => .error .unknownArgument
  | some (.value key) =>
    let attached := match rest with
      | [] => none
      | '=' :: value => some (String.ofList value)
      | value => some (String.ofList value)
    p.takeOption (.value key) attached
  | some action => p.takeOption action none

/-- Takes one word. -/
def step (grammar : Grammar) (p : Progress) (word : String) : Except Refusal Progress :=
  if p.optionsEnded then p.takePositional grammar word
  else
    match word.toList with
    | ['-', '-'] => .ok { p with optionsEnded := true }
    | '-' :: '-' :: cs =>
      let (name, attached) := splitLong cs
      match grammar.long.lookup name with
      | none => .error .unknownArgument
      | some action => p.takeOption action attached
    | '-' :: letter :: rest => p.takeShort grammar letter rest
    | _ => p.takeWord grammar word

end Progress

/-- The arguments that the words of a command line give. -/
def Grammar.collect (grammar : Grammar) (words : List String) : Except Refusal Given := do
  let p ← words.foldlM (Progress.step grammar) {}
  let p ← p.settle
  return p.given

/-- The settings that the arguments ask for. -/
def Given.settings (given : Given) : Settings where
  format := given.format.getD .json
  pretty := given.pretty
  maxDepth := given.maxDepth.getD 100

/-- The command `convert` with the words after it. -/
def parseConvert (words : List String) : Except Refusal Command := do
  let given ← convertGrammar.collect words
  match given.target with
  | none => throw .missingArgument
  | some document =>
    return .convert (.ofText document) (given.destination.map .ofText) given.settings

/-- The command `batch` with the words after it. -/
def parseBatch (words : List String) : Except Refusal Command := do
  let given ← batchGrammar.collect words
  match given.target, given.destination with
  | some dir, some outDir => return .batch (.ofText dir) (.ofText outDir) given.settings
  | _, _ => throw .missingArgument

/-- The command `kinds` with the words after it. -/
def parseKinds (words : List String) : Except Refusal Command := do
  let _ ← kindsGrammar.collect words
  return .kinds

/-- The names of the commands. -/
def names : List String := ["convert", "batch", "kinds", "help"]

/-- The answer to a request for help on the words after it, which must name at most one command. -/
def parseHelp (words : List String) : Refusal :=
  match words with
  | [] => .helpRequested
  | [word] => if names.contains word then .helpRequested else .unknownCommand
  | _ => .unknownCommand

/-- The refusal of a word that stands in the place of a command. -/
def refuse (word : String) (rest : List String) : Refusal :=
  match word.toList with
  | ['-', '-'] =>
    match rest with
    | [] => .nothingAsked
    | next :: _ => if names.contains next then .unknownArgument else .unknownCommand
  | '-' :: '-' :: cs =>
    match Progress.splitLong cs with
    | ("help", none) => .helpRequested
    | ("version", none) => .versionRequested
    | ("help", some _) => .needlessValue
    | ("version", some _) => .needlessValue
    | _ => .unknownArgument
  | '-' :: letter :: _ =>
    if letter = 'h' then .helpRequested
    else if letter = 'V' then .versionRequested
    else .unknownArgument
  | _ => .unknownCommand

/-- The command that the words of a command line ask for. -/
def parse : List String → Except Refusal Command
  | [] => .error .nothingAsked
  | word :: rest =>
    if word = "convert" then parseConvert rest
    else if word = "batch" then parseBatch rest
    else if word = "kinds" then parseKinds rest
    else if word = "help" then .error (parseHelp rest)
    else .error (refuse word rest)

end Command

end NamedTree
