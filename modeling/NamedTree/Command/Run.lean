import NamedTree.Command.Args
import NamedTree.Command.Log
import NamedTree.Discovery

/-! # Running commands

A command runs on a file tree and leaves another one behind. `convert` loads one document, converts
it and writes the result to a file or to the standard output; `batch` does so for every document below
a directory, goes on after failures and then reports how many there were. -/

namespace NamedTree

/-- What a run leaves behind. -/
structure Outcome where
  tree : FileTree
  stdout : String := ""
  log : List LogEntry := []
  failure : Option Failure := none
  exitCode : Nat := 0

/-- The name and version of the program. -/
def versionLine : String := "ruby-ast-json 0.1.0\n"

namespace Command

/-- A document as it was loaded, converted and rendered. -/
structure Rendered where
  text : String
  present : Bool
  log : List LogEntry

/-- Loads, converts and renders a document. -/
def renderDocument (settings : Settings) (tree : FileTree) (path : Path) :
    Except Failure Rendered := do
  let document ← Document.load tree path
  let conversion := document.convert settings.maxDepth
  return ⟨endLine (settings.render conversion.result), conversion.result.isSome,
    conversion.log document⟩

/-- Runs `convert` on a document. -/
def runConvert (settings : Settings) (document : Path) (output : Option Path) (tree : FileTree) :
    Outcome :=
  match renderDocument settings tree document with
  | .error failure => { tree := tree, failure := some failure, exitCode := 1 }
  | .ok rendered =>
    match output with
    | none => { tree := tree, stdout := rendered.text, log := rendered.log }
    | some path =>
      match tree.write? path rendered.text.toUTF8 with
      | some tree => { tree := tree, log := rendered.log }
      | none =>
        { tree := tree, log := rendered.log, failure := some (.write path), exitCode := 1 }

/-- Writes the text of a document of a batch, making the directories above it. -/
def writeBelow (tree : FileTree) (target : Path) (text : String) : FileTree × Option Failure :=
  match target.parent? with
  | none =>
    match tree.write? target text.toUTF8 with
    | some tree => (tree, none)
    | none => (tree, some (.write target))
  | some parent =>
    match tree.createDirectories parent with
    | (tree, false) => (tree, some (.write parent))
    | (tree, true) =>
      match tree.write? target text.toUTF8 with
      | some tree => (tree, none)
      | none => (tree, some (.write target))

/-- What a batch has done so far. -/
structure Batch where
  tree : FileTree
  log : List LogEntry := []
  converted : Nat := 0
  absent : Nat := 0
  failed : Nat := 0

namespace Batch

/-- Converts one document of a batch. -/
def step (settings : Settings) (root outDir : Path) (batch : Batch) (document : Path) : Batch :=
  match renderDocument settings batch.tree document with
  | .error failure =>
    { batch with log := batch.log ++ [.failed document failure], failed := batch.failed + 1 }
  | .ok rendered =>
    let target := Discovery.outputPath root document outDir settings.format.extension
    match writeBelow batch.tree target rendered.text with
    | (tree, some failure) =>
      { batch with
        tree := tree
        log := batch.log ++ rendered.log ++ [.failed document failure]
        failed := batch.failed + 1 }
    | (tree, none) =>
      { batch with
        tree := tree
        log := batch.log ++ rendered.log
        converted := batch.converted + (if rendered.present then 1 else 0)
        absent := batch.absent + (if rendered.present then 0 else 1) }

/-- Converts documents one after the other. -/
def run (settings : Settings) (root outDir : Path) (tree : FileTree) (documents : List Path) :
    Batch :=
  documents.foldl (step settings root outDir) { tree := tree }

/-- The line that sums a batch up. -/
def summary (batch : Batch) : String :=
  "converted " ++ toString batch.converted ++ ", absent " ++ toString batch.absent ++
    ", failed " ++ toString batch.failed ++ "\n"

end Batch

/-- Runs `batch` below a directory. -/
def runBatch (settings : Settings) (dir outDir : Path) (tree : FileTree) : Outcome :=
  match Discovery.discover tree dir with
  | .error failure => { tree := tree, failure := some failure, exitCode := 1 }
  | .ok documents =>
    let batch := Batch.run settings dir outDir tree documents
    { tree := batch.tree
      stdout := batch.summary
      log := batch.log
      failure := if batch.failed = 0 then none else some (.batch batch.failed documents.length)
      exitCode := if batch.failed = 0 then 0 else 1 }

/-- The list of known kinds with their categories. -/
def kindLines : String :=
  String.join (Row.table.map fun row => row.name ++ "\t" ++ row.category.label ++ "\n")

/-- Runs a command. -/
def run (command : Command) (tree : FileTree) : Outcome :=
  match command with
  | .convert document output settings => runConvert settings document output tree
  | .batch dir outDir settings => runBatch settings dir outDir tree
  | .kinds => { tree := tree, stdout := kindLines }

/-- Runs the program on the words of its command line. -/
def runWords (words : List String) (tree : FileTree) : Outcome :=
  match parse words with
  | .ok command => command.run tree
  | .error refusal =>
    { tree := tree
      stdout := if refusal = .versionRequested then versionLine else ""
      exitCode := refusal.exitCode }

end Command

end NamedTree
