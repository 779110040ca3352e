import NamedTree.Document
import NamedTree.Json.Skip

/-! # Reading tree documents

A document is read straight from its text: the values of unknown keys are passed over, and only the
tree is held as a JSON value before it is decoded. The text is an object with the keys `file_path`,
`source` and `tree` in any order, each at most once, or a list of these parts in order. `source` is
required.

Some faults say something about the document as a whole: a missing or repeated part, or a tree that
does not decode. They are placed after the text that a reader would still accept as the end of the
document (`closeObject`, `closeList`). -/

namespace NamedTree.Document

open Json

/-- The text after the end of an object, if it ends here. -/
def closeObject (cs : List Char) : List Char :=
  match skipBlanks cs with
  | [] => []
  | c :: rest => if c = '\x7d' then rest else c :: rest

/-- The text after the end of a list, if it ends here, or after a comma. -/
def closeList (cs : List Char) : List Char :=
  match skipBlanks cs with
  | [] => []
  | c :: rest => if c = ']' then rest else if c = ',' then skipBlanks rest else c :: rest

/-- The fault of a value that is not of the expected sort, from its first character on. -/
def mismatch (expected : Expected) (cs : List Char) : Fault :=
  match cs.head? with
  | some '[' => ⟨.invalidType .sequence expected, cs, 0⟩
  | some '\x7b' => ⟨.invalidType .map expected, cs, 0⟩
  | _ =>
    match readLeaf cs with
    | .ok (v, rest) => ⟨.invalidType (.value v) expected, rest, 0⟩
    | .error fault => fault

/-- A string. -/
def readSource (cs : List Char) : Except Fault (String × List Char) :=
  match skipBlanks cs with
  | '"' :: rest => readString rest
  | rest => .error (mismatch .text rest)

/-- Null or a string. -/
def readFilePath (cs : List Char) : Except Fault (Option String × List Char) :=
  match skipBlanks cs with
  | 'n' :: rest => (readWord "ull".toList rest).map fun rest => (none, rest)
  | rest => (readSource rest).map fun (s, rest) => (some s, rest)

/-- Null or a tree. A value that is no tree is a fault of the document, which `close` places. -/
def readTree (close : List Char → List Char) (cs : List Char) :
    Except Fault (Option Tree × List Char) :=
  match skipBlanks cs with
  | 'n' :: rest => (readWord "ull".toList rest).map fun rest => (none, rest)
  | rest =>
    match readValue none (steps rest) rest with
    | .error fault => .error fault
    | .ok (v, rest) =>
      match Tree.ofJson? v with
      | some tree => .ok (some tree, rest)
      | none => .error ⟨.noTree, close rest, 0⟩

/-- The parts of a document that have been read; `none` is a part that has not been seen. -/
structure Parts where
  filePath : Option (Option String) := none
  source : Option String := none
  tree : Option (Option Tree) := none

/-- The fault of a known key that comes a second time. -/
def duplicate (name : String) (rest : List Char) : Fault :=
  ⟨.duplicateField name, closeObject rest, 0⟩

/-- Reads the value of an entry, from after its key on. -/
def readPart (parts : Parts) (key : String) (cs : List Char) : Except Fault (Parts × List Char) :=
  if key = "file_path" then
    if parts.filePath.isSome then .error (duplicate key cs)
    else do
      let rest ← readColon cs
      let (filePath, rest) ← readFilePath rest
      return ({ parts with filePath := some filePath }, rest)
  else if key = "source" then
    if parts.source.isSome then .error (duplicate key cs)
    else do
      let rest ← readColon cs
      let (source, rest) ← readSource rest
      return ({ parts with source := some source }, rest)
  else if key = "tree" then
    if parts.tree.isSome then .error (duplicate key cs)
    else do
      let rest ← readColon cs
      let (tree, rest) ← readTree closeObject rest
      return ({ parts with tree := some tree }, rest)
  else do
    let rest ← readColon cs
    let rest ← skipValue (steps rest) rest
    return (parts, rest)

/-- Reads the entries of a document to the end of the object. -/
def readParts : Nat → Bool → Parts → List Char → Except Fault (Document × List Char)
  | 0, _, _, cs => .error ⟨.eofObject, cs, 0⟩
  | fuel + 1, first, parts, cs => do
    match ← nextKey first cs with
    | .close rest =>
      match parts.source with
      | some source => return (⟨parts.filePath.join, source, parts.tree.join⟩, rest)
      | none => throw ⟨.missingField "source", rest, 0⟩
    | .item rest =>
      let (key, rest) ← readString rest
      let (parts, rest) ← readPart parts key rest
      readParts fuel false parts rest

/-- The end of a document that is a list of three parts. -/
def readListEnd (cs : List Char) : Except Fault (List Char) :=
  match skipBlanks cs with
  | [] => .error ⟨.eofList, [], 1⟩
  | c :: rest =>
    if c = ']' then .ok rest
    else if c = ',' then
      match skipBlanks rest with
      | ']' :: rest => .error ⟨.trailingComma, ']' :: rest, 1⟩
      | rest => .error ⟨.trailingCharacters, rest, 1⟩
    else .error ⟨.trailingCharacters, c :: rest, 1⟩

/-- Reads the parts of a document in order to the end of the list. -/
def readList (cs : List Char) : Except Fault (Document × List Char) := do
  match ← nextItem true cs with
  | .close rest => throw ⟨.tooShort, rest, 0⟩
  | .item rest =>
    let (filePath, rest) ← readFilePath rest
    match ← nextItem false rest with
    | .close rest => throw ⟨.tooShort, rest, 0⟩
    | .item rest =>
      let (source, rest) ← readSource rest
      match ← nextItem false rest with
      | .close rest => return (⟨filePath, source, none⟩, rest)
      | .item rest =>
        let (tree, rest) ← readTree closeList rest
        let rest ← readListEnd rest
        return (⟨filePath, source, tree⟩, rest)

/-- Reads a document at the beginning of a text. -/
def readFrom (cs : List Char) : Except Fault (Document × List Char) :=
  match skipBlanks cs with
  | '\x7b' :: rest => readParts (rest.length + 1) true {} rest
  | '[' :: rest => readList rest
  | rest => .error (mismatch .document rest)

/-- Reads a whole text as one document. -/
def read (text : String) : Except Fault Document := do
  let (document, rest) ← readFrom text.toList
  finish rest
  return document

end NamedTree.Document
