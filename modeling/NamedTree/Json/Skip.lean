import NamedTree.Json.Reader

/-! # Passing over JSON values

`skipValue` moves past a value without keeping it. It asks less of the value than reading does: a
number may be out of range and the surrogates of a string need not come in pairs. After a comma it
insists on another value or key, so that the faults of a dangling comma differ from those of
reading. -/

namespace NamedTree.Json

/-- Passes over a value that is no container, from its first character on. -/
def skipLeaf : List Char → Except Fault (List Char)
  | [] => .error ⟨.eofValue, [], 1⟩
  | c :: rest =>
    if c = 'n' then readWord "ull".toList rest
    else if c = 't' then readWord "rue".toList rest
    else if c = 'f' then readWord "alse".toList rest
    else if c = '-' then skipNumber rest
    else if c.isDigit then skipNumber (c :: rest)
    else if c = '"' then skipString rest
    else .error ⟨.expectedValue, c :: rest, 1⟩

/-- Passes over a key and its colon. -/
def skipKey (cs : List Char) : Except Fault (List Char) :=
  match skipBlanks cs with
  | [] => .error ⟨.eofObject, [], 1⟩
  | c :: rest =>
    if c = '"' then
      match skipString rest with
      | .error fault => .error fault
      | .ok rest => readColon rest
    else .error ⟨.keyMustBeString, c :: rest, 1⟩

mutual
/-- Passes over a value. -/
def skipValue : Nat → List Char → Except Fault (List Char)
  | 0, cs => .error ⟨.eofValue, cs, 0⟩
  | fuel + 1, cs =>
    match skipBlanks cs with
    | [] => .error ⟨.eofValue, [], 1⟩
    | c :: rest =>
      if c = '[' then skipItems fuel true rest
      else if c = '\x7b' then skipEntries fuel true rest
      else skipLeaf (c :: rest)

/-- Passes over the items of a list to its end. -/
def skipItems : Nat → Bool → List Char → Except Fault (List Char)
  | 0, _, cs => .error ⟨.eofList, cs, 0⟩
  | fuel + 1, first, cs =>
    match skipBlanks cs with
    | [] => .error ⟨.eofList, [], 1⟩
    | c :: rest =>
      if c = ']' then .ok rest
      else if first then
        match skipValue fuel (c :: rest) with
        | .error fault => .error fault
        | .ok rest => skipItems fuel false rest
      else if c = ',' then
        match skipValue fuel rest with
        | .error fault => .error fault
        | .ok rest => skipItems fuel false rest
      else .error ⟨.expectedListEnd, c :: rest, 1⟩

/-- Passes over the entries of an object to its end. -/
def skipEntries : Nat → Bool → List Char → Except Fault (List Char)
  | 0, _, cs => .error ⟨.eofObject, cs, 0⟩
  | fuel + 1, first, cs =>
    match skipBlanks cs with
    | [] => .error ⟨.eofObject, [], 1⟩
    | c :: rest =>
      if c = '\x7d' then .ok rest
      else if first || c = ',' then
        match skipKey (if first then c :: rest else rest) with
        | .error fault => .error fault
        | .ok rest =>
          match skipValue fuel rest with
          | .error fault => .error fault
          | .ok rest => skipEntries fuel false rest
      else .error ⟨.expectedObjectEnd, c :: rest, 1⟩
end

end NamedTree.Json
