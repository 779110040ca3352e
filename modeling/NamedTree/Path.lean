/-! # Paths

A path is the text between its slashes: whether it starts at the root, and its segments as they are
written, empty ones and dots included. What a path means is its list of `components`, which leaves
the empty segments and the dots out, except for a dot at the very beginning. Operations keep the
spelling of what they do not touch; comparison and order go by components. -/

namespace NamedTree

/-- A step of a path. -/
inductive Component where
  | root
  | current
  | parent
  | name (text : String)
deriving DecidableEq

/-- The place of a component before others of a different sort. -/
def Component.rank : Component → Nat
  | .root => 0
  | .current => 1
  | .parent => 2
  | .name _ => 3

/-- The order of components: names by their code points, after everything else. -/
def Component.compare : Component → Component → Ordering
  | .name a, .name b => compareOfLessAndEq a b
  | a, b => Ord.compare a.rank b.rank

/-- A path as it is written. -/
structure Path where
  rooted : Bool
  segments : List String
deriving DecidableEq

namespace Path

/-- The path with the given text. -/
def ofText (text : String) : Path :=
  match text.toList with
  | [] => ⟨false, []⟩
  | ['/'] => ⟨true, []⟩
  | '/' :: cs => ⟨true, (cs.splitOn '/').map String.ofList⟩
  | cs => ⟨false, (cs.splitOn '/').map String.ofList⟩

/-- The text of a path. -/
def toText (path : Path) : String :=
  (if path.rooted then "/" else "") ++ "/".intercalate path.segments

/-- The path without any text. -/
def isEmpty (path : Path) : Bool := !path.rooted && path.segments.isEmpty

/-- A segment that leads nowhere. -/
def isFiller (segment : String) : Bool := segment = "" || segment = "."

/-- Whether a path begins with a dot of its own. -/
def startsAtDot (path : Path) : Bool := !path.rooted && path.segments.head? = some "."

/-- The component of a segment. -/
def component? (segment : String) : Option Component :=
  if isFiller segment then none else if segment = ".." then some .parent else some (.name segment)

/-- The components of a path. -/
def components (path : Path) : List Component :=
  (if path.rooted then [.root] else if path.startsAtDot then [.current] else []) ++
    path.segments.filterMap component?

/-- Segments without the fillers at their end. -/
def dropFillers (segments : List String) : List String :=
  (segments.reverse.dropWhile isFiller).reverse

/-- The path without the fillers at its end; a dot at the beginning stays. -/
def trimEnd (path : Path) : Path :=
  let segments := dropFillers path.segments
  { path with segments := if segments.isEmpty && path.startsAtDot then ["."] else segments }

/-- The name at the end of a path. -/
def fileName? (path : Path) : Option String :=
  match path.trimEnd.segments.getLast? with
  | some segment => if isFiller segment || segment = ".." then none else some segment
  | none => none

/-- The path without its last component. The empty path and the root have no parent. -/
def parent? (path : Path) : Option Path :=
  let trimmed := path.trimEnd
  if trimmed.segments.isEmpty then none
  else some ({ trimmed with segments := trimmed.segments.dropLast } : Path).trimEnd

/-- Segments after the given number of components. -/
def dropComponents : Nat → List String → List String
  | 0, segments => segments
  | _ + 1, [] => []
  | n + 1, segment :: segments =>
    if isFiller segment then dropComponents (n + 1) segments else dropComponents n segments

/-- What is left of a path below another one, if it lies below it. -/
def relativeTo? (path base : Path) : Option Path :=
  let count := base.components.length
  if !base.components.isPrefixOf path.components then none
  else if count = 0 then some path.trimEnd
  else
    let segments :=
      if path.rooted then dropComponents (count - 1) path.segments
      else if path.startsAtDot then dropComponents (count - 1) path.segments.tail
      else dropComponents count path.segments
    some ⟨false, dropFillers (segments.dropWhile isFiller)⟩

/-- A path below another one. A path from the root stands for itself. -/
def join (base path : Path) : Path :=
  if path.rooted then path
  else if base.segments.isEmpty then { base with segments := path.segments }
  else
    let added := if path.segments.isEmpty then [""] else path.segments
    if base.segments.getLast? = some "" then { base with segments := base.segments.dropLast ++ added }
    else { base with segments := base.segments ++ added }

/-- The order of two lists of components. -/
def compareComponents : List Component → List Component → Ordering
  | [], [] => .eq
  | [], _ :: _ => .lt
  | _ :: _, [] => .gt
  | a :: as, b :: bs => (a.compare b).then (compareComponents as bs)

/-- Whether a path comes before another one or has the same components. -/
def le (a b : Path) : Bool := (compareComponents a.components b.components).isLE

end Path

end NamedTree
