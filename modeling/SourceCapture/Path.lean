/-
Paths of files. A path is kept as it is written, since it is shown that way; what it means
is read off its segments. Repeated slashes, a slash at the end and single dots add nothing,
except for a dot at the very start of a relative path, which is kept as a segment.
-/

namespace SourceCapture

/-- The path of a file as it is written. -/
structure Path where
  text : String
  deriving Repr, DecidableEq, Inhabited

/-- A part of a path that says where to go next. -/
inductive Component where
  /-- To the root of the file system. -/
  | root
  /-- To where the path already is. -/
  | current
  /-- To the folder above. -/
  | parent
  /-- To an entry of the folder. -/
  | entry (name : String)
  deriving Repr, DecidableEq, Inhabited

namespace Component

/-- The component as it is written. -/
def text : Component → String
  | .root => "/"
  | .current => "."
  | .parent => ".."
  | .entry name => name

/-- The place of the kind of component in the order of paths. -/
def rank : Component → Nat
  | .root => 0
  | .current => 1
  | .parent => 2
  | .entry _ => 3

/-- Components in order: the kinds by rank, entries by name. -/
def compare : Component → Component → Ordering
  | .entry left, .entry right => Ord.compare left right
  | left, right => Ord.compare left.rank right.rank

/-- Whether the component names an entry or stays in place. -/
def isPlain : Component → Bool
  | .entry _ => true
  | .current => true
  | _ => false

end Component

namespace Path

/-- Whether the path starts at the root. -/
def isAbsolute (path : Path) : Bool := path.text.toList.head? = some '/'

/-- The component of a segment between slashes. Empty segments and dots are none. -/
def componentOf? (segment : List Char) : Option Component :=
  match segment with
  | [] => none
  | ['.'] => none
  | ['.', '.'] => some .parent
  | name => some (.entry (String.ofList name))

/-- The components of a path. -/
def components (path : Path) : List Component :=
  match path.text.toList.splitOn '/' with
  | [] => []
  | first :: rest =>
    let start : List Component :=
      if first.isEmpty then (if rest.isEmpty then [] else [.root])
      else if first = ['.'] then [.current]
      else (componentOf? first).toList
    start ++ rest.filterMap componentOf?

/-- The path of an entry below this one. An absolute path stands for itself. -/
def join (path : Path) (below : String) : Path :=
  if below.toList.head? = some '/' then ⟨below⟩
  else if path.text.isEmpty || path.text.toList.getLast? = some '/' then ⟨path.text ++ below⟩
  else ⟨path.text ++ "/" ++ below⟩

/-- The name of the entry that the path leads to, if its last component is one. -/
def fileName? (path : Path) : Option String :=
  match path.components.getLast? with
  | some (.entry name) => some name
  | _ => none

/-- Components in the order of paths: the first difference decides, and a path comes before
the paths that extend it. -/
def compareComponents : List Component → List Component → Ordering
  | [], [] => .eq
  | [], _ :: _ => .lt
  | _ :: _, [] => .gt
  | left :: lefts, right :: rights => (left.compare right).then (compareComponents lefts rights)

/-- The order of paths. -/
def compare (left right : Path) : Ordering :=
  compareComponents left.components right.components

/-- Whether two paths have the same components. -/
def sameAs (left right : Path) : Bool := left.components = right.components

/-! ### The path from one place to another -/

/-- What is left of two lists after the part at their start on which they agree. -/
def dropCommon : List Component → List Component → List Component × List Component
  | left :: lefts, right :: rights =>
    if left = right then dropCommon lefts rights else (left :: lefts, right :: rights)
  | lefts, rights => (lefts, rights)

/-- The components without the dots that stay in place. -/
def effectiveComponents (path : Path) : List Component :=
  path.components.filter (· ≠ .current)

/-- The way from a root to a path: up for every component of the root that the path does
not share, then down along the rest of the path. -/
def relativeTo (root path : Path) : String :=
  let (ups, downs) := dropCommon root.effectiveComponents path.effectiveComponents
  "/".intercalate (ups.map (fun _ => "..") ++ downs.map Component.text)

/-! ### A path below another -/

/-- The segments of a path as it is written, from the first one on that the components to
skip do not use up. Only what lies between the first and the last component of the rest is
kept. -/
def skipSegments (skip : List Component) : List (List Char) → Option (List (List Char))
  | [] => if skip.isEmpty then some [] else none
  | segment :: rest =>
    match skip with
    | [] => some (segment :: rest)
    | expected :: others =>
      match componentOf? segment with
      | none => skipSegments skip rest
      | some found => if found = expected then skipSegments others rest else none

/-- The segments without those at either end that are no component. -/
def trimSegments (segments : List (List Char)) : List (List Char) :=
  let isIdle := fun segment => (componentOf? segment).isNone
  ((segments.dropWhile isIdle).reverse.dropWhile isIdle).reverse

/-- The path below an absolute root, as it is written after the root. -/
def below? (root path : Path) : Option String :=
  match root.components, path.text.toList.splitOn '/' with
  | .root :: entries, [] :: segments =>
    (skipSegments entries segments).map fun rest =>
      String.ofList (['/'].intercalate (trimSegments rest))
  | _, _ => none

end Path

end SourceCapture
