/-
This file gives the paths of files as names in segments. A path is only looked
at, never resolved: its parent is what stands before its last component. Empty
segments and single points are no components, except a point that opens the path.
The empty path and the root have no parent.
-/

import EstreeScopes.Files.FileName
import EstreeScopes.Text.Pieces

namespace EstreeScopes

/-- A path: what stands between its slashes. The empty path has one empty segment, and a path that
starts at the root has an empty first segment. -/
structure Path where
  segments : List FileName
deriving DecidableEq

namespace Path

/-! ### Texts -/

/-- The path that a text writes. -/
def ofText (text : String) : Path :=
  { segments := (Text.pieces '/' text.toList).map fun piece => FileName.ofText (.ofList piece) }

/-- The text that is shown for a path. -/
def text (path : Path) : String := "/".intercalate (path.segments.map FileName.shown)

/-- The byte of a slash. -/
def slash : UInt8 := 0x2f

/-- The bytes of a path. -/
def bytes (path : Path) : List UInt8 := [slash].intercalate (path.segments.map FileName.bytes)

/-- The path without segments of its own. -/
def empty : Path := { segments := [.empty] }

/-- The root. -/
def root : Path := { segments := [.empty, .empty] }

/-! ### Components -/

/-- Whether a segment is no component. -/
def isVoid (segment : FileName) : Bool := segment == .empty || segment == "."

/-- Segments without the void ones at the end. -/
def trimEnd (segments : List FileName) : List FileName :=
  (segments.reverse.dropWhile isVoid).reverse

/-- The path without its last component, and without the void segments before it. -/
def parent? (path : Path) : Option Path :=
  match path.segments with
  | [] => none
  | head :: body =>
    match trimEnd body with
    | [] => if head = .empty then none else some empty
    | components =>
      let before := trimEnd components.dropLast
      if head = .empty ∧ before = [] then some root else some { segments := head :: before }

/-- A path and all its parents, the path first. Every parent has fewer components. -/
def ancestorsWithin : Nat → Path → List Path
  | 0, path => [path]
  | bound + 1, path =>
    match path.parent? with
    | none => [path]
    | some parent => path :: ancestorsWithin bound parent

/-- A path and all its parents, the path first. -/
def ancestors (path : Path) : List Path := ancestorsWithin path.segments.length path

/-- The path of an entry of the directory at a path. An empty last segment does not count. -/
def child (path : Path) (name : FileName) : Path :=
  if path.segments.getLast? = some .empty then { segments := path.segments.dropLast ++ [name] }
  else { segments := path.segments ++ [name] }

/-- The last component, when it is a name. -/
def fileName? (path : Path) : Option FileName :=
  match path.segments with
  | [] => none
  | head :: body =>
    let last := (trimEnd body).getLast?.getD head
    if isVoid last || last == ".." then none else some last

/-- The extension of the last component. -/
def extension? (path : Path) : Option FileName := path.fileName?.bind FileName.extension?

end Path

end EstreeScopes
