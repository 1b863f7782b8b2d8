/-
This file finds the tree files of a path: the file itself, or all files below a
directory that end in `.json`. Entries whose name starts with a point and
`node_modules` are passed over; this is asked of names that are texts, and all
others count. Files come in the order of the bytes of their names, directory by
directory, and a directory stands where its own name stands. A directory that does
not list its entries has no files.
-/

import EstreeScopes.Files.FileSystem

namespace EstreeScopes

/-! ### Which entries count -/

/-- The extension of tree files. -/
def treeExtension : String := "json"

/-- Whether a path is that of a tree file. -/
def Path.isTree (path : Path) : Bool := path.extension? == some (FileName.ofText treeExtension)

/-- Whether an entry of that name is passed over. -/
def isPassedOver (name : FileName) : Bool :=
  match name.text? with
  | some text => text.startsWith "." || text == "node_modules"
  | none => false

/-! ### Below a directory -/

/-- Named results in the order of the bytes of their names. -/
def inNameOrder {α : Type} (results : List (FileName × α)) : List (FileName × α) :=
  results.mergeSort fun first second => first.1.bytes ≤ second.1.bytes

mutual

/-- The wanted files of the entry at a path. -/
def filesAt (isListed wanted : Path → Bool) (path : Path) : FileEntry → List Path
  | .file _ => if wanted path then [path] else []
  | .directory entries =>
    if isListed path then
      (inNameOrder (filesIn isListed wanted path entries)).flatMap Prod.snd
    else []

/-- The wanted files of each entry of the directory at a path, under the name of the entry. -/
def filesIn (isListed wanted : Path → Bool) (path : Path) :
    List (FileName × FileEntry) → List (FileName × List Path)
  | [] => []
  | (name, entry) :: rest =>
    let found :=
      if isPassedOver name then [] else filesAt isListed wanted (path.child name) entry
    (name, found) :: filesIn isListed wanted path rest

end

/-- The tree files of a path that are not excluded. There are none if the path leads nowhere. -/
def FileSystem.discover (files : FileSystem) (isExcluded : Path → Bool) (path : Path) : List Path :=
  match files.entry path with
  | .error _ => []
  | .ok entry => filesAt files.isListed (fun path => path.isTree && !isExcluded path) path entry

end EstreeScopes
