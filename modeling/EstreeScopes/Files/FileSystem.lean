/-
This file gives file systems as values: a tree of directories and files, and the
directory that relative paths start from. A path is resolved segment by segment;
two points lead to the directory that holds the current one, and only a
directory can be gone through. Names and whole paths have a greatest length. What
stands at a place can be there without being open to be read.
-/

import EstreeScopes.Entries
import EstreeScopes.Files.Path

namespace EstreeScopes

/-- What stands under a name: a file with its bytes, or a directory. -/
inductive FileEntry where
  | file (content : ByteArray)
  | directory (entries : List (FileName × FileEntry))

/-- Why a path cannot be read. -/
inductive FileError where
  | missing
  | notDirectory
  | isDirectory
  | notText
  | tooLong
  | zeroByte
  | denied
deriving DecidableEq

namespace FileError

/-- What a person is told. -/
def message : FileError → String
  | .missing => "No such file or directory (os error 2)"
  | .notDirectory => "Not a directory (os error 20)"
  | .isDirectory => "Is a directory (os error 21)"
  | .notText => "stream did not contain valid UTF-8"
  | .tooLong => "File name too long (os error 36)"
  | .zeroByte => "file name contained an unexpected NUL byte"
  | .denied => "Permission denied (os error 13)"

end FileError

namespace FileEntry

/-- The entry at a place below an entry; the place is given by the names on the way. -/
def at? (entry : FileEntry) : List FileName → Option FileEntry
  | [] => some entry
  | name :: rest =>
    match entry with
    | .file _ => none
    | .directory entries => (Entries.find? entries name).bind fun inner => inner.at? rest

/-- Puts an entry at a place below an entry. Directories on the way are made; a file on the way is
left as it is. -/
def putAt (entry : FileEntry) (new : FileEntry) : List FileName → FileEntry
  | [] => new
  | name :: rest =>
    match entry with
    | .file content => .file content
    | .directory entries =>
      let inner := (Entries.find? entries name).getD (.directory [])
      .directory (Entries.put entries name (inner.putAt new rest))

end FileEntry

/-- A file system, the place in it that relative paths start from, and the places of what may not
be read: files that keep their bytes to themselves, and directories that do not list their
entries. -/
structure FileSystem where
  root : FileEntry
  workingDirectory : List FileName
  denied : List (List FileName) := []

namespace FileSystem

/-- How many bytes a name may have. -/
def nameLimit : Nat := 255

/-- How many bytes a path may have. -/
def pathLimit : Nat := 4095

/-- Goes one segment on from a place. -/
def step (files : FileSystem) (place : List FileName) (segment : FileName) :
    Except FileError (List FileName) :=
  match files.root.at? place with
  | none => .error .missing
  | some (.file _) => .error .notDirectory
  | some (.directory entries) =>
    if Path.isVoid segment then .ok place
    else if segment = ".." then .ok place.dropLast
    else if nameLimit < segment.bytes.length then .error .tooLong
    else if (Entries.find? entries segment).isSome then .ok (place ++ [segment])
    else .error .missing

/-- Goes through segments one after the other. -/
def follow (files : FileSystem) : List FileName → List FileName → Except FileError (List FileName)
  | place, [] => .ok place
  | place, segment :: rest =>
    match files.step place segment with
    | .ok next => files.follow next rest
    | .error cause => .error cause

/-- The place that a path leads to. A path with a zero byte or too many bytes leads nowhere,
whatever its segments are. -/
def resolve (files : FileSystem) (path : Path) : Except FileError (List FileName) :=
  if path.bytes.contains 0 then .error .zeroByte
  else if pathLimit < path.bytes.length then .error .tooLong
  else
    match path.segments with
    | [] => .error .missing
    | head :: body =>
      if head = .empty ∧ body = [] then .error .missing
      else if head = .empty then files.follow [] body
      else files.follow files.workingDirectory (head :: body)

/-- The entry that a path leads to. -/
def entry (files : FileSystem) (path : Path) : Except FileError FileEntry :=
  match files.resolve path with
  | .error cause => .error cause
  | .ok place =>
    match files.root.at? place with
    | some entry => .ok entry
    | none => .error .missing

/-- Whether a path leads to a file or a directory. -/
def exists? (files : FileSystem) (path : Path) : Bool :=
  match files.entry path with
  | .ok _ => true
  | .error _ => false

/-- Whether a path leads to a file. -/
def isFile (files : FileSystem) (path : Path) : Bool :=
  match files.entry path with
  | .ok (.file _) => true
  | _ => false

/-- The entry that a path leads to, if it may be read. -/
def opened (files : FileSystem) (path : Path) : Except FileError FileEntry :=
  match files.resolve path with
  | .error cause => .error cause
  | .ok place => if place ∈ files.denied then .error .denied else files.entry path

/-- Whether a path leads to a directory that lists its entries. -/
def isListed (files : FileSystem) (path : Path) : Bool :=
  match files.opened path with
  | .ok (.directory _) => true
  | _ => false

/-- The text of a file. -/
def readText (files : FileSystem) (path : Path) : Except FileError String :=
  match files.opened path with
  | .error cause => .error cause
  | .ok (.directory _) => .error .isDirectory
  | .ok (.file content) =>
    match String.fromUTF8? content with
    | some text => .ok text
    | none => .error .notText

/-! ### Writing -/

/-- The place where the segments of a path start. -/
def start (files : FileSystem) (path : Path) : List FileName :=
  if path.segments.head? = some .empty then [] else files.workingDirectory

/-- Goes through segments one after the other from a place and makes the directories that are
missing on the way. -/
def make : FileSystem → List FileName → List FileName → FileSystem × List FileName
  | files, place, [] => (files, place)
  | files, place, segment :: rest =>
    if Path.isVoid segment then files.make place rest
    else if segment = ".." then files.make place.dropLast rest
    else
      let next := place ++ [segment]
      if (files.root.at? next).isSome then files.make next rest
      else make { files with root := files.root.putAt (.directory []) next } next rest

/-- Makes the directory at a path and all directories on the way. -/
def makeDirectory (files : FileSystem) (path : Path) : FileSystem :=
  (files.make (files.start path) path.segments).1

/-- Puts a file at a path, in place of an old one. The directories on the way are made, those too
that the path leaves again. -/
def write (files : FileSystem) (path : Path) (content : ByteArray) : FileSystem :=
  let (files, place) := files.make (files.start path) path.segments.dropLast
  { files with root := files.root.putAt (.file content) (place ++ path.segments.getLast?.toList) }

/-- The bytes of a file; a path that leads to no file has none. -/
def content (files : FileSystem) (path : Path) : ByteArray :=
  match files.entry path with
  | .ok (.file content) => content
  | _ => .empty

/-- Adds a text to the end of a file, which is made if it is missing. -/
def append (files : FileSystem) (path : Path) (text : String) : FileSystem :=
  files.write path (files.content path ++ text.toUTF8)

end FileSystem

end EstreeScopes
