/-
This file is the command line. It takes a picture of the files that a run looks
at, runs the command on the picture, and writes what the run leaves behind.
-/

import EstreeScopes.Command.Run

namespace EstreeScopes.Command

/-- An entry, and the places at it and below it of what may not be read. -/
structure Reading where
  entry : FileEntry
  denied : List (List FileName)

/-- The entry at a path on disk with everything below it, for a place. -/
partial def readEntry (place : List FileName) (path : String) : IO Reading := do
  let location := (← IO.currentDir) / path
  if ← location.isDir then
    try
      let mut entries := []
      let mut denied := []
      for item in ← location.readDir do
        let name := FileName.ofText item.fileName
        let inner ← readEntry (place ++ [name]) (path ++ "/" ++ item.fileName)
        entries := (name, inner.entry) :: entries
        denied := inner.denied ++ denied
      return { entry := .directory entries, denied }
    catch _ =>
      return { entry := .directory [], denied := [place] }
  else
    try
      return { entry := .file (← IO.FS.readBinFile location), denied := [] }
    catch _ =>
      return { entry := .file .empty, denied := [place] }

/-- Adds the entry at a path on disk to a picture; a directory is added without what is in it,
unless everything below it is wanted. -/
def addEntry (wanted : Bool) (files : FileSystem) (path : Path) : IO FileSystem := do
  let location := (← IO.currentDir) / path.text
  if path.text.isEmpty || !(← location.pathExists) then return files
  let isFile := !(← location.isDir)
  let files := if isFile then files.write path .empty else files.makeDirectory path
  match files.resolve path with
  | .error _ => return files
  | .ok place =>
    if wanted || isFile then
      let reading ← readEntry place path.text
      return { files with
        root := files.root.putAt reading.entry place, denied := reading.denied ++ files.denied }
    else return files

/-- The paths that lead to a path: one for every segment, the shortest first. -/
def leadingPaths (path : Path) : List Path :=
  (List.range path.segments.length).map fun count =>
    { segments := path.segments.take (count + 1) }

/-- A picture of the files that a run looks at. -/
def picture (options : Options) : IO FileSystem := do
  let directory := Path.ofText (← IO.currentDir).toString
  let empty : FileSystem := { root := .directory [], workingDirectory := [] }
  let (started, place) := empty.make [] directory.segments
  let mut files : FileSystem := { started with workingDirectory := place }
  let path := Path.ofText options.path
  for leading in leadingPaths path do
    files ← addEntry false files leading
  files ← addEntry true files path
  for ancestor in path.ancestors do
    files ← addEntry false files (ancestor.child Config.fileName)
  for log in options.logFile.toList do
    files ← addEntry false files (logPath log)
  return files

/-- Writes the log file as a run left it. -/
def writeLog (completed : Completed) (file : String) : IO Unit := do
  let path := logPath file
  for parent in path.parent?.toList do
    if !parent.text.isEmpty then IO.FS.createDirAll parent.text
  match completed.files.readText path with
  | .ok text => IO.FS.writeFile path.text text
  | .error _ => pure ()

/-- Answers a request and gives the exit code. -/
def answer : Option Request → IO UInt32
  | none => do
    IO.eprint helpText
    return 2
  | some .version => do
    IO.print versionText
    return 0
  | some .help => do
    IO.print helpText
    return 0
  | some (.run options) => do
    let files ← picture options
    let surroundings : Surroundings :=
      { forceColor := ← IO.getEnv "CLICOLOR_FORCE", noColor := ← IO.getEnv "NO_COLOR",
        logFilter := ← IO.getEnv "RUST_LOG" }
    let completed := runLogged files surroundings options
    for file in options.logFile.toList do
      writeLog completed file
    for notice in completed.notices do
      match notice with
      | .message text => IO.eprint text
      | .record event => IO.eprintln (event.text options.logJson true)
    IO.print completed.output
    return completed.code.toUInt32

end EstreeScopes.Command

/-- Runs the command that the arguments ask for. -/
def main (arguments : List String) : IO UInt32 :=
  EstreeScopes.Command.answer (EstreeScopes.Command.Request.ofArguments? arguments)
