/-
This file runs a command on a file system. A run reads the configuration for its
path, finds the tree files, reads them and reports what it found. A file that
cannot be read, is no tree, or cannot be walked is passed over with a warning;
what is reported for one file does not depend on the others. The run gives the
exit code, the report, and in their order the messages and the events of the log.
-/

import EstreeScopes.Command.Filter
import EstreeScopes.Command.Report
import EstreeScopes.Config
import EstreeScopes.Files.Discovery
import EstreeScopes.Node.Document

namespace EstreeScopes.Command

/-! ### Reading the files -/

/-- Why a file is no tree. -/
inductive LoadError where
  | unreadable (path : Path) (cause : FileError)
  | notTree (path : Path) (cause : TreeError) (explanation : Option String)
deriving DecidableEq

/-- What a person is told. -/
def LoadError.message : LoadError → String
  | .unreadable path cause => "Failed to read " ++ path.text ++ ": " ++ cause.message
  | .notTree path cause explanation =>
    "Skipping " ++ path.text ++ ": " ++ cause.message explanation

section

variable (files : FileSystem) (explain : String → Option String)

/-- The tree in a file. A text that is refused is explained. -/
def loadTree (path : Path) : Except LoadError Node :=
  match files.readText path with
  | .error cause => .error (.unreadable path cause)
  | .ok text =>
    match Node.ofText text with
    | .error cause => .error (.notTree path cause (explain text))
    | .ok tree => .ok tree

/-- The files that are trees, with their trees. -/
def loadedTrees (paths : List Path) : List (Path × Node) :=
  paths.filterMap fun path =>
    match loadTree files explain path with
    | .ok tree => some (path, tree)
    | .error _ => none

/-- The warnings about the files that are no trees. -/
def loadWarnings (paths : List Path) : List String :=
  paths.filterMap fun path =>
    match loadTree files explain path with
    | .ok _ => none
    | .error cause => some cause.message

end

/-! ### Searching the trees -/

/-- The free references of each tree that can be walked. -/
def referenceReports (options : Reference.Options) (trees : List (Path × Node)) :
    List (FileReport Reference) :=
  trees.filterMap fun (path, tree) =>
    match tree.freeReferences options with
    | .ok found => some { path, found }
    | .error _ => none

/-- The warnings about the trees that cannot be walked. -/
def walkWarnings (options : Reference.Options) (trees : List (Path × Node)) : List String :=
  trees.filterMap fun (path, tree) =>
    match tree.freeReferences options with
    | .ok _ => none
    | .error fault => some ("Skipping " ++ path.text ++ ": " ++ fault.message)

/-- The events of the search in one tree. -/
def searchEvents (options : Reference.Options) (path : Path) (tree : Node) : List Event :=
  let run := Reference.search options tree
  let failure :=
    match run.outcome with
    | .ok _ => []
    | .error fault => [Event.walkFailed path.text fault.message]
  run.log.map Event.ofStep ++ failure

/-- The scopes of each tree. -/
def scopeReports (trees : List (Path × Node)) : List (FileReport Scope) :=
  trees.map fun (path, tree) => { path, found := tree.scopes }

/-! ### The run -/

/-- What a run tells besides its report: a message for people, or an event for the log. -/
inductive Notice where
  | message (text : String)
  | record (event : Event)
deriving DecidableEq

/-- What a run leaves behind. -/
structure Result where
  code : Nat
  output : String
  notices : List Notice

/-- What is around a run: a variable that forces colours, one that forbids them, one that says what
is logged, and the explanations of the readers. -/
structure Surroundings where
  forceColor : Option String
  noColor : Option String
  logFilter : Option String
  explanations : Explanations := {}

/-- Colours are wanted when they are forced and nothing forbids them. -/
def Surroundings.isColored (surroundings : Surroundings) (options : Options) : Bool :=
  surroundings.forceColor.any (· != "0") && surroundings.noColor.isNone && !options.noColor

/-- What a run finds to report on: the events of the search, warnings, the event that sums the
search up, the text of the report and the exit code. -/
structure Findings where
  events : List Event
  warnings : List String
  summary : Event
  report : String
  code : Nat

/-- Reports the free references of the files. The run fails if there are some and the options or
the configuration say so. -/
def findReferences (files : FileSystem) (explain : String → Option String) (config : Config)
    (options : Options) (colored : Bool) (paths : List Path) : Findings :=
  let configured := config.referenceOptions
  let search := { configured with globals := configured.globals ++ options.globals }
  let trees := loadedTrees files explain paths
  let reports := referenceReports search trees
  { events := trees.flatMap fun (path, tree) => searchEvents search path tree
    warnings := loadWarnings files explain paths ++ walkWarnings search trees
    summary := Event.collectedReferences reports.length (total reports)
    report :=
      match options.format with
      | .json => (referencesValue reports).prettyText ++ "\n"
      | .pretty => referencesText colored reports
    code := if 0 < total reports && (options.failOnFree || config.failOnFree) then 1 else 0 }

/-- Reports the scopes of the files. -/
def findScopes (files : FileSystem) (explain : String → Option String) (options : Options)
    (colored : Bool) (paths : List Path) : Findings :=
  let reports := scopeReports (loadedTrees files explain paths)
  { events := []
    warnings := loadWarnings files explain paths
    summary := Event.collectedScopes reports.length
    report :=
      match options.format with
      | .json => (scopesValue reports).prettyText ++ "\n"
      | .pretty => scopesText colored reports
    code := 0 }

/-- The messages of warnings. -/
def warningNotices (colored : Bool) (warnings : List String) : List Notice :=
  warnings.map fun warning => .message (warningLine colored warning)

/-- What the findings of a run tell: the events of the search, then the warnings, then the sum. -/
def Findings.notices (findings : Findings) (colored : Bool) : List Notice :=
  findings.events.map .record ++ warningNotices colored findings.warnings ++
    [.record findings.summary]

/-- The event of the search for files; a path that is a file needs none. -/
def discoveryEvents (files : FileSystem) (path : Path) (count : Nat) : List Event :=
  if files.isFile path then [] else [Event.discovered path.text count]

/-- Runs a command. -/
def run (files : FileSystem) (surroundings : Surroundings) (options : Options) : Result :=
  let colored := surroundings.isColored options
  let path := Path.ofText options.path
  let explanations := surroundings.explanations
  let loaded := Config.loadNearest files path explanations.ofConfig
  let warned := warningNotices colored loaded.warnings
  if files.exists? path then
    let paths := files.discover (fun path => loaded.config.isExcluded path.text) path
    let discovered := warned ++ (discoveryEvents files path paths.length).map .record
    if paths.isEmpty then
      { code := 0, output := "No ESTree JSON files found.\n", notices := discovered }
    else
      let findings :=
        match options.action with
        | .free => findReferences files explanations.ofDocument loaded.config options colored paths
        | .scopes => findScopes files explanations.ofDocument options colored paths
      { code := findings.code, output := findings.report,
        notices := discovered ++ findings.notices colored }
  else
    { code := 1, output := "",
      notices := warned ++ [.message ("Error: Path does not exist: " ++ options.path ++ "\n")] }

/-! ### Requests -/

/-- The answer to a question for the version. -/
def versionText : String := "hoistwalk 0.1.0\n"

/-- The answer to a question for an explanation. -/
def helpText : String :=
  "Usage: hoistwalk [OPTIONS] <COMMAND>\n\n" ++
  "Commands:\n" ++
  "  scopes  List the names every scope declares\n" ++
  "  free    Report identifiers no enclosing scope declares\n"

/-- The path of a log file: its last component is the name of the file, and a path without one
gets a name. -/
def logPath (file : String) : Path :=
  let path := Path.ofText file
  (path.parent?.getD (.ofText ".")).child (path.fileName?.getD "hoistwalk.log")

/-- What a whole run leaves behind: its exit code, its report, what it tells, and the file system,
in which the log file may have grown. -/
structure Completed where
  code : Nat
  output : String
  notices : List Notice
  files : FileSystem

/-- The event of a notice, if it is logged. -/
def Notice.logged? (filter : Filter) : Notice → Option Event
  | .message _ => none
  | .record event => if filter.admits event then some event else none

/-- Whether a notice is shown when the log is. -/
def Notice.isShown (filter : Filter) : Notice → Bool
  | .message _ => true
  | .record event => filter.admits event

/-- Whether a notice is shown when the log goes to a file. -/
def Notice.isMessage : Notice → Bool
  | .message _ => true
  | .record _ => false

/-- Runs a command with its log. What is wrong with the filter of the log is told before anything
else. A log file is made before the command runs. -/
def runLogged (files : FileSystem) (surroundings : Surroundings) (options : Options) : Completed :=
  let written := surroundings.logFilter.getD ""
  let complaints := (Filter.complaints written).map fun text => Notice.message (text ++ "\n")
  let filter := Filter.ofText written ++ [.general options.logLevel]
  match options.logFile with
  | none =>
    let result := run files surroundings options
    { code := result.code, output := result.output, files,
      notices := complaints ++ result.notices.filter (Notice.isShown filter) }
  | some file =>
    let path := logPath file
    let files := files.append path ""
    let result := run files surroundings options
    let lines := (result.notices.filterMap (Notice.logged? filter)).map fun event =>
      event.text options.logJson false ++ "\n"
    { code := result.code, output := result.output, files := files.append path (String.join lines),
      notices := complaints ++ result.notices.filter Notice.isMessage }

end EstreeScopes.Command
