/-
This file gives the configuration of a run and how it is read. A configuration
document may set names that count as declared, texts that exclude paths, and, for
the search for free references, whether finding some fails the run and which
names are not reported. Keys that mean nothing are ignored with a warning.

The document is looked for in the directory of the input and in its parents, and
the nearest one counts. A document that cannot be used is warned about and leaves
the configuration as it is by default.
-/

import EstreeScopes.Explanation
import EstreeScopes.Files.FileSystem
import EstreeScopes.Reference
import EstreeScopes.Toml.Document
import EstreeScopes.Toml.Marked

namespace EstreeScopes

/-- The configuration of a run. -/
structure Config where
  globals : List String
  exclude : List String
  failOnFree : Bool
  ignored : List String
deriving DecidableEq

namespace Config

/-- What holds when nothing is configured. -/
def default : Config := { globals := [], exclude := [], failOnFree := false, ignored := [] }

/-- What the search for free references takes from the configuration. -/
def referenceOptions (config : Config) : Reference.Options :=
  { globals := config.globals, ignored := config.ignored }

/-- Whether a text holds another. -/
def holds (text part : List Char) : Bool :=
  part.isPrefixOf text || match text with
    | [] => false
    | _ :: rest => holds rest part

/-- Whether a path is excluded: its text holds one of the excluded texts. -/
def isExcluded (config : Config) (path : String) : Bool :=
  config.exclude.any fun part => holds path.toList part.toList

/-! ### From a table -/

/-- The keys that mean something. -/
def knownKeys : List String := ["globals", "exclude", "free"]

/-- The keys that mean something in the table of the search for free references. -/
def knownFreeKeys : List String := ["fail", "ignore"]

/-- A list of texts. -/
def texts? : Toml.Value → Option (List String)
  | .array items => items.mapM fun item =>
    match item with
    | .string text => some text
    | _ => none
  | _ => none

/-- A truth value. -/
def flag? : Toml.Value → Option Bool
  | .boolean flag => some flag
  | _ => none

/-- The value under a key read in some way; without the key the default counts. -/
def setting? {α : Type} (read : Toml.Value → Option α) (default : α) (value : Option Toml.Value) :
    Option α :=
  match value with
  | none => some default
  | some value => read value

/-- The settings of the search for free references: a table, or the same values in order. A date or
time counts as a table without known keys. -/
def freeSettings? : Toml.Value → Option (Bool × List String)
  | .table entries => do
    let fail ← setting? flag? false (Entries.find? entries "fail")
    let ignored ← setting? texts? [] (Entries.find? entries "ignore")
    return (fail, ignored)
  | .array items => do
    let fail ← setting? flag? false items[0]?
    let ignored ← setting? texts? [] items[1]?
    return (fail, ignored)
  | .dateTime _ => some (false, [])
  | _ => none

/-- The configuration that a table sets. -/
def ofTable? (table : Toml.Table) : Option Config := do
  let globals ← setting? texts? [] (Entries.find? table "globals")
  let exclude ← setting? texts? [] (Entries.find? table "exclude")
  let (failOnFree, ignored) ← setting? freeSettings? (false, []) (Entries.find? table "free")
  return { globals, exclude, failOnFree, ignored }

/-- The keys of a table that mean nothing, in the order of their bytes. -/
def unknownKeys (known : List String) (table : Toml.Table) : List String :=
  ((Entries.names table).filter fun key => !known.contains key).mergeSort
    fun first second => first ≤ second

/-- What a person is told about the keys of a table that mean nothing. -/
def unknownKeyWarnings (table : Toml.Table) : List String :=
  let inFree :=
    match Entries.find? table "free" with
    | some (.table entries) => unknownKeys knownFreeKeys entries
    | _ => []
  ((unknownKeys knownKeys table).map fun key => "Unknown config option: '" ++ key ++ "'") ++
    inFree.map fun key => "Unknown config option in [free]: '" ++ key ++ "'"

/-- What a person is told about the keys that mean nothing. Marked tables are replaced before the
keys are looked at; if one of them stands for nothing, nobody is told anything. -/
def keyWarnings (table : Toml.Table) : List String :=
  match table.unmarked? with
  | some table => unknownKeyWarnings table
  | none => []

/-! ### From a file -/

/-- A file whose text is no configuration, with the explanation of the reader. -/
structure Refusal where
  path : Path
  explanation : Option String
deriving DecidableEq

/-- Why a configuration cannot be used. -/
inductive LoadError where
  | unreadable (path : Path) (cause : FileError)
  | invalid (refusal : Refusal)
deriving DecidableEq

/-- What a person is told. -/
def LoadError.message : LoadError → String
  | .unreadable path cause =>
    "Failed to read config file '" ++ path.text ++ "': " ++ cause.message
  | .invalid refusal =>
    explained ("Invalid TOML in '" ++ refusal.path.text ++ "'") refusal.explanation

/-- A configuration and the warnings that came with it. -/
structure Loaded where
  config : Config
  warnings : List String
deriving DecidableEq

/-- The configuration in a file. A text that is refused is explained. -/
def load (files : FileSystem) (path : Path) (explain : String → Option String := fun _ => none) :
    Except LoadError Loaded :=
  match files.readText path with
  | .error cause => .error (.unreadable path cause)
  | .ok text =>
    match Toml.Table.ofText? text with
    | none => .error (.invalid { path, explanation := explain text })
    | some table =>
      match ofTable? table with
      | none => .error (.invalid { path, explanation := explain text })
      | some config => .ok { config, warnings := keyWarnings table }

/-! ### The nearest file -/

/-- The name of configuration files. -/
def fileName : String := "hoistwalk.toml"

/-- The directory where the search starts: that of a file, or the path itself. -/
def searchStart? (files : FileSystem) (start : Path) : Option Path :=
  if files.isFile start then start.parent? else some start

/-- The nearest configuration file for a path. -/
def find? (files : FileSystem) (start : Path) : Option Path :=
  (searchStart? files start).bind fun directory =>
    (directory.ancestors.map fun ancestor => ancestor.child fileName).find? fun path =>
      files.exists? path

/-- The configuration for a path, by default when there is none that can be used. -/
def loadNearest (files : FileSystem) (start : Path)
    (explain : String → Option String := fun _ => none) : Loaded :=
  match find? files start with
  | none => { config := default, warnings := [] }
  | some path =>
    match load files path explain with
    | .ok loaded => loaded
    | .error cause => { config := default, warnings := [cause.message] }

end Config

end EstreeScopes
