/-
This file writes what was found: for people, with colours if they are wanted, or
as a document.
-/

import EstreeScopes.Command.Style
import EstreeScopes.Files.Path
import EstreeScopes.Json.Writer
import EstreeScopes.Reference
import EstreeScopes.Scope

namespace EstreeScopes.Command

open Json (Value)

/-! ### Warnings -/

/-- A warning as a line. -/
def warningLine (colored : Bool) (warning : String) : String :=
  Style.alarm.paint colored "warning:" ++ " " ++ warning ++ "\n"

/-! ### Reports -/

/-- What was found in a file. -/
structure FileReport (α : Type) where
  path : Path
  found : List α
deriving DecidableEq

/-- Where a node stands, for people. -/
def spanText : Option (Nat × Nat) → String
  | some (start, stop) => toString start ++ ".." ++ toString stop
  | none => "-"

/-- Where a node stands, in a document. -/
def spanValue : Option (Nat × Nat) → Value
  | some (start, stop) => .array [.number (.ofNat start), .number (.ofNat stop)]
  | none => .null

/-- How many things were found in all files. -/
def total {α : Type} (reports : List (FileReport α)) : Nat :=
  reports.foldr (fun report count => report.found.length + count) 0

/-! ### Free references -/

/-- A reference as a line. -/
def referenceLine (colored : Bool) (path : Path) (reference : Reference) : String :=
  path.text ++ ":" ++ spanText reference.span ++ ": " ++ Style.alarm.paint colored "free" ++
    " `" ++ reference.name ++ "`\n"

/-- Free references for people. -/
def referencesText (colored : Bool) (reports : List (FileReport Reference)) : String :=
  let lines := reports.flatMap fun report =>
    report.found.map (referenceLine colored report.path)
  let summary :=
    if total reports = 0 then Style.good.paint colored "No free references found." ++ "\n"
    else
      let files := (reports.filter fun report => !report.found.isEmpty).length
      "\nFound " ++ toString (total reports) ++ " free reference(s) in " ++ toString files ++
        " file(s)\n"
  String.join lines ++ summary

/-- Free references as a document. -/
def referencesValue (reports : List (FileReport Reference)) : Value :=
  .array (reports.map fun report =>
    .object
      [ ("path", .string report.path.text),
        ("references", .array (report.found.map fun reference =>
          .object [("name", .string reference.name), ("span", spanValue reference.span)])) ])

/-! ### Scopes -/

/-- A scope as a line. -/
def scopeLine (colored : Bool) (scope : Scope) : String :=
  let names :=
    if scope.names.isEmpty then Style.faint.paint colored "(none)"
    else ", ".intercalate scope.names
  String.join (List.replicate (scope.depth + 1) "  ") ++
    Style.accent.paint colored scope.kind.name ++ " " ++
    Style.faint.paint colored (spanText scope.span) ++ " " ++ names ++ "\n"

/-- Scopes for people. -/
def scopesText (colored : Bool) (reports : List (FileReport Scope)) : String :=
  let lines := reports.flatMap fun report =>
    (Style.strong.paint colored report.path.text ++ "\n") ::
      report.found.map (scopeLine colored)
  String.join lines ++ "\nFound " ++ toString (total reports) ++ " scope(s) in " ++
    toString reports.length ++ " file(s)\n"

/-- Scopes as a document. -/
def scopesValue (reports : List (FileReport Scope)) : Value :=
  .array (reports.map fun report =>
    .object
      [ ("path", .string report.path.text),
        ("scopes", .array (report.found.map fun scope =>
          .object
            [ ("kind", .string scope.kind.name), ("span", spanValue scope.span),
              ("depth", .number (.ofNat scope.depth)),
              ("names", .array (scope.names.map .string)) ])) ])

end EstreeScopes.Command
