/-
This file gives the log: events with a level, the part of the program they come
from, a message and named details. An event is written as a line of text, with
colours on a terminal, or as a document on one line.
-/

import EstreeScopes.Command.Arguments
import EstreeScopes.Command.Style
import EstreeScopes.Json.Writer
import EstreeScopes.Text.Quoted
import EstreeScopes.Walk.Run

namespace EstreeScopes.Command

/-! ### Levels -/

/-- The name of a level in the log. -/
def Level.label : Level → String
  | .trace => "TRACE"
  | .debug => "DEBUG"
  | .info => "INFO"
  | .warn => "WARN"
  | .error => "ERROR"

/-- The colour of a level in the log. -/
def Level.style : Level → Style
  | .trace => .purple
  | .debug => .blue
  | .info => .good
  | .warn => .yellow
  | .error => .red

/-- How severe a level is. -/
def Level.rank : Level → Nat
  | .trace => 0
  | .debug => 1
  | .info => 2
  | .warn => 3
  | .error => 4

/-! ### Events -/

/-- A detail of an event. -/
inductive Detail where
  | text (text : String)
  | count (count : Nat)
deriving DecidableEq

/-- An event of the log. -/
structure Event where
  level : Level
  source : String
  message : String
  details : List (String × Detail)
deriving DecidableEq

namespace Event

/-- The text of a detail. -/
def detailText : Detail → String
  | .text text => text
  | .count count => toString count

/-- The value of a detail. -/
def detailValue : Detail → Json.Value
  | .text text => .string text
  | .count count => .number (.ofNat count)

/-- An event as a line of text. -/
def line (colored : Bool) (event : Event) : String :=
  let detail (name : String) (detail : Detail) : String :=
    " " ++ Style.slanted.paint colored name ++ Style.faint.paint colored "=" ++ detailText detail
  event.level.style.paint colored event.level.label ++ " " ++
    Style.faint.paint colored event.source ++ Style.faint.paint colored ":" ++ " " ++
    event.message ++ String.join (event.details.map fun (name, value) => detail name value)

/-- An event as a document. -/
def document (event : Event) : Json.Value :=
  let details := event.details.map fun (name, detail) => (name, detailValue detail)
  .object
    [ ("level", .string event.level.label),
      ("fields", .object (("message", .string event.message) :: details)),
      ("target", .string event.source) ]

/-- An event as it is written. Documents have no colours. -/
def text (json colored : Bool) (event : Event) : String :=
  if json then event.document.compactText else event.line colored

/-! ### The events of a run -/

/-- The event of a step of a walk. -/
def ofStep : Step → Event
  | .intercepted _ node =>
    { level := .trace, source := "hoistwalk_core::walk", message := "transform intercepts node",
      details := [("kind", .text node.kind.name)] }
  | .entered kind names =>
    { level := .debug, source := "hoistwalk_core::walk", message := "entering scope",
      details := [("kind", .text kind.name), ("names", .text (Text.quotedList names))] }

/-- Files were found below a directory. -/
def discovered (root : String) (count : Nat) : Event :=
  { level := .debug, source := "hoistwalk::input", message := "discovered tree files",
    details := [("root", .text root), ("count", .count count)] }

/-- The search for free references failed on a file. -/
def walkFailed (path cause : String) : Event :=
  { level := .warn, source := "hoistwalk::commands::free", message := "walk failed",
    details := [("path", .text path), ("error", .text cause)] }

/-- The free references of all files were collected. -/
def collectedReferences (files references : Nat) : Event :=
  { level := .info, source := "hoistwalk::commands::free", message := "collected free references",
    details := [("files", .count files), ("references", .count references)] }

/-- The scopes of all files were collected. -/
def collectedScopes (files : Nat) : Event :=
  { level := .info, source := "hoistwalk::commands::scopes", message := "collected scope summaries",
    details := [("files", .count files)] }

end Event

end EstreeScopes.Command
