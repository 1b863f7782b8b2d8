/-
This file gives the tables of transforms and the walk under a table. A node whose
kind is in the table is handed to its transform, together with the environment
around it and a walker to go on with; every other node is walked as its rule
says. A transform may go on as it likes, so the nesting of visits is bounded by a
budget. A table whose transforms do not go on needs no more than the size of the
tree.
-/

import EstreeScopes.Text.Quoted
import EstreeScopes.Walk.Walker

namespace EstreeScopes

/-- What is done with a node of some kind: it is replaced, removed or refused, and on the way the
walker may visit other nodes. The answer depends on the walker, the environment and the node alone:
a transform that keeps a state of its own from one node to the next, as a caller's may, is not one
of these. -/
abbrev Transform := Walker → Env → Node → Run (Option Node)

/-- Transforms by kind. -/
structure Table where
  transforms : List (Kind × Transform)

namespace Table

/-- The table without transforms. -/
def empty : Table := { transforms := [] }

/-- The transform of a kind. -/
def find? (table : Table) (kind : Kind) : Option Transform :=
  (table.transforms.find? fun entry => entry.1 == kind).map Prod.snd

/-- Whether a kind has a transform. -/
def contains (table : Table) (kind : Kind) : Bool :=
  table.transforms.any fun entry => entry.1 == kind

/-- A table with one more transform, in place of an older one of the same kind. -/
def insert (table : Table) (kind : Kind) (transform : Transform) : Table :=
  if table.contains kind then
    { transforms := table.transforms.map fun entry =>
        if entry.1 == kind then (kind, transform) else entry }
  else { transforms := table.transforms ++ [(kind, transform)] }

/-- The table of the given transforms, later ones replacing earlier ones of the same kind. -/
def ofList (entries : List (Kind × Transform)) : Table :=
  entries.foldl (fun table (kind, transform) => table.insert kind transform) empty

/-- How many kinds have a transform. -/
def size (table : Table) : Nat := table.transforms.length

/-- The kinds of a table in braces. A kind outside the schema is shown as one, with its name. -/
def summary (table : Table) : String :=
  let shown : Kind → String
    | .other name => "Other(" ++ Text.quoted name ++ ")"
    | kind => kind.name
  "\x7b" ++ ", ".intercalate (table.transforms.map fun entry => shown entry.1) ++ "\x7d"

/-! ### The walk -/

/-- Visits a node: a transform takes it, or its rule is followed. -/
def visit (table : Table) : Nat → Env → Node → Run (Option Node)
  | 0, _, _ => .fail .exhausted
  | budget + 1, env, node =>
    let walker : Walker :=
      { intercepts := table.contains, visit := fun env node => table.visit budget env node, budget }
    match table.find? node.kind with
    | some transform => do
      Run.record (.intercepted env node)
      transform walker env node
    | none => do return some (← walker.descend env node)

/-- The walker of a table. -/
def walker (table : Table) (budget : Nat) : Walker :=
  { intercepts := table.contains, visit := table.visit budget, budget }

/-- A visit either hands the node over or follows its rule. -/
theorem visit_succ (table : Table) (budget : Nat) (env : Env) (node : Node) :
    table.visit (budget + 1) env node =
      match table.find? node.kind with
      | some transform => do
        Run.record (.intercepted env node)
        transform (table.walker budget) env node
      | none => do return some (← (table.walker budget).descend env node) := rfl

/-- Walks a tree, if there is one, under an environment; without one the walk starts in an empty
frame. -/
def walk (table : Table) (budget : Nat) (env : Option Env) : Option Node → Run (Option Node)
  | none => pure none
  | some node => table.visit budget (env.getD .root) node

end Table

end EstreeScopes
