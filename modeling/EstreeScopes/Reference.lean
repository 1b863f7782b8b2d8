/-
This file finds the free references of a tree: the identifiers that stand for a
variable which no scope around them declares. They are the identifiers that a
walk hands over under an environment without their name. The table of the walk
keeps it away from identifiers that are no references: static property names and
keys, labels, imported and re-exported names. It also adds the frames that the
walk itself does not know of: the own name of a function or class expression, and
`arguments` in a function.
-/

import EstreeScopes.Walk.Table

namespace EstreeScopes

/-- An identifier that stands for a variable. -/
structure Reference where
  name : String
  span : Option (Nat × Nat)
deriving DecidableEq

namespace Reference

/-- Names that are known from elsewhere, and names that are not to be reported. -/
structure Options where
  globals : List String
  ignored : List String
deriving DecidableEq

/-! ### The table -/

/-- Leaves a node alone. -/
def leave : Transform := fun _ _ node => pure (some node)

/-- Walks one field. -/
def only (slot : String) : Transform := fun walker env node => do
  return some (← walker.walkSlot env node slot)

/-- The object of a member expression is a reference; the property is one only when computed. -/
def member : Transform := fun walker env node => do
  let node ← walker.walkSlot env node "object"
  if node.flag "computed" then return some (← walker.walkSlot env node "property")
  else return some node

/-- The key of a property or a class member is a reference only when computed. -/
def keyed : Transform := fun walker env node => do
  let node ← if node.flag "computed" then walker.walkSlot env node "key" else pure node
  return some (← walker.walkSlot env node "value")

/-- The specifiers of an export from another module name nothing here. -/
def exported : Transform := fun walker env node => do
  if (node.child? "source").isSome then return some (← walker.walkSlot env node "declaration")
  else return some (← walker.descend env node)

/-- A function or class expression is visible to itself, and a function sees `arguments`. -/
def ownNames (node : Node) : List String :=
  (if node.kind = .functionDeclaration then [] else ((node.child? "id").bind Node.name?).toList) ++
    (if node.kind.isFunction then ["arguments"] else [])

/-- Walks a function or class inside a frame with the names it brings itself. -/
def named : Transform := fun walker env node => do
  return some (← walker.descend (env.child.declareAll (ownNames node)) node)

/-- What is done at each kind of node on the way to the references. -/
def table : Table :=
  .ofList
    [ (.identifier, leave), (.memberExpression, member), (.property, keyed),
      (.methodDefinition, keyed), (.propertyDefinition, keyed), (.classProperty, keyed),
      (.labeledStatement, only "body"), (.breakStatement, leave), (.continueStatement, leave),
      (.importDeclaration, leave), (.exportAllDeclaration, leave),
      (.exportNamedDeclaration, exported), (.exportSpecifier, only "local"),
      (.functionDeclaration, named), (.functionExpression, named), (.classExpression, named) ]

/-! ### The references -/

/-- The walk that finds the references of a tree. Visits nest no deeper than the tree. -/
def search (options : Options) (tree : Node) : Run (Option Node) :=
  table.walk (tree.size + 1) (some (.ofNames options.globals)) (some tree)

/-- The free reference that a step of the walk shows. -/
def ofStep? (options : Options) : Step → Option Reference
  | .intercepted env node =>
    if node.kind = .identifier then
      node.name?.bind fun name =>
        if env.contains name || options.ignored.contains name then none
        else some { name, span := node.span? }
    else none
  | .entered _ _ => none

end Reference

/-- The free references of a tree, in the order in which the walk meets them. -/
def Node.freeReferences (options : Reference.Options) (tree : Node) :
    Except Fault (List Reference) :=
  let run := Reference.search options tree
  run.outcome.map fun _ => run.log.filterMap (Reference.ofStep? options)

end EstreeScopes
