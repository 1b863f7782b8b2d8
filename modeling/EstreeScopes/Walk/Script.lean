/-
This file gives transforms that are written as data. A script is a list of
actions on the node at hand; it ends early when an action removes the node or
refuses it, and otherwise gives the node that the last action left.
-/

import EstreeScopes.Walk.Table

namespace EstreeScopes

/-- An action on the node at hand. -/
inductive Action where
  /-- Walks one field of the node. -/
  | walkSlot (slot : String)
  /-- Walks the nodes below the node. -/
  | descend
  /-- Walks the nodes below the node inside one more frame with these names. -/
  | descendUnder (names : List String)
  /-- Walks the nodes below the node under another table of scripts. -/
  | descendWith (scripts : List (Kind × List Action))
  /-- Puts a field into the node. -/
  | set (slot : String) (field : Field Node)
  /-- Goes on with an identifier whose name is the node's name and a suffix. -/
  | rename (suffix : String)
  /-- Goes on with another node. -/
  | replace (node : Node)
  /-- Goes on with a node of some kind that holds the node at hand. -/
  | wrap (kind : Kind) (slot : String)
  /-- Goes on with what a walk of the node in a field gives; removes the node if it gives none. -/
  | rewalk (slot : String)
  /-- The same, with the walk starting in an empty frame. -/
  | rewalkAtRoot (slot : String)
  /-- Removes the node. -/
  | remove
  /-- Refuses the node. -/
  | refuse (reason : String)
  /-- Refuses the node if it has that name. -/
  | refuseNamed (name : String)
  /-- Removes the node if it has that name. -/
  | removeNamed (name : String)

namespace Action

/-- How deeply the visits of scripted walks may nest. -/
def budget : Nat := 1000000

/-- Visits a node that may be missing. -/
def revisit (walker : Walker) (env : Env) : Option Node → Run (Option Node)
  | none => pure none
  | some node => walker.visit env node

mutual

/-- Runs one action; no node means that the node at hand is removed. -/
def run : Action → Transform
  | .walkSlot slot, walker, env, node => do return some (← walker.walkSlot env node slot)
  | .descend, walker, env, node => do return some (← walker.descend env node)
  | .descendUnder names, walker, env, node => do
    return some (← walker.descend (env.child.declareAll names) node)
  | .descendWith scripts, walker, env, node => do
    return some (← ((Table.ofList (transforms scripts)).walker walker.budget).descend env node)
  | .set slot field, _, _, node => pure (some (node.set slot field))
  | .rename suffix, _, _, node => pure (some (.identifier (node.name?.getD "" ++ suffix)))
  | .replace other, _, _, _ => pure (some other)
  | .wrap kind slot, _, _, node => pure (some ((Node.ofKind kind).set slot (.node node)))
  | .rewalk slot, walker, env, node => revisit walker env (node.child? slot)
  | .rewalkAtRoot slot, walker, _, node => revisit walker .root (node.child? slot)
  | .remove, _, _, _ => pure none
  | .refuse reason, _, _, _ => .fail (.refused reason)
  | .refuseNamed name, _, _, node =>
    if node.name? = some name then .fail (.refused ("refused " ++ name)) else pure (some node)
  | .removeNamed name, _, _, node => pure (if node.name? = some name then none else some node)

/-- Runs actions one after the other. -/
def runAll : List Action → Transform
  | [], _, _, node => pure (some node)
  | action :: rest, walker, env, node => do
    match ← run action walker env node with
    | none => return none
    | some node => runAll rest walker env node

/-- The transforms that scripts stand for. -/
def transforms : List (Kind × List Action) → List (Kind × Transform)
  | [] => []
  | (kind, actions) :: rest =>
    (kind, fun walker env node => runAll actions walker env node) :: transforms rest

end

end Action

namespace Table

/-- The table of the given scripts. -/
def ofScripts (scripts : List (Kind × List Action)) : Table :=
  ofList (Action.transforms scripts)

end Table

end EstreeScopes
