/-
This file says what a walk does at one node, given how nodes below it are
visited. The visits are an argument, a walker, so nothing here recurses through
the tree except along a pattern: a parameter or a caught exception is walked
part by part, and its identifiers are declared in the frame of the scope they
belong to while the walk goes on.

A slot of a rule is checked when the walk reaches it: by then every slot before
it has been walked.
-/

import EstreeScopes.Binding
import EstreeScopes.Walk.Run

namespace EstreeScopes

/-- A way of visiting nodes: the kinds that are handed to transforms, what a visit does, and how
many visits may still nest. -/
structure Walker where
  intercepts : Kind → Bool
  visit : Env → Node → Run (Option Node)
  budget : Nat

namespace Walker

/-! ### Fields -/

/-- Visits the nodes of a list; holes stay holes, and a removed node leaves one. -/
def visitItems (walker : Walker) (env : Env) : List (Option Node) → Run (List (Option Node))
  | [] => pure []
  | none :: rest => do
    let walkedRest ← walker.visitItems env rest
    return none :: walkedRest
  | some child :: rest => do
    let walked ← walker.visit env child
    let walkedRest ← walker.visitItems env rest
    return walked :: walkedRest

/-- Visits the nodes of a field, whatever it holds. -/
def visitField (walker : Walker) (env : Env) : Field Node → Run (Field Node)
  | .node child => do return .ofOption (← walker.visit env child)
  | .list items => do return .list (← walker.visitItems env items)
  | .absent => pure .absent
  | .value plain => pure (.value plain)

/-- Visits the nodes of a field that must hold what a slot asks for. -/
def visitSlotField (walker : Walker) (env : Env) (kind : Kind) (slot : Slot) (field : Field Node) :
    Run (Field Node) :=
  match slot.arity, field with
  | .node, .absent => pure .absent
  | .node, .node child => do return .ofOption (← walker.visit env child)
  | .list, .list items => do return .list (← walker.visitItems env items)
  | _, _ => .fail (.malformed kind slot)

/-- Walks one field of a node, whatever it holds. -/
def walkSlot (walker : Walker) (env : Env) (node : Node) (slot : String) : Run Node := do
  return node.set slot (← walker.visitField env (node.field slot))

/-- Walks one field of a node that must hold what the slot asks for. -/
def walkRuleSlot (walker : Walker) (env : Env) (node : Node) (slot : Slot) : Run Node := do
  return node.set slot.name (← walker.visitSlotField env node.kind slot (node.field slot.name))

/-- Walks fields of a node one after the other, whatever they hold. -/
def walkSlots (walker : Walker) (env : Env) : List String → Node → Run Node
  | [], node => pure node
  | slot :: rest, node => do
    let walked ← walker.walkSlot env node slot
    walker.walkSlots env rest walked

/-- Walks the slots of a rule one after the other. -/
def walkRuleSlots (walker : Walker) (env : Env) : List Slot → Node → Run Node
  | [], node => pure node
  | slot :: rest, node => do
    let walked ← walker.walkRuleSlot env node slot
    walker.walkRuleSlots env rest walked

/-! ### Patterns -/

mutual

/-- Walks a pattern. The frame that the pattern declares its names in is threaded through; default
values and keys are walked under the environment around the scope. A pattern that a transform
intercepts declares its names first, and a part that is no pattern is visited inside the scope. -/
def walkPattern (walker : Walker) (outer scope : Env) (pattern : Node) :
    Run (Env × Option Node) :=
  if walker.intercepts pattern.kind then do
    let declared := scope.declareAll pattern.boundNames
    return (declared, ← walker.visit declared pattern)
  else
    match pattern.kind with
    | .identifier => pure (scope.declareAll pattern.name?.toList, some pattern)
    | .assignmentPattern => do
      let (scope, left) ← walkPatternField walker outer scope .assignmentPattern (.node "left")
        (pattern.field "left")
      let right ← walker.visitSlotField outer .assignmentPattern (.node "right")
        (pattern.field "right")
      return (scope, some ((pattern.set "left" left).set "right" right))
    | .restElement => do
      let (scope, argument) ← walkPatternField walker outer scope .restElement (.node "argument")
        (pattern.field "argument")
      return (scope, some (pattern.set "argument" argument))
    | .property => do
      let renamed := (pattern.child? "value").any fun value => value.kind.isPattern
      let scope := if renamed then scope else scope.declareAll (pattern.boundNamesOf "key")
      let key ← walker.visitSlotField outer .property (.node "key") (pattern.field "key")
      let (scope, value) ← walkPatternField walker outer scope .property (.node "value")
        (pattern.field "value")
      return (scope, some ((pattern.set "key" key).set "value" value))
    | .objectPattern => do
      let (scope, properties) ← walkPatternField walker outer scope .objectPattern
        (.list "properties") (pattern.field "properties")
      return (scope, some (pattern.set "properties" properties))
    | .arrayPattern => do
      let (scope, elements) ← walkPatternField walker outer scope .arrayPattern
        (.list "elements") (pattern.field "elements")
      return (scope, some (pattern.set "elements" elements))
    | _ => do return (scope, ← walker.visit scope pattern)
termination_by pattern.size
decreasing_by all_goals exact Node.fieldSize_lt_size pattern _

/-- Walks the patterns of a field that must hold what a slot asks for. -/
def walkPatternField (walker : Walker) (outer scope : Env) (kind : Kind) (slot : Slot)
    (field : Field Node) : Run (Env × Field Node) :=
  match slot.arity, field with
  | .node, .absent => pure (scope, .absent)
  | .node, .node child => do
    let (scope, walked) ← walkPattern walker outer scope child
    return (scope, .ofOption walked)
  | .list, .list items => do
    let (scope, walked) ← walkPatternItems walker outer scope items
    return (scope, .list walked)
  | _, _ => .fail (.malformed kind slot)
termination_by Node.fieldSize field
decreasing_by all_goals simp only [Node.fieldSize, wfParam]; omega

/-- Walks the patterns of a list, from left to right. -/
def walkPatternItems (walker : Walker) (outer scope : Env) (items : List (Option Node)) :
    Run (Env × List (Option Node)) :=
  match items with
  | [] => pure (scope, [])
  | none :: rest => do
    let (scope, walkedRest) ← walkPatternItems walker outer scope rest
    return (scope, none :: walkedRest)
  | some child :: rest => do
    let (scope, walked) ← walkPattern walker outer scope child
    let (scope, walkedRest) ← walkPatternItems walker outer scope rest
    return (scope, walked :: walkedRest)
termination_by Node.itemsSize items
decreasing_by all_goals simp only [Node.itemsSize]; omega

end

/-- Walks the patterns in a slot of a node and gives the frame that holds their names. -/
def walkPatternSlot (walker : Walker) (outer scope : Env) (node : Node) (slot : Slot) :
    Run (Env × Node) := do
  let (scope, field) ← walker.walkPatternField outer scope node.kind slot (node.field slot.name)
  return (scope, node.set slot.name field)

/-! ### Scopes -/

/-- Walks the body of a scope, once its frame holds the names of the scope. -/
def walkBody (walker : Walker) (scope : Env) (node : Node) (slot : Slot) : Run Node := do
  Run.record (.entered node.kind scope.names)
  walker.walkRuleSlot scope node slot

/-- Walks the nodes below a node as the rule of its kind says. -/
def descend (walker : Walker) (env : Env) (node : Node) : Run Node :=
  match node.kind.rule with
  | none => pure node
  | some (.slots slots) => walker.walkRuleSlots env slots node
  | some .children => walker.walkSlots env node.slots node
  | some .program =>
    walker.walkBody (env.child.declareAll node.hoistedNames) node .programBody
  | some .function => do
    let node ← walker.walkRuleSlot env node .functionId
    let scope := env.child.declareAll (node.hoistedNamesOf "body")
    let (scope, node) ← walker.walkPatternSlot env scope node .functionParams
    walker.walkBody scope node .functionBody
  | some .catchClause => do
    let scope := env.child.declareAll node.hoistedNames
    let (scope, node) ← walker.walkPatternSlot env scope node .catchParam
    walker.walkBody scope node .catchBody

end Walker

end EstreeScopes
