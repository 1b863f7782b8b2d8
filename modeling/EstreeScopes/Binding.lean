/-
This file says which names a node binds. A pattern binds the names of the
identifiers it is made of, from left to right and with repeats. A default value
and the key of a renamed property bind nothing. A scope hoists the names of its
declarations: variables, functions, classes, imports and caught exceptions.
Functions and classes that are expressions are boundaries, and of a declared
function or class only its name is hoisted.

Both are stated through the parts of a node that the names come from. The parts
are nodes directly below, so the recursion ends.
-/

import EstreeScopes.Node

namespace EstreeScopes.Node

/-! ### Names that a pattern binds -/

/-- The parts of a pattern that bind names. -/
def bindingParts (pattern : Node) : List Node :=
  match pattern.kind with
  | .identifier => []
  | .assignmentPattern => (pattern.child? "left").toList
  | .restElement => (pattern.child? "argument").toList
  | .property =>
    match pattern.child? "value" with
    | some value => if value.kind.isPattern then [value] else (pattern.child? "key").toList
    | none => (pattern.child? "key").toList
  | _ => pattern.children

theorem mem_children_of_mem_toList {node part : Node} {slot : String}
    (member : part ∈ (node.child? slot).toList) : part ∈ node.children :=
  mem_children_of_child? (Option.mem_toList.mp member)

/-- The binding parts of a pattern are nodes directly below it. -/
theorem mem_children_of_mem_bindingParts {pattern part : Node}
    (member : part ∈ pattern.bindingParts) : part ∈ pattern.children := by
  unfold bindingParts at member
  split at member
  · cases member
  · exact mem_children_of_mem_toList member
  · exact mem_children_of_mem_toList member
  · split at member
    · rename_i value found
      split at member
      · obtain rfl := List.mem_singleton.mp member
        exact mem_children_of_child? found
      · exact mem_children_of_mem_toList member
    · exact mem_children_of_mem_toList member
  · exact member

/-- The names that a pattern binds, from left to right. Only identifiers carry names. -/
def boundNames (pattern : Node) : List String :=
  if pattern.kind = .identifier then pattern.name?.toList
  else pattern.bindingParts.attach.flatMap fun ⟨part, _⟩ => boundNames part
termination_by pattern.size
decreasing_by exact size_lt_of_mem_children (mem_children_of_mem_bindingParts (by assumption))

/-- Of an identifier the name, of everything else what its parts bind. -/
theorem boundNames_eq (pattern : Node) :
    pattern.boundNames =
      if pattern.kind = .identifier then pattern.name?.toList
      else pattern.bindingParts.flatMap boundNames := by
  rw [boundNames]
  split
  · rfl
  · simp

/-- The names that the node in a field binds. -/
def boundNamesOf (node : Node) (slot : String) : List String :=
  (node.child? slot).toList.flatMap boundNames

/-! ### Names that a scope hoists -/

/-- The parts of a node whose declarations are hoisted through it. -/
def hoistingParts (node : Node) : List Node :=
  match node.kind with
  | .variableDeclarator | .functionExpression | .arrowFunctionExpression | .classExpression
  | .functionDeclaration | .classDeclaration | .importSpecifier | .importDefaultSpecifier
  | .importNamespaceSpecifier => []
  | .catchClause => (node.child? "body").toList
  | _ => node.children

/-- The names that a node declares by itself. -/
def declaredNames (node : Node) : List String :=
  match node.kind with
  | .variableDeclarator => node.boundNamesOf "id"
  | .functionDeclaration | .classDeclaration => ((node.child? "id").bind name?).toList
  | .catchClause => node.boundNamesOf "param"
  | .importSpecifier | .importDefaultSpecifier | .importNamespaceSpecifier =>
    node.boundNamesOf "local"
  | _ => []

/-- The hoisting parts of a node are nodes directly below it. -/
theorem mem_children_of_mem_hoistingParts {node part : Node} (member : part ∈ node.hoistingParts) :
    part ∈ node.children := by
  unfold hoistingParts at member
  split at member
  case h_10 => exact mem_children_of_mem_toList member
  case h_11 => exact member
  all_goals cases member

/-- The names that are hoisted out of a node: those of its parts, then its own. -/
def hoistedNames (node : Node) : List String :=
  (node.hoistingParts.attach.flatMap fun ⟨part, _⟩ => hoistedNames part) ++ node.declaredNames
termination_by node.size
decreasing_by exact size_lt_of_mem_children (mem_children_of_mem_hoistingParts (by assumption))

/-- What the parts hoist comes before what the node declares itself. -/
theorem hoistedNames_eq (node : Node) :
    node.hoistedNames = node.hoistingParts.flatMap hoistedNames ++ node.declaredNames := by
  rw [hoistedNames]
  simp

/-- The names that are hoisted out of the node in a field. -/
def hoistedNamesOf (node : Node) (slot : String) : List String :=
  (node.child? slot).toList.flatMap hoistedNames

end EstreeScopes.Node
