/-
This file says how the walk goes below a node of each kind. Most kinds list the
slots to visit, in order, and what each must hold. A few kinds visit whatever
nodes they hold. Programs, functions and catch clauses open a scope and have
rules of their own. The remaining kinds are leaves.
-/

import EstreeScopes.Kind

namespace EstreeScopes

/-- What a slot must hold: one node or nothing, or a list of nodes. -/
inductive Arity where
  | node
  | list
deriving DecidableEq

/-- A slot of a rule. -/
structure Slot where
  name : String
  arity : Arity
deriving DecidableEq

namespace Slot

/-- A slot for one node or nothing. -/
def node (name : String) : Slot := { name, arity := .node }

/-- A slot for a list of nodes. -/
def list (name : String) : Slot := { name, arity := .list }

/-! The slots of the kinds that open a scope. -/

def programBody : Slot := .list "body"
def functionId : Slot := .node "id"
def functionParams : Slot := .list "params"
def functionBody : Slot := .node "body"
def catchParam : Slot := .node "param"
def catchBody : Slot := .node "body"

end Slot

/-- How the walk goes below a node. -/
inductive Rule where
  | slots (slots : List Slot)
  | children
  | program
  | function
  | catchClause
deriving DecidableEq

namespace Rule

/-- Whether a rule opens a scope. -/
def opensScope : Rule → Bool
  | .program | .function | .catchClause => true
  | .slots _ | .children => false

end Rule

/-- The rule of a kind. A kind without a rule is a leaf. -/
def Kind.rule : Kind → Option Rule
  | .program => some .program
  | .functionDeclaration | .functionExpression | .arrowFunctionExpression => some .function
  | .catchClause => some .catchClause
  | .chainExpression | .parenthesizedExpression | .awaitExpression | .importExpression =>
    some .children
  | .variableDeclaration => some (.slots [.list "declarations"])
  | .variableDeclarator => some (.slots [.node "id", .node "init"])
  | .sequenceExpression => some (.slots [.list "expressions"])
  | .objectPattern | .objectExpression => some (.slots [.list "properties"])
  | .arrayPattern | .arrayExpression => some (.slots [.list "elements"])
  | .blockStatement | .classBody => some (.slots [.list "body"])
  | .property | .methodDefinition | .propertyDefinition | .classProperty =>
    some (.slots [.node "key", .node "value"])
  | .classDeclaration | .classExpression =>
    some (.slots [.node "id", .node "superClass", .node "body"])
  | .breakStatement | .continueStatement => some (.slots [.node "label"])
  | .expressionStatement => some (.slots [.node "expression"])
  | .ifStatement | .conditionalExpression =>
    some (.slots [.node "test", .node "consequent", .node "alternate"])
  | .switchCase => some (.slots [.node "test", .list "consequent"])
  | .switchStatement => some (.slots [.node "discriminant", .list "cases"])
  | .throwStatement | .unaryExpression | .returnStatement | .restElement | .spreadElement
  | .yieldExpression | .updateExpression => some (.slots [.node "argument"])
  | .tryStatement => some (.slots [.node "block", .node "handler", .node "finalizer"])
  | .whileStatement | .doWhileStatement => some (.slots [.node "test", .node "body"])
  | .forStatement => some (.slots [.node "init", .node "test", .node "update", .node "body"])
  | .forInStatement | .forOfStatement =>
    some (.slots [.node "left", .node "right", .node "body"])
  | .binaryExpression | .logicalExpression | .assignmentPattern | .assignmentExpression =>
    some (.slots [.node "left", .node "right"])
  | .newExpression | .callExpression => some (.slots [.node "callee", .list "arguments"])
  | .labeledStatement => some (.slots [.node "label", .node "body"])
  | .memberExpression => some (.slots [.node "object", .node "property"])
  | .exportNamedDeclaration =>
    some (.slots [.node "declaration", .list "specifiers", .node "source"])
  | .exportDefaultDeclaration => some (.slots [.node "declaration"])
  | .exportAllDeclaration => some (.slots [.node "exported", .node "source"])
  | .exportSpecifier => some (.slots [.node "local", .node "exported"])
  | .importDeclaration => some (.slots [.list "specifiers", .node "source"])
  | .importSpecifier => some (.slots [.node "imported", .node "local"])
  | .importDefaultSpecifier | .importNamespaceSpecifier => some (.slots [.node "local"])
  | .templateLiteral => some (.slots [.list "quasis", .list "expressions"])
  | .taggedTemplateExpression => some (.slots [.node "tag", .node "quasi"])
  | .identifier | .privateIdentifier | .literal | .thisExpression | .super | .metaProperty
  | .templateElement | .emptyStatement | .debuggerStatement | .other _ => none

end EstreeScopes
