/-
This file gives the kinds of tree nodes. A kind is one of the closed schema of the
ESTree format, or any other name, which is kept as it is. A kind is written in a
document by its name, and every name is the name of exactly one kind that reading
can produce.
-/

namespace EstreeScopes

/-- The kind of a tree node. -/
inductive Kind where
  | program
  | variableDeclaration
  | variableDeclarator
  | functionDeclaration
  | classDeclaration
  | identifier
  | privateIdentifier
  | literal
  | thisExpression
  | super
  | metaProperty
  | arrayExpression
  | objectExpression
  | property
  | functionExpression
  | arrowFunctionExpression
  | classExpression
  | classBody
  | methodDefinition
  | propertyDefinition
  | classProperty
  | sequenceExpression
  | unaryExpression
  | updateExpression
  | binaryExpression
  | logicalExpression
  | assignmentExpression
  | conditionalExpression
  | callExpression
  | newExpression
  | memberExpression
  | chainExpression
  | parenthesizedExpression
  | importExpression
  | awaitExpression
  | yieldExpression
  | spreadElement
  | templateLiteral
  | templateElement
  | taggedTemplateExpression
  | objectPattern
  | arrayPattern
  | restElement
  | assignmentPattern
  | expressionStatement
  | blockStatement
  | emptyStatement
  | debuggerStatement
  | returnStatement
  | throwStatement
  | breakStatement
  | continueStatement
  | labeledStatement
  | ifStatement
  | switchStatement
  | switchCase
  | whileStatement
  | doWhileStatement
  | forStatement
  | forInStatement
  | forOfStatement
  | tryStatement
  | catchClause
  | importDeclaration
  | importSpecifier
  | importDefaultSpecifier
  | importNamespaceSpecifier
  | exportNamedDeclaration
  | exportDefaultDeclaration
  | exportAllDeclaration
  | exportSpecifier
  | other (name : String)
deriving DecidableEq, Inhabited

namespace Kind

/-- The name under which a kind stands in a document. -/
def name : Kind → String
  | .program => "Program"
  | .variableDeclaration => "VariableDeclaration"
  | .variableDeclarator => "VariableDeclarator"
  | .functionDeclaration => "FunctionDeclaration"
  | .classDeclaration => "ClassDeclaration"
  | .identifier => "Identifier"
  | .privateIdentifier => "PrivateIdentifier"
  | .literal => "Literal"
  | .thisExpression => "ThisExpression"
  | .super => "Super"
  | .metaProperty => "MetaProperty"
  | .arrayExpression => "ArrayExpression"
  | .objectExpression => "ObjectExpression"
  | .property => "Property"
  | .functionExpression => "FunctionExpression"
  | .arrowFunctionExpression => "ArrowFunctionExpression"
  | .classExpression => "ClassExpression"
  | .classBody => "ClassBody"
  | .methodDefinition => "MethodDefinition"
  | .propertyDefinition => "PropertyDefinition"
  | .classProperty => "ClassProperty"
  | .sequenceExpression => "SequenceExpression"
  | .unaryExpression => "UnaryExpression"
  | .updateExpression => "UpdateExpression"
  | .binaryExpression => "BinaryExpression"
  | .logicalExpression => "LogicalExpression"
  | .assignmentExpression => "AssignmentExpression"
  | .conditionalExpression => "ConditionalExpression"
  | .callExpression => "CallExpression"
  | .newExpression => "NewExpression"
  | .memberExpression => "MemberExpression"
  | .chainExpression => "ChainExpression"
  | .parenthesizedExpression => "ParenthesizedExpression"
  | .importExpression => "ImportExpression"
  | .awaitExpression => "AwaitExpression"
  | .yieldExpression => "YieldExpression"
  | .spreadElement => "SpreadElement"
  | .templateLiteral => "TemplateLiteral"
  | .templateElement => "TemplateElement"
  | .taggedTemplateExpression => "TaggedTemplateExpression"
  | .objectPattern => "ObjectPattern"
  | .arrayPattern => "ArrayPattern"
  | .restElement => "RestElement"
  | .assignmentPattern => "AssignmentPattern"
  | .expressionStatement => "ExpressionStatement"
  | .blockStatement => "BlockStatement"
  | .emptyStatement => "EmptyStatement"
  | .debuggerStatement => "DebuggerStatement"
  | .returnStatement => "ReturnStatement"
  | .throwStatement => "ThrowStatement"
  | .breakStatement => "BreakStatement"
  | .continueStatement => "ContinueStatement"
  | .labeledStatement => "LabeledStatement"
  | .ifStatement => "IfStatement"
  | .switchStatement => "SwitchStatement"
  | .switchCase => "SwitchCase"
  | .whileStatement => "WhileStatement"
  | .doWhileStatement => "DoWhileStatement"
  | .forStatement => "ForStatement"
  | .forInStatement => "ForInStatement"
  | .forOfStatement => "ForOfStatement"
  | .tryStatement => "TryStatement"
  | .catchClause => "CatchClause"
  | .importDeclaration => "ImportDeclaration"
  | .importSpecifier => "ImportSpecifier"
  | .importDefaultSpecifier => "ImportDefaultSpecifier"
  | .importNamespaceSpecifier => "ImportNamespaceSpecifier"
  | .exportNamedDeclaration => "ExportNamedDeclaration"
  | .exportDefaultDeclaration => "ExportDefaultDeclaration"
  | .exportAllDeclaration => "ExportAllDeclaration"
  | .exportSpecifier => "ExportSpecifier"
  | .other name => name

/-- The kinds of the schema, in its order. -/
def schema : List Kind :=
  [ .program, .variableDeclaration, .variableDeclarator, .functionDeclaration,
    .classDeclaration, .identifier, .privateIdentifier, .literal, .thisExpression, .super,
    .metaProperty, .arrayExpression, .objectExpression, .property, .functionExpression,
    .arrowFunctionExpression, .classExpression, .classBody, .methodDefinition,
    .propertyDefinition, .classProperty, .sequenceExpression, .unaryExpression,
    .updateExpression, .binaryExpression, .logicalExpression, .assignmentExpression,
    .conditionalExpression, .callExpression, .newExpression, .memberExpression,
    .chainExpression, .parenthesizedExpression, .importExpression, .awaitExpression,
    .yieldExpression, .spreadElement, .templateLiteral, .templateElement,
    .taggedTemplateExpression, .objectPattern, .arrayPattern, .restElement, .assignmentPattern,
    .expressionStatement, .blockStatement, .emptyStatement, .debuggerStatement,
    .returnStatement, .throwStatement, .breakStatement, .continueStatement, .labeledStatement,
    .ifStatement, .switchStatement, .switchCase, .whileStatement, .doWhileStatement,
    .forStatement, .forInStatement, .forOfStatement, .tryStatement, .catchClause,
    .importDeclaration, .importSpecifier, .importDefaultSpecifier, .importNamespaceSpecifier,
    .exportNamedDeclaration, .exportDefaultDeclaration, .exportAllDeclaration,
    .exportSpecifier ]

/-- The kind of that name: the one of the schema, or another kind that keeps the name. -/
def ofName (name : String) : Kind :=
  (schema.find? fun kind => kind.name == name).getD (.other name)

/-- Whether a kind belongs to the schema. -/
def isKnown : Kind → Bool
  | .other _ => false
  | _ => true

/-- Whether nodes of a kind may stand where a pattern binds names. -/
def isPattern : Kind → Bool
  | .objectPattern | .arrayPattern | .assignmentPattern | .restElement | .identifier => true
  | _ => false

/-- Whether a kind is that of a function, declared or written as an expression. -/
def isFunction : Kind → Bool
  | .functionDeclaration | .functionExpression | .arrowFunctionExpression => true
  | _ => false

end Kind

end EstreeScopes
