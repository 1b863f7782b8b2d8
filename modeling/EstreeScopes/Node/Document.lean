/-
This file relates trees and documents. A document value is a node when it is an
object whose `type` is a string; nothing below it can change that. Its other
members become fields: null becomes nothing, a typed object a node, an array of
typed objects and nulls a list, and everything else stays a plain value. A tree
is written back with its kind first and its fields in order.
-/

import EstreeScopes.Explanation
import EstreeScopes.Json.Reader
import EstreeScopes.Json.Writer
import EstreeScopes.Node

namespace EstreeScopes

open Json (Value)

/-! ### From a value to a tree -/

/-- The member that carries the kind of a node. -/
def typeKey : String := "type"

/-- The kind that the members of a typed object name. -/
def typeName? (members : List (String × Value)) : Option String :=
  (Entries.find? members typeKey).bind Value.toText?

/-- Whether an array item can be an item of a list of nodes. -/
def isNodeOrNull : Value → Bool
  | .null => true
  | .object members => (typeName? members).isSome
  | _ => false

namespace Node

mutual

/-- The node that a value stands for; only typed objects are nodes. -/
def ofValue? : Value → Option Node
  | .object members =>
    match typeName? members with
    | some name => some { kind := .ofName name, fields := ofMembers members }
    | none => none
  | _ => none

/-- The fields that the members of a typed object stand for. -/
def ofMembers : List (String × Value) → List (String × Field Node)
  | [] => []
  | (name, value) :: rest =>
    if name = typeKey then ofMembers rest else (name, fieldOfValue value) :: ofMembers rest

/-- The field that a member stands for. -/
def fieldOfValue : Value → Field Node
  | .null => .absent
  | .object members =>
    match typeName? members with
    | some name => .node { kind := .ofName name, fields := ofMembers members }
    | none => .value (.object members)
  | .array items => if items.all isNodeOrNull then .list (ofItems items) else .value (.array items)
  | plain => .value plain

/-- The items that the items of an array stand for. Null is no node, so it becomes a hole. -/
def ofItems : List Value → List (Option Node)
  | [] => []
  | item :: rest => ofValue? item :: ofItems rest

end

/-! ### From a tree to a value -/

mutual

/-- The value of a tree: its kind first, then its fields. -/
def toValue : Node → Value
  | ⟨kind, fields⟩ => .object ((typeKey, .string kind.name) :: toMembers fields)

/-- The members that the fields of a node are written as. -/
def toMembers : List (String × Field Node) → List (String × Value)
  | [] => []
  | (name, field) :: rest => (name, fieldToValue field) :: toMembers rest

/-- The value that a field is written as. -/
def fieldToValue : Field Node → Value
  | .absent => .null
  | .node child => toValue child
  | .list items => .array (toItems items)
  | .value plain => plain

/-- The items that the items of a list are written as. -/
def toItems : List (Option Node) → List Value
  | [] => []
  | none :: rest => .null :: toItems rest
  | some child :: rest => toValue child :: toItems rest

end

end Node

/-! ### Texts -/

/-- Why a text is no tree: it is no document, or the document is no node. -/
inductive TreeError where
  | notDocument
  | notNode
deriving DecidableEq

namespace TreeError

/-- What a person is told. That a text is no document is explained by the reader of documents. -/
def message (error : TreeError) (explanation : Option String := none) : String :=
  match error with
  | .notDocument => explained "Invalid JSON" explanation
  | .notNode => "Expected an ESTree node object with a string `type` field"

end TreeError

namespace Node

/-- The tree that a text writes, of any nesting. The text is checked to its end before the value
is looked at. -/
def ofText (text : String) : Except TreeError Node :=
  match Value.ofText? text with
  | none => .error .notDocument
  | some value =>
    match ofValue? value with
    | none => .error .notNode
    | some node => .ok node

/-- How many arrays and objects may be nested in each other where nesting is bounded. -/
def nestingLimit : Nat := 127

/-- The tree that a text writes, of bounded nesting. The value is looked at before the rest of the
text, so a text that goes on after a value that is no node is refused for the value. -/
def ofNestedText (text : String) : Except TreeError Node :=
  match Json.Reader.value text.length nestingLimit text.toList with
  | none => .error .notDocument
  | some (value, rest) =>
    match ofValue? value with
    | none => .error .notNode
    | some node => if Json.Reader.isAtEnd rest then .ok node else .error .notDocument

/-- The text of a tree, on one line. -/
def text (node : Node) : String :=
  node.toValue.compactText

/-- The text of a field, on one line. -/
def fieldText (field : Field Node) : String :=
  (fieldToValue field).compactText

end Node

end EstreeScopes
