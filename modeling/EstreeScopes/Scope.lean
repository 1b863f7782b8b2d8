/-
This file lists the scopes of a tree: every program, function and catch clause,
outer ones before inner ones and in the order of the fields, with the names its
frame holds and the number of scopes around it.
-/

import EstreeScopes.Binding
import EstreeScopes.Env
import EstreeScopes.Rule

namespace EstreeScopes

/-- A scope of a tree. -/
structure Scope where
  kind : Kind
  span : Option (Nat × Nat)
  depth : Nat
  names : List String
deriving DecidableEq

namespace Node

/-- The names that the parameters of a function bind, from left to right. -/
def paramNames (node : Node) : List String :=
  (((node.items? "params").getD []).filterMap id).flatMap boundNames

/-- The names that a node declares in a frame of its own, with repeats, if it opens a scope. -/
def scopeNames? (node : Node) : Option (List String) :=
  match node.kind.rule with
  | some .program | some .catchClause => some node.hoistedNames
  | some .function => some (node.hoistedNamesOf "body" ++ node.paramNames)
  | _ => none

/-- The scope that a node opens. -/
def scope? (depth : Nat) (node : Node) : Option Scope :=
  node.scopeNames?.map fun names =>
    { kind := node.kind, span := node.span?, depth, names := addNames [] names }

/-- The scopes from a node on, with `depth` scopes around it. -/
def scopesAt (depth : Nat) (node : Node) : List Scope :=
  match node.scope? depth with
  | some scope => scope :: node.children.attach.flatMap fun ⟨child, _⟩ => scopesAt (depth + 1) child
  | none => node.children.attach.flatMap fun ⟨child, _⟩ => scopesAt depth child
termination_by node.size
decreasing_by all_goals exact size_lt_of_mem_children (by assumption)

/-- The scopes of a tree. -/
def scopes (tree : Node) : List Scope := tree.scopesAt 0

/-- The scope of a node comes before those of the nodes below it. -/
theorem scopesAt_eq (depth : Nat) (node : Node) :
    node.scopesAt depth =
      match node.scope? depth with
      | some scope => scope :: node.children.flatMap (scopesAt (depth + 1))
      | none => node.children.flatMap (scopesAt depth) := by
  rw [scopesAt]
  split <;> simp

end Node

end EstreeScopes
