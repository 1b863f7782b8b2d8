/-
This file gives the trees: a node is a kind and an ordered map of named fields. A
field holds nothing, one node, a list of nodes with holes, or a plain value such
as a name, a flag or a position. The file holds the ways of looking at a node and
of changing one field of it, the size of a node, which every child is below, and
sameness of trees.
-/

import EstreeScopes.Json.Value
import EstreeScopes.Kind

namespace EstreeScopes

/-- What a node holds under one name, with nodes of type `α`. -/
inductive Field (α : Type) where
  | absent
  | node (node : α)
  | list (items : List (Option α))
  | value (value : Json.Value)
deriving Inhabited

namespace Field

variable {α : Type}

/-- Whether a field holds nothing. -/
def isAbsent : Field α → Bool
  | .absent => true
  | _ => false

/-- The nodes of a field, without the holes. -/
def nodes : Field α → List α
  | .node child => [child]
  | .list items => items.filterMap id
  | .absent | .value _ => []

/-- A field for one node or nothing. -/
def ofOption : Option α → Field α
  | some child => .node child
  | none => .absent

/-- A field for a plain value; the null value is nothing. -/
def ofValue : Json.Value → Field α
  | .null => .absent
  | plain => .value plain

/-- A field for a text. -/
def ofText (text : String) : Field α := .value (.string text)

/-- A field for a flag. -/
def ofBool (flag : Bool) : Field α := .value (.bool flag)

end Field

/-- A tree node. -/
structure Node where
  kind : Kind
  fields : List (String × Field Node)
deriving Inhabited

namespace Node

/-! ### Looking at a node -/

/-- The field of that name. -/
def get? (node : Node) (slot : String) : Option (Field Node) :=
  Entries.find? node.fields slot

/-- The field of that name; a name that the node lacks holds nothing. -/
def field (node : Node) (slot : String) : Field Node :=
  (node.get? slot).getD .absent

/-- The node in a field for one node. -/
def child? (node : Node) (slot : String) : Option Node :=
  match node.get? slot with
  | some (.node child) => some child
  | _ => none

/-- The items of a list field. -/
def items? (node : Node) (slot : String) : Option (List (Option Node)) :=
  match node.get? slot with
  | some (.list items) => some items
  | _ => none

/-- The plain value of a field. -/
def value? (node : Node) (slot : String) : Option Json.Value :=
  match node.get? slot with
  | some (.value value) => some value
  | _ => none

/-- The name that an identifier carries. -/
def name? (node : Node) : Option String :=
  (node.value? "name").bind Json.Value.toText?

/-- A flag of a node; a flag that is missing is false. -/
def flag (node : Node) (slot : String) : Bool :=
  ((node.value? slot).bind Json.Value.toBool?).getD false

/-- Where a node starts and ends in the source text. -/
def span? (node : Node) : Option (Nat × Nat) := do
  let start ← (node.value? "start").bind Json.Value.toNat?
  let stop ← (node.value? "end").bind Json.Value.toNat?
  return (start, stop)

/-- The names of the fields, in order. -/
def slots (node : Node) : List String :=
  Entries.names node.fields

/-- The nodes directly below a node, in the order of the fields. -/
def children (node : Node) : List Node :=
  node.fields.flatMap fun (_, field) => field.nodes

/-! ### Building and changing a node -/

/-- A node without fields. -/
def ofKind (kind : Kind) : Node := { kind, fields := [] }

/-- Puts a field in place. A name that the node lacks comes last, unless nothing is put there. -/
def set (node : Node) (slot : String) (field : Field Node) : Node :=
  match node.get? slot, field with
  | none, .absent => node
  | _, _ => { node with fields := Entries.put node.fields slot field }

/-- Moves a field out of a node and leaves nothing in its place. -/
def take (node : Node) (slot : String) : Field Node × Node :=
  (node.field slot, node.set slot .absent)

/-- An identifier. -/
def identifier (name : String) : Node :=
  (ofKind .identifier).set "name" (.ofText name)

/-! ### Size -/

mutual

/-- The size of a node counts its fields, their items and the nodes below. -/
def size : Node → Nat
  | ⟨_, fields⟩ => 1 + fieldsSize fields

/-- The size of the fields of a node. -/
def fieldsSize : List (String × Field Node) → Nat
  | [] => 0
  | (_, field) :: rest => 1 + fieldSize field + fieldsSize rest

/-- The size of a field. -/
def fieldSize : Field Node → Nat
  | .node child => 1 + child.size
  | .list items => 1 + itemsSize items
  | .absent | .value _ => 0

/-- The size of the items of a list. -/
def itemsSize : List (Option Node) → Nat
  | [] => 0
  | none :: rest => 1 + itemsSize rest
  | some child :: rest => 1 + child.size + itemsSize rest

end

theorem fieldSize_lt_of_mem {fields : List (String × Field Node)} {slot : String}
    {field : Field Node} (member : (slot, field) ∈ fields) :
    fieldSize field < fieldsSize fields := by
  induction fields with
  | nil => cases member
  | cons entry rest inductionHypothesis =>
    obtain ⟨name, first⟩ := entry
    rw [fieldsSize]
    rcases List.mem_cons.mp member with equal | later
    · injection equal with _ equalField
      subst equalField
      omega
    · have := inductionHypothesis later
      omega

theorem size_lt_of_mem_items {items : List (Option Node)} {child : Node}
    (member : some child ∈ items) : child.size < itemsSize items := by
  induction items with
  | nil => cases member
  | cons item rest inductionHypothesis =>
    rcases List.mem_cons.mp member with equal | later
    · subst equal
      rw [itemsSize]
      omega
    · have := inductionHypothesis later
      cases item <;> simp only [itemsSize] <;> omega

theorem size_lt_of_mem_nodes {field : Field Node} {child : Node} (member : child ∈ field.nodes) :
    child.size < fieldSize field := by
  cases field with
  | absent => cases member
  | value plain => cases member
  | node only =>
    obtain rfl := List.mem_singleton.mp member
    rw [fieldSize]
    omega
  | list items =>
    obtain ⟨item, itemMember, equal⟩ := List.mem_filterMap.mp member
    obtain rfl : item = some child := equal
    have := size_lt_of_mem_items itemMember
    rw [fieldSize]
    omega

/-- A field is smaller than its node. -/
theorem fieldSize_lt_size (node : Node) (slot : String) :
    fieldSize (node.field slot) < node.size := by
  obtain ⟨kind, fields⟩ := node
  unfold field get?
  cases found : Entries.find? fields slot with
  | none =>
    simp only [Option.getD_none, fieldSize, size]
    omega
  | some held =>
    have := fieldSize_lt_of_mem (Entries.mem_of_find? found)
    simp only [Option.getD_some, size]
    omega

/-- A node directly below another is smaller. -/
theorem size_lt_of_mem_children {node child : Node} (member : child ∈ node.children) :
    child.size < node.size := by
  obtain ⟨kind, fields⟩ := node
  obtain ⟨⟨slot, held⟩, entryMember, nodeMember⟩ := List.mem_flatMap.mp member
  have fieldBound : fieldSize held < fieldsSize fields := fieldSize_lt_of_mem entryMember
  have nodeBound := size_lt_of_mem_nodes nodeMember
  rw [size]
  omega

/-- A node in a field for one node is one of the nodes directly below. -/
theorem mem_children_of_child? {node child : Node} {slot : String}
    (found : node.child? slot = some child) : child ∈ node.children := by
  unfold child? at found
  split at found
  · rename_i held gotten
    injection found with equal
    subst equal
    exact List.mem_flatMap.mpr ⟨_, Entries.mem_of_find? gotten, List.mem_singleton.mpr rfl⟩
  · cases found

/-! ### Sameness -/

mutual

/-- Two trees are the same: equal kinds, and the same fields in the same order. -/
def same : Node → Node → Bool
  | ⟨firstKind, firstFields⟩, ⟨secondKind, secondFields⟩ =>
    firstKind == secondKind && sameFields firstFields secondFields

/-- The fields of two nodes are the same, one by one. -/
def sameFields : List (String × Field Node) → List (String × Field Node) → Bool
  | [], [] => true
  | (firstName, first) :: firsts, (secondName, second) :: seconds =>
    firstName == secondName && sameField first second && sameFields firsts seconds
  | _, _ => false

/-- Two fields hold the same. -/
def sameField : Field Node → Field Node → Bool
  | .absent, .absent => true
  | .node first, .node second => same first second
  | .list first, .list second => sameItems first second
  | .value first, .value second => first.same second
  | _, _ => false

/-- The items of two lists are the same, hole by hole and node by node. -/
def sameItems : List (Option Node) → List (Option Node) → Bool
  | [], [] => true
  | none :: firsts, none :: seconds => sameItems firsts seconds
  | some first :: firsts, some second :: seconds => same first second && sameItems firsts seconds
  | _, _ => false

end

end Node

end EstreeScopes
