/-
This file gives binding patterns as an abstract syntax: names, default values,
rests, arrays with holes, and objects with keyed, shorthand and rest members. The
names of a pattern stand in it from left to right. A default value and the key of
a keyed member are arbitrary nodes and contribute nothing, whatever names stand in
them.

Nodes encode a pattern when each of them is of the right kind and holds the parts
of the pattern, among any other fields that hold no nodes and in any order of the
fields. Whatever node encodes a pattern, the names that it binds are the names of
the pattern.
-/

import EstreeScopes.Proofs.Grammar

namespace EstreeScopes

/-! ### Patterns and their names -/

namespace Pattern

/-- A member of an object pattern, with patterns of type `α`: a key with a pattern as its value, a
key that stands for itself, or the rest. -/
inductive Member (α : Type) where
  | keyed (key : Node) (value : α)
  | shorthand (key : String)
  | rest (argument : α)

end Pattern

/-- A binding pattern. -/
inductive Pattern where
  | identifier (name : String)
  | withDefault (pattern : Pattern) (fallback : Node)
  | rest (argument : Pattern)
  | array (elements : List (Option Pattern))
  | object (members : List (Pattern.Member Pattern))

namespace Pattern

mutual

/-- The names of a pattern, from left to right and with repeats. -/
def names : Pattern → List String
  | .identifier name => [name]
  | .withDefault pattern _ => pattern.names
  | .rest argument => argument.names
  | .array elements => elementNames elements
  | .object members => memberNames members

/-- The names in the elements of an array. -/
def elementNames : List (Option Pattern) → List String
  | [] => []
  | none :: others => elementNames others
  | some element :: others => element.names ++ elementNames others

/-- The names in the members of an object. -/
def memberNames : List (Member Pattern) → List String
  | [] => []
  | .keyed _ value :: others => value.names ++ memberNames others
  | .shorthand key :: others => key :: memberNames others
  | .rest argument :: others => argument.names ++ memberNames others

end

end Pattern

/-! ### Nodes that encode a pattern -/

/-- A node is of a kind and holds the given fields, in any order and among others that hold no
nodes. -/
structure Node.HasParts (node : Node) (kind : Kind) (parts : List (String × Field Node)) :
    Prop where
  kind : node.kind = kind
  distinct : node.slots.Nodup
  fields : ∃ others, node.fields.Perm (parts ++ others) ∧ ∀ entry ∈ others, entry.2.nodes = []

namespace Pattern

mutual

/-- A node encodes a pattern. -/
inductive Encodes : Pattern → Node → Prop
  | identifier {name : String} {node : Node}
      (layout : node.HasParts .identifier [("name", .ofText name)]) :
      Encodes (.identifier name) node
  | withDefault {pattern : Pattern} {fallback node left : Node}
      (layout : node.HasParts .assignmentPattern [("left", .node left), ("right", .node fallback)])
      (part : Encodes pattern left) : Encodes (.withDefault pattern fallback) node
  | rest {pattern : Pattern} {node argument : Node}
      (layout : node.HasParts .restElement [("argument", .node argument)])
      (part : Encodes pattern argument) : Encodes (.rest pattern) node
  | array {elements : List (Option Pattern)} {node : Node} {items : List (Option Node)}
      (layout : node.HasParts .arrayPattern [("elements", .list items)])
      (parts : EncodesElements elements items) : Encodes (.array elements) node
  | object {members : List (Member Pattern)} {node : Node} {items : List (Option Node)}
      (layout : node.HasParts .objectPattern [("properties", .list items)])
      (parts : EncodesMembers members items) : Encodes (.object members) node

/-- The items of a list encode the elements of an array, hole by hole and pattern by pattern. -/
inductive EncodesElements : List (Option Pattern) → List (Option Node) → Prop
  | nil : EncodesElements [] []
  | hole {elements : List (Option Pattern)} {items : List (Option Node)}
      (others : EncodesElements elements items) : EncodesElements (none :: elements) (none :: items)
  | element {pattern : Pattern} {elements : List (Option Pattern)} {node : Node}
      {items : List (Option Node)} (part : Encodes pattern node)
      (others : EncodesElements elements items) :
      EncodesElements (some pattern :: elements) (some node :: items)

/-- The items of a list encode the members of an object, one by one. -/
inductive EncodesMembers : List (Member Pattern) → List (Option Node) → Prop
  | nil : EncodesMembers [] []
  | keyed {key node value : Node} {pattern : Pattern} {members : List (Member Pattern)}
      {items : List (Option Node)}
      (layout : node.HasParts .property [("key", .node key), ("value", .node value)])
      (part : Encodes pattern value) (others : EncodesMembers members items) :
      EncodesMembers (.keyed key pattern :: members) (some node :: items)
  | shorthand {key : String} {node keyNode : Node} {members : List (Member Pattern)}
      {items : List (Option Node)} (layout : node.HasParts .property [("key", .node keyNode)])
      (keyLayout : keyNode.HasParts .identifier [("name", .ofText key)])
      (others : EncodesMembers members items) :
      EncodesMembers (.shorthand key :: members) (some node :: items)
  | rest {pattern : Pattern} {node : Node} {members : List (Member Pattern)}
      {items : List (Option Node)} (part : Encodes (.rest pattern) node)
      (others : EncodesMembers members items) :
      EncodesMembers (.rest pattern :: members) (some node :: items)

end

mutual

/-- The plain encoding of a pattern, without further fields. -/
def encode : Pattern → Node
  | .identifier name => .identifier name
  | .withDefault pattern fallback =>
    ⟨.assignmentPattern, [("left", .node pattern.encode), ("right", .node fallback)]⟩
  | .rest argument => ⟨.restElement, [("argument", .node argument.encode)]⟩
  | .array elements => ⟨.arrayPattern, [("elements", .list (encodeElements elements))]⟩
  | .object members => ⟨.objectPattern, [("properties", .list (encodeMembers members))]⟩

/-- The encodings of the elements of an array. -/
def encodeElements : List (Option Pattern) → List (Option Node)
  | [] => []
  | none :: others => none :: encodeElements others
  | some element :: others => some element.encode :: encodeElements others

/-- The encodings of the members of an object. -/
def encodeMembers : List (Member Pattern) → List (Option Node)
  | [] => []
  | .keyed key value :: others =>
    some ⟨.property, [("key", .node key), ("value", .node value.encode)]⟩ :: encodeMembers others
  | .shorthand key :: others =>
    some ⟨.property, [("key", .node (.identifier key))]⟩ :: encodeMembers others
  | .rest argument :: others =>
    some ⟨.restElement, [("argument", .node argument.encode)]⟩ :: encodeMembers others

end

end Pattern

/-! ### Fields that are laid out -/

namespace Node.HasParts

variable {node : Node} {kind : Kind} {parts : List (String × Field Node)}

theorem get? (layout : node.HasParts kind parts) {slot : String} {held : Field Node}
    (member : (slot, held) ∈ parts) : node.get? slot = some held := by
  obtain ⟨others, fields, _⟩ := layout.fields
  exact Entries.find?_of_mem layout.distinct (fields.mem_iff.mpr (List.mem_append_left _ member))

theorem child? (layout : node.HasParts kind parts) {slot : String} {child : Node}
    (member : (slot, .node child) ∈ parts) : node.child? slot = some child := by
  rw [Node.child?, layout.get? member]

/-- A field that is not one of the parts holds no nodes. -/
theorem nodes_eq_nil (layout : node.HasParts kind parts) {entry : String × Field Node}
    (member : entry ∈ node.fields) (other : entry ∉ parts) : entry.2.nodes = [] := by
  obtain ⟨others, fields, plain⟩ := layout.fields
  exact plain entry ((List.mem_append.mp (fields.mem_iff.mp member)).resolve_left other)

theorem child?_eq_none (layout : node.HasParts kind parts) {slot : String}
    (missing : slot ∉ Entries.names parts) : node.child? slot = none := by
  cases found : node.child? slot with
  | none => rfl
  | some child =>
    have member : (slot, .node child) ∈ node.fields := by
      rw [Node.child?] at found
      split at found
      · rename_i held
        exact Option.some.inj found ▸ Entries.mem_of_find? held
      · cases found
    exact absurd (layout.nodes_eq_nil member fun part => missing (List.mem_map.mpr ⟨_, part, rfl⟩))
      (List.cons_ne_nil _ _)

/-- If a node is laid out with one part, the nodes directly below are the nodes of that part. -/
theorem children {slot : String} {held : Field Node} (layout : node.HasParts kind [(slot, held)]) :
    node.children = held.nodes := by
  have only : node.HoldsOnly slot := fun entry member different =>
    layout.nodes_eq_nil member fun part =>
      different (congrArg Prod.fst (List.mem_singleton.mp part))
  rw [children_of_holdsOnly layout.distinct only, Node.field,
    layout.get? (List.mem_singleton.mpr rfl), Option.getD_some]

/-- A node without further fields is laid out. -/
theorem of_fields (kind : Kind) (distinct : (Entries.names parts).Nodup) :
    (Node.mk kind parts).HasParts kind parts :=
  ⟨rfl, distinct, [], by simp, fun _ member => nomatch member⟩

theorem single (kind : Kind) (slot : String) (held : Field Node) :
    (Node.mk kind [(slot, held)]).HasParts kind [(slot, held)] :=
  of_fields kind (List.nodup_singleton slot)

theorem pair (kind : Kind) {first second : String} (different : first ≠ second)
    (held other : Field Node) :
    (Node.mk kind [(first, held), (second, other)]).HasParts kind
      [(first, held), (second, other)] :=
  of_fields kind (by simpa [Entries.names] using different)

end Node.HasParts

namespace Pattern

/-! ### The names that an encoding binds -/

theorem Encodes.isPattern {pattern : Pattern} {node : Node} (encodes : pattern.Encodes node) :
    node.kind.isPattern = true := by
  cases encodes with
  | identifier layout | withDefault layout _ | rest layout _ | array layout _ | object layout _ =>
    rw [layout.kind]
    rfl

theorem boundNames_identifier {node : Node} {name : String}
    (layout : node.HasParts .identifier [("name", .ofText name)]) : node.boundNames = [name] := by
  rw [Node.boundNames_eq, if_pos layout.kind, Node.name?, Node.value?,
    layout.get? (List.mem_singleton.mpr rfl)]
  rfl

/-- What a node binds that is no identifier. -/
theorem boundNames_of_kind {node : Node} {kind : Kind} (equal : node.kind = kind)
    (other : kind ≠ .identifier) : node.boundNames = node.bindingParts.flatMap Node.boundNames := by
  rw [Node.boundNames_eq, if_neg (equal ▸ other)]

theorem boundNames_keyed {node key value : Node}
    (layout : node.HasParts .property [("key", .node key), ("value", .node value)])
    (pattern : value.kind.isPattern = true) : node.boundNames = value.boundNames := by
  have held : node.child? "value" = some value := layout.child? (by simp)
  rw [boundNames_of_kind layout.kind (by decide), Node.bindingParts, layout.kind]
  simp [held, pattern]

theorem boundNames_shorthand {node key : Node}
    (layout : node.HasParts .property [("key", .node key)]) : node.boundNames = key.boundNames := by
  have held : node.child? "key" = some key := layout.child? (List.mem_singleton.mpr rfl)
  have missing : node.child? "value" = none := layout.child?_eq_none (by simp [Entries.names])
  rw [boundNames_of_kind layout.kind (by decide), Node.bindingParts, layout.kind]
  simp [held, missing]

mutual

theorem Encodes.boundNames {pattern : Pattern} {node : Node} :
    pattern.Encodes node → node.boundNames = pattern.names
  | .identifier layout => boundNames_identifier layout
  | .withDefault layout part => by
    have left := layout.child? List.mem_cons_self
    rw [boundNames_of_kind layout.kind (by decide), Node.bindingParts, layout.kind]
    simp [left, part.boundNames, names]
  | .rest layout part => by
    have argument := layout.child? List.mem_cons_self
    rw [boundNames_of_kind layout.kind (by decide), Node.bindingParts, layout.kind]
    simp [argument, part.boundNames, names]
  | .array layout parts => by
    rw [boundNames_of_kind layout.kind (by decide), Node.bindingParts, layout.kind]
    simp only [layout.children, names]
    exact parts.boundNames
  | .object layout parts => by
    rw [boundNames_of_kind layout.kind (by decide), Node.bindingParts, layout.kind]
    simp only [layout.children, names]
    exact parts.boundNames

theorem EncodesElements.boundNames {elements : List (Option Pattern)} {items : List (Option Node)} :
    EncodesElements elements items →
      (items.filterMap id).flatMap Node.boundNames = elementNames elements
  | .nil => rfl
  | .hole others => others.boundNames
  | .element part others => by
    rw [elementNames, ← part.boundNames, ← others.boundNames]
    rfl

theorem EncodesMembers.boundNames {members : List (Member Pattern)} {items : List (Option Node)} :
    EncodesMembers members items →
      (items.filterMap id).flatMap Node.boundNames = memberNames members
  | .nil => rfl
  | .keyed layout part others => by
    rw [memberNames, ← part.boundNames, ← others.boundNames,
      ← boundNames_keyed layout part.isPattern]
    rfl
  | .shorthand layout keyLayout others => by
    rw [memberNames, ← others.boundNames]
    show Node.boundNames _ ++ _ = _
    rw [boundNames_shorthand layout, boundNames_identifier keyLayout]
    rfl
  | .rest part others => by
    have argument : Node.boundNames _ = names _ := part.boundNames
    rw [names] at argument
    rw [memberNames, ← others.boundNames, ← argument]
    rfl

end

/-! ### Every pattern has an encoding -/

mutual

theorem encodes_encode : (pattern : Pattern) → pattern.Encodes pattern.encode
  | .identifier name => .identifier (.single _ _ _)
  | .withDefault pattern fallback =>
    .withDefault (.pair _ (by decide) _ _) (encodes_encode pattern)
  | .rest argument => .rest (.single _ _ _) (encodes_encode argument)
  | .array elements => .array (.single _ _ _) (encodes_encodeElements elements)
  | .object members => .object (.single _ _ _) (encodes_encodeMembers members)

theorem encodes_encodeElements :
    (elements : List (Option Pattern)) → EncodesElements elements (encodeElements elements)
  | [] => .nil
  | none :: others => .hole (encodes_encodeElements others)
  | some element :: others => .element (encodes_encode element) (encodes_encodeElements others)

theorem encodes_encodeMembers :
    (members : List (Member Pattern)) → EncodesMembers members (encodeMembers members)
  | [] => .nil
  | .keyed key value :: others =>
    .keyed (.pair _ (by decide) _ _) (encodes_encode value) (encodes_encodeMembers others)
  | .shorthand key :: others =>
    .shorthand (.single _ _ _) (.single _ _ _) (encodes_encodeMembers others)
  | .rest argument :: others =>
    .rest (.rest (.single _ _ _) (encodes_encode argument))
      (encodes_encodeMembers others)

end

end Pattern

/-- Every pattern has an encoding, and whatever node encodes it binds exactly the names of the
pattern, from left to right and with repeats. -/
theorem bound_names_flatten_patterns (pattern : Pattern) :
    pattern.Encodes pattern.encode ∧
      ∀ node : Node, pattern.Encodes node → node.boundNames = pattern.names :=
  ⟨pattern.encodes_encode, fun _ encodes => encodes.boundNames⟩

/-- The pattern `[a = x, , ...r]`. -/
def sparseArray : Pattern :=
  .array [some (.withDefault (.identifier "a") (.identifier "x")), none,
    some (.rest (.identifier "r"))]

/-- The pattern `{[k]: [a = x, , ...r], s, ...a}`. -/
def keyedArray : Pattern :=
  .object [.keyed (.identifier "k") sparseArray, .shorthand "s", .rest (.identifier "a")]

/-- The member `[k]: [a = x, , ...r]` with its value before its key, and a flag. -/
def computedProperty : Node :=
  ⟨.property,
    [ ("computed", .ofBool true), ("value", .node sparseArray.encode),
      ("key", .node (.identifier "k")) ]⟩

/-- The member `s` with nothing as its value. -/
def bareProperty : Node :=
  ⟨.property, [("value", .absent), ("key", .node (.identifier "s"))]⟩

/-- The pattern as a node with a further field in front. -/
def keyedArrayNode : Node :=
  ⟨.objectPattern,
    [ ("start", .value .null),
      ("properties", .list
        [some computedProperty, some bareProperty, some (Pattern.rest (.identifier "a")).encode]) ]⟩

theorem keyedArray_encodes : keyedArray.Encodes keyedArrayNode := by
  have computed : computedProperty.HasParts .property
      [("key", .node (.identifier "k")), ("value", .node sparseArray.encode)] :=
    ⟨rfl, by decide, [("computed", .ofBool true)], (List.reverse_perm _).symm,
      by simp [Field.nodes, Field.ofBool]⟩
  have bare : bareProperty.HasParts .property [("key", .node (.identifier "s"))] :=
    ⟨rfl, by decide, [("value", .absent)], .swap _ _ _, by simp [Field.nodes]⟩
  exact .object ⟨rfl, by decide, [("start", .value .null)], .swap _ _ _, by simp [Field.nodes]⟩
    (.keyed computed sparseArray.encodes_encode
      (.shorthand bare (.single _ _ _) (.rest (Pattern.encodes_encode _) .nil)))

theorem keyedArrayNode_boundNames :
    keyedArray.Encodes keyedArrayNode ∧ keyedArrayNode.boundNames = ["a", "r", "s", "a"] :=
  ⟨keyedArray_encodes,
    (bound_names_flatten_patterns keyedArray).2 keyedArrayNode keyedArray_encodes⟩

end EstreeScopes
