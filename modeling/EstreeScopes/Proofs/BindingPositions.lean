/-
This file says which identifiers of a tree bind a name. A pattern binds the names
of the identifiers that it comes to through its binding parts, and these are the
names that are collected from it (`mem_boundNames_iff`). An identifier of a tree
binds a name if a declarator, a function or a catch clause binds it in one of its
patterns, or if it is the name of a function or a class (`BindsAt`).
-/

import EstreeScopes.Proofs.Reordered

namespace EstreeScopes

/-! ### Identifiers that a pattern binds -/

namespace Node

/-- Whether the part of a pattern at a place binds names. -/
def bindsThrough (pattern : Node) (place : Place) : Bool :=
  match pattern.kind with
  | .identifier => false
  | .assignmentPattern => place == ⟨"left", none⟩
  | .restElement => place == ⟨"argument", none⟩
  | .property =>
    if (pattern.child? "value").any fun value => value.kind.isPattern then
      place == ⟨"value", none⟩
    else place == ⟨"key", none⟩
  | _ => true

/-- A pattern binds the name of the identifier at an address. -/
inductive BoundAt : Node → Address → Prop
  | identifier {pattern : Node} (kind : pattern.kind = .identifier) : BoundAt pattern []
  | part {pattern part : Node} {place : Place} {rest : Address}
      (through : pattern.bindsThrough place = true) (held : pattern.held? place = some part)
      (inside : BoundAt part rest) : BoundAt pattern (place :: rest)

theorem held?_single (node : Node) (slot : String) :
    node.held? ⟨slot, none⟩ = node.child? slot := by
  rw [held?, child?_eq_field]
  cases node.field slot <;> rfl

theorem exists_held?_of_mem_children {node child : Node} (distinct : node.slots.Nodup)
    (member : child ∈ node.children) : ∃ place, node.held? place = some child := by
  obtain ⟨slot, inSlot⟩ := exists_slot_of_mem_children distinct member
  rw [← Field.places_map_snd slot] at inSlot
  obtain ⟨⟨place, _⟩, placeMember, rfl⟩ := List.mem_map.mp inSlot
  exact ⟨place, held?_of_mem_places placeMember⟩

/-- The binding parts of a pattern are those at the places that bind names. -/
theorem mem_bindingParts_iff {pattern part : Node} (distinct : pattern.slots.Nodup) :
    part ∈ pattern.bindingParts ↔
      ∃ place, pattern.bindsThrough place = true ∧ pattern.held? place = some part := by
  have single (slot : String) : part ∈ (pattern.child? slot).toList ↔
      ∃ place : Place, (place == ⟨slot, none⟩) = true ∧ pattern.held? place = some part := by
    simp [held?_single]
  by_cases property : pattern.kind = .property
  · rw [bindingParts_property property]
    simp only [bindsThrough, property]
    split
    · exact single "value"
    · exact single "key"
  rw [bindingParts]
  split
  · rename_i kind
    simp [bindsThrough, kind]
  · rename_i kind
    simp only [bindsThrough, kind]
    exact single "left"
  · rename_i kind
    simp only [bindsThrough, kind]
    exact single "argument"
  · contradiction
  · have through (place : Place) : pattern.bindsThrough place = true := by
      unfold bindsThrough
      split <;> first | rfl | contradiction
    constructor
    · intro member
      obtain ⟨place, held⟩ := exists_held?_of_mem_children distinct member
      exact ⟨place, through place, held⟩
    · rintro ⟨place, _, held⟩
      exact mem_children_of_held? held

/-- A pattern binds the names of the identifiers at the addresses that it binds, and no others. -/
theorem mem_boundNames_iff {pattern : Node} (wellFormed : pattern.WellFormed) {name : String} :
    name ∈ pattern.boundNames ↔
      ∃ address target, pattern.BoundAt address ∧ pattern.at? address = some target ∧
        target.name? = some name := by
  induction size : pattern.size using Nat.strongRecOn generalizing pattern with
  | _ bound inductionHypothesis =>
  subst size
  rw [boundNames_eq]
  split
  · rename_i kind
    rw [Option.mem_toList]
    constructor
    · exact fun named => ⟨[], pattern, .identifier kind, rfl, named⟩
    · rintro ⟨address, target, bound, found, named⟩
      cases bound with
      | identifier => exact (Option.some.inj found) ▸ named
      | part through =>
        rw [bindsThrough, kind] at through
        cases through
  · rename_i notIdentifier
    rw [List.mem_flatMap]
    constructor
    · rintro ⟨part, member, inPart⟩
      have below := mem_children_of_mem_bindingParts member
      obtain ⟨place, through, held⟩ := (mem_bindingParts_iff wellFormed.here).mp member
      obtain ⟨address, target, bound, found, named⟩ :=
        (inductionHypothesis part.size (size_lt_of_mem_children below) (wellFormed.child below)
          rfl).mp inPart
      refine ⟨place :: address, target, .part through held bound, ?_, named⟩
      rw [at?, held]
      exact found
    · rintro ⟨address, target, bound, found, named⟩
      cases bound with
      | identifier kind => exact absurd kind notIdentifier
      | @part _ part place rest through held inside =>
        rw [at?, held] at found
        have below := mem_children_of_held? held
        refine ⟨part, (mem_bindingParts_iff wellFormed.here).mpr ⟨place, through, held⟩, ?_⟩
        exact (inductionHypothesis part.size (size_lt_of_mem_children below)
          (wellFormed.child below) rfl).mpr ⟨rest, target, inside, found, named⟩

end Node

/-! ### Binding positions -/

/-- Whether the pattern at a place of a node binds names for the node. -/
def Kind.bindsPatternAt (kind : Kind) (place : Place) : Bool :=
  match kind with
  | .variableDeclarator => place == ⟨"id", none⟩
  | .functionDeclaration | .functionExpression | .arrowFunctionExpression =>
    place.slot == "params"
  | .catchClause => place == ⟨"param", none⟩
  | _ => false

/-- Functions and classes that may have a name. -/
def Kind.isNamed : Kind → Bool
  | .functionDeclaration | .classDeclaration | .functionExpression | .classExpression => true
  | _ => false

/-- The identifier at an address binds a name: a declarator, a function or a catch clause on the way
binds it in a pattern, or it is the name of a function or a class. -/
inductive Node.BindsAt : Node → Address → Prop
  | pattern {node pattern : Node} {place : Place} {rest : Address}
      (binds : node.kind.bindsPatternAt place = true) (held : node.held? place = some pattern)
      (bound : pattern.BoundAt rest) : BindsAt node (place :: rest)
  | name {node : Node} (named : node.kind.isNamed = true) : BindsAt node [⟨"id", none⟩]
  | further {node child : Node} {place : Place} {rest : Address}
      (held : node.held? place = some child) (inside : child.BindsAt rest) :
      BindsAt node (place :: rest)

/-- A way that goes on from a node ends at a binding position of the node itself or further down. -/
theorem Node.BindsAt.of_cons {node : Node} {place : Place} {rest : Address}
    (binds : node.BindsAt (place :: rest)) :
    (node.kind.isNamed = true ∧ place :: rest = [⟨"id", none⟩]) ∨
      ∃ child, node.held? place = some child ∧
        (child.BindsAt rest ∨ node.kind.bindsPatternAt place = true ∧ child.BoundAt rest) := by
  generalize address : place :: rest = whole at binds
  cases binds with
  | name named => exact Or.inl ⟨named, rfl⟩
  | further held inside =>
    obtain ⟨rfl, rfl⟩ := List.cons.inj address
    exact Or.inr ⟨_, held, Or.inl inside⟩
  | pattern binds held bound =>
    obtain ⟨rfl, rfl⟩ := List.cons.inj address
    exact Or.inr ⟨_, held, Or.inr ⟨binds, bound⟩⟩

/-- A pattern with parts is none of the nodes that bind names. -/
theorem Kind.binds_of_patternSlot? {kind : Kind} {slot : Slot}
    (pattern : kind.patternSlot? = some slot) :
    (∀ place, kind.bindsPatternAt place = false) ∧ kind.isNamed = false := by
  unfold patternSlot? at pattern
  split at pattern
  all_goals first
    | exact ⟨fun _ => rfl, rfl⟩
    | cases pattern

/-- A binding position below a part of a pattern is one of the part. -/
theorem Node.BindsAt.part {pattern part : Node} {slot : Slot} {place : Place} {rest : Address}
    (binds : pattern.BindsAt (place :: rest)) (patternSlot : pattern.kind.patternSlot? = some slot)
    (held : pattern.held? place = some part) : part.BindsAt rest := by
  have noOwner := Kind.binds_of_patternSlot? patternSlot
  obtain ⟨named, _⟩ | ⟨_, partHeld, further | ⟨owns, _⟩⟩ := binds.of_cons
  · rw [noOwner.2] at named
    cases named
  · obtain rfl := Option.some.inj (partHeld.symm.trans held)
    exact further
  · rw [noOwner.1] at owns
    cases owns

end EstreeScopes
