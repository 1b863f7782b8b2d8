/-
This file says when two trees differ only in the order of the fields of some
nodes. Nodes that are walked field by field keep the order of theirs. The names of
the fields of a node are distinct, so every slot of the one tree holds what the
slot of the other holds, up to the order of fields further below.

The names that a scope hoists and that a pattern binds are collected in the order
of the fields. They are the same names for both trees, in different orders and
perhaps from different places.
-/

import EstreeScopes.Proofs.Grammar
import Mathlib.Data.List.Forall2

namespace EstreeScopes

/-! ### Trees with fields in another order -/

/-- Two fields hold nodes that are related, one by one, or the same value. -/
inductive Field.Related {α : Type} (related : α → α → Prop) : Field α → Field α → Prop
  | absent : Related related .absent .absent
  | value (plain : Json.Value) : Related related (.value plain) (.value plain)
  | node {child other : α} (nodes : related child other) :
      Related related (.node child) (.node other)
  | list {items others : List (Option α)}
      (each : List.Forall₂ (Option.Rel related) items others) :
      Related related (.list items) (.list others)

/-- Two entries have the same name, and values that are related. -/
inductive Entries.Related {α : Type} (related : α → α → Prop) : String × α → String × α → Prop
  | intro (name : String) {value other : α} (values : related value other) :
      Related related (name, value) (name, other)

/-- The second tree is the first with the fields of some nodes in another order. Nodes that are
walked field by field keep theirs. -/
inductive Node.Reordered : Node → Node → Prop
  | kept {kind : Kind} {fields others : List (String × Field Node)}
      (each : List.Forall₂ (Entries.Related (Field.Related Node.Reordered)) fields others) :
      Reordered ⟨kind, fields⟩ ⟨kind, others⟩
  | moved {kind : Kind} {fields others inOrder : List (String × Field Node)}
      (rule : kind.rule ≠ some .children)
      (each : List.Forall₂ (Entries.Related (Field.Related Node.Reordered)) fields others)
      (order : others.Perm inOrder) :
      Reordered ⟨kind, fields⟩ ⟨kind, inOrder⟩

theorem Field.Related.refl {α : Type} {related : α → α → Prop} {held : Field α}
    (each : ∀ child ∈ held.nodes, related child child) : Field.Related related held held := by
  cases held with
  | absent => exact .absent
  | value plain => exact .value plain
  | node child => exact .node (each child List.mem_cons_self)
  | list items =>
    refine .list (List.forall₂_same.mpr fun item member => ?_)
    cases item with
    | none => exact .none
    | some child => exact .some (each child (List.mem_filterMap.mpr ⟨_, member, rfl⟩))

/-- Every tree is itself, with no fields in another order. -/
theorem Node.Reordered.refl (node : Node) : node.Reordered node := by
  induction size : node.size using Nat.strongRecOn generalizing node with
  | _ bound inductionHypothesis =>
  subst size
  obtain ⟨kind, fields⟩ := node
  refine .kept (List.forall₂_same.mpr fun ⟨slot, held⟩ member => ?_)
  refine .intro slot (.refl fun child inField => ?_)
  have below : child ∈ children ⟨kind, fields⟩ := List.mem_flatMap.mpr ⟨_, member, inField⟩
  exact inductionHypothesis child.size (size_lt_of_mem_children below) child rfl

section

variable {α : Type} {related other : α → α → Prop}

theorem Field.Related.mono {held moved : Field α} (fields : Field.Related related held moved)
    (each : ∀ child ∈ held.nodes, ∀ next, related child next → other child next) :
    Field.Related other held moved := by
  cases fields with
  | absent => exact .absent
  | value plain => exact .value plain
  | node nodes => exact .node (each _ List.mem_cons_self _ nodes)
  | list items =>
    refine .list ?_
    induction items with
    | nil => exact .nil
    | cons first _ inductionHypothesis =>
      cases first with
      | none => exact .cons .none (inductionHypothesis each)
      | some nodes =>
        refine .cons (.some (each _ List.mem_cons_self _ nodes)) (inductionHypothesis ?_)
        exact fun child member => each child (List.mem_cons_of_mem _ member)

theorem Field.Related.nodes {held moved : Field α} (fields : Field.Related related held moved) :
    List.Forall₂ related held.nodes moved.nodes := by
  cases fields with
  | absent => exact .nil
  | value plain => exact .nil
  | node nodes => exact .cons nodes .nil
  | list items =>
    induction items with
    | nil => exact .nil
    | cons first _ inductionHypothesis =>
      cases first with
      | none => exact inductionHypothesis
      | some nodes => exact .cons nodes inductionHypothesis

theorem forall₂_toList {first second : Option α} (values : Option.Rel related first second) :
    List.Forall₂ related first.toList second.toList := by
  cases values with
  | none => exact .nil
  | some value => exact .cons value .nil

namespace Entries

theorem Related.names {entries others : Entries α}
    (each : List.Forall₂ (Entries.Related related) entries others) :
    Entries.names others = Entries.names entries := by
  induction each with
  | nil => rfl
  | cons first _ inductionHypothesis =>
    cases first
    exact congrArg (_ :: ·) inductionHypothesis

theorem Related.find? {entries others : Entries α}
    (each : List.Forall₂ (Entries.Related related) entries others) (name : String) :
    Option.Rel related (Entries.find? entries name) (Entries.find? others name) := by
  induction each with
  | nil => exact .none
  | cons first _ inductionHypothesis =>
    cases first with
    | intro key values =>
      rw [Entries.find?, Entries.find?]
      split
      · exact .some values
      · exact inductionHypothesis

/-- Entries of distinct names are found in any order. -/
theorem find?_perm {entries others : Entries α} (order : entries.Perm others)
    (distinct : (names entries).Nodup) (name : String) :
    find? others name = find? entries name := by
  have otherDistinct : (names others).Nodup := (order.map Prod.fst).nodup_iff.mp distinct
  cases found : find? entries name with
  | some value => exact find?_of_mem otherDistinct (order.mem_iff.mp (mem_of_find? found))
  | none =>
    cases otherFound : find? others name with
    | none => rfl
    | some value =>
      have member := order.mem_iff.mpr (mem_of_find? otherFound)
      exact absurd (List.mem_map_of_mem member) (not_mem_names_of_find?_none found)

end Entries

end

namespace Node

theorem value?_eq_field (node : Node) (slot : String) :
    node.value? slot =
      match node.field slot with
      | .value plain => some plain
      | _ => none := by
  rw [Node.value?, Node.field]
  cases node.get? slot with
  | none => rfl
  | some held => cases held <;> rfl

/-- A well-formed tree, and the same tree with the fields of some nodes in another order. -/
structure Alike (node other : Node) : Prop where
  wellFormed : node.WellFormed
  reordered : node.Reordered other

namespace Alike

variable {node other : Node} (alike : node.Alike other)
include alike

theorem kind : other.kind = node.kind := by
  cases alike.reordered <;> rfl

theorem distinct : other.slots.Nodup := by
  have here := alike.wellFormed.here
  cases alike.reordered with
  | kept each =>
    rw [slots, Entries.Related.names each]
    exact here
  | moved _ each order =>
    refine (order.map Prod.fst).nodup_iff.mp ?_
    have names := Entries.Related.names each
    rw [Entries.names] at names
    rw [names]
    exact here

/-- A node that is walked field by field has its fields in order. -/
theorem slots_eq (rule : node.kind.rule = some .children) : other.slots = node.slots := by
  cases alike.reordered with
  | kept each => exact Entries.Related.names each
  | moved notChildren => exact absurd rule notChildren

/-- Every slot holds the same up to the order of fields. -/
theorem field (slot : String) : Field.Related Alike (node.field slot) (other.field slot) := by
  have gotten : Option.Rel (Field.Related Reordered) (node.get? slot) (other.get? slot) := by
    have here := alike.wellFormed.here
    cases alike.reordered with
    | kept each => exact Entries.Related.find? each slot
    | moved _ each order =>
      have found := Entries.Related.find? each slot
      have names := Entries.Related.names each
      rw [get?, get?, Entries.find?_perm order (names ▸ here) slot]
      exact found
  have held : Field.Related Reordered (node.field slot) (other.field slot) := by
    rw [Node.field, Node.field]
    generalize node.get? slot = first at gotten ⊢
    generalize other.get? slot = second at gotten ⊢
    cases gotten with
    | none => exact .absent
    | some fields => exact fields
  exact held.mono fun child member next reordered =>
    ⟨alike.wellFormed.child (mem_children_of_mem_nodes member), reordered⟩

theorem child? (slot : String) : Option.Rel Alike (node.child? slot) (other.child? slot) := by
  have held := alike.field slot
  rw [child?_eq_field, child?_eq_field]
  generalize node.field slot = first at held ⊢
  generalize other.field slot = second at held ⊢
  cases held with
  | absent => exact .none
  | value plain => exact .none
  | node nodes => exact .some nodes
  | list items => exact .none

theorem value? (slot : String) : other.value? slot = node.value? slot := by
  have held := alike.field slot
  rw [value?_eq_field, value?_eq_field]
  generalize node.field slot = first at held ⊢
  generalize other.field slot = second at held ⊢
  cases held <;> rfl

theorem name? : other.name? = node.name? := by
  rw [Node.name?, Node.name?, alike.value?]

theorem span? : other.span? = node.span? := by
  rw [Node.span?, Node.span?, alike.value?, alike.value?]

theorem flag (slot : String) : other.flag slot = node.flag slot := by
  rw [Node.flag, Node.flag, alike.value?]

/-- What is read off a child is the same, if it is the same for all counterparts. -/
theorem map_child? {β : Type} (slot : String) {read : Node → β}
    (same : ∀ {child next : Node}, child.Alike next → read next = read child) :
    (other.child? slot).map read = (node.child? slot).map read := by
  have children := alike.child? slot
  generalize node.child? slot = first at children ⊢
  generalize other.child? slot = second at children ⊢
  cases children with
  | none => rfl
  | some nodes => exact congrArg some (same nodes)

theorem isSome_child? (slot : String) :
    (other.child? slot).isSome = (node.child? slot).isSome := by
  have kinds := alike.map_child? slot Alike.kind
  rw [← Option.isSome_map, kinds, Option.isSome_map]

theorem any_isPattern (slot : String) :
    (other.child? slot).any (fun value => value.kind.isPattern) =
      (node.child? slot).any fun value => value.kind.isPattern := by
  have kinds := alike.map_child? slot Alike.kind
  have ofKinds (tree : Node) : (tree.child? slot).any (fun value => value.kind.isPattern) =
      ((tree.child? slot).map Node.kind).any Kind.isPattern := by
    rw [Option.any_map]
  rw [ofKinds, kinds, ofKinds]

theorem name?_child? (slot : String) :
    (other.child? slot).bind Node.name? = (node.child? slot).bind Node.name? := by
  have names := alike.map_child? slot Alike.name?
  have ofNames (tree : Node) :
      (tree.child? slot).bind Node.name? = ((tree.child? slot).map Node.name?).bind id := by
    rw [Option.bind_map]
    rfl
  rw [ofNames, names, ofNames]

end Alike

end Node

/-! ### The same names -/

/-- Two lists hold the same names, in whatever order and how often. -/
def SameNames (names others : List String) : Prop := ∀ name, name ∈ others ↔ name ∈ names

/-- Each node of one list has a counterpart in the other, up to the order of fields. -/
structure Matched (nodes others : List Node) : Prop where
  forward : ∀ node ∈ nodes, ∃ other ∈ others, node.Alike other
  backward : ∀ other ∈ others, ∃ node ∈ nodes, node.Alike other

theorem SameNames.append {names others more rest : List String} (first : SameNames names others)
    (second : SameNames more rest) : SameNames (names ++ more) (others ++ rest) := by
  intro name
  rw [List.mem_append, List.mem_append, first name, second name]

theorem SameNames.of_eq {names others : List String} (equal : others = names) :
    SameNames names others := by
  subst equal
  exact fun _ => Iff.rfl

namespace Matched

theorem of_forall₂ {nodes others : List Node} (each : List.Forall₂ Node.Alike nodes others) :
    Matched nodes others := by
  induction each with
  | nil => exact ⟨fun _ member => absurd member List.not_mem_nil,
      fun _ member => absurd member List.not_mem_nil⟩
  | @cons node other nodes others first _ inductionHypothesis =>
    constructor
    · intro target member
      rcases List.mem_cons.mp member with rfl | later
      · exact ⟨other, List.mem_cons_self, first⟩
      · obtain ⟨found, inRest, alike⟩ := inductionHypothesis.forward target later
        exact ⟨found, List.mem_cons_of_mem _ inRest, alike⟩
    · intro target member
      rcases List.mem_cons.mp member with rfl | later
      · exact ⟨node, List.mem_cons_self, first⟩
      · obtain ⟨found, inRest, alike⟩ := inductionHypothesis.backward target later
        exact ⟨found, List.mem_cons_of_mem _ inRest, alike⟩

/-- Names that are the same for counterparts are the same for lists of them. -/
theorem sameNames {nodes others : List Node} (matched : Matched nodes others)
    {names : Node → List String}
    (each : ∀ node ∈ nodes, ∀ other, node.Alike other → SameNames (names node) (names other)) :
    SameNames (nodes.flatMap names) (others.flatMap names) := by
  intro name
  rw [List.mem_flatMap, List.mem_flatMap]
  constructor
  · rintro ⟨other, member, named⟩
    obtain ⟨node, found, alike⟩ := matched.backward other member
    exact ⟨node, found, (each node found other alike name).mp named⟩
  · rintro ⟨node, member, named⟩
    obtain ⟨other, found, alike⟩ := matched.forward node member
    exact ⟨other, found, (each node member other alike name).mpr named⟩

end Matched

namespace Node

theorem exists_slot_of_mem_children {node child : Node} (distinct : node.slots.Nodup)
    (member : child ∈ node.children) : ∃ slot, child ∈ (node.field slot).nodes := by
  obtain ⟨⟨slot, held⟩, entryMember, nodeMember⟩ := List.mem_flatMap.mp member
  refine ⟨slot, ?_⟩
  rw [field, get?, Entries.find?_of_mem distinct entryMember]
  exact nodeMember

/-- The binding parts of a property: its value if that is a pattern, and its key otherwise. -/
theorem bindingParts_property {pattern : Node} (kind : pattern.kind = .property) :
    pattern.bindingParts =
      if (pattern.child? "value").any fun value => value.kind.isPattern then
        (pattern.child? "value").toList
      else (pattern.child? "key").toList := by
  rw [bindingParts, kind]
  cases pattern.child? "value" <;> simp

namespace Alike

variable {node other : Node}

theorem matched_field (alike : node.Alike other) (slot : String) :
    Matched (node.field slot).nodes (other.field slot).nodes :=
  .of_forall₂ (alike.field slot).nodes

theorem matched_child? (alike : node.Alike other) (slot : String) :
    Matched (node.child? slot).toList (other.child? slot).toList :=
  .of_forall₂ (forall₂_toList (alike.child? slot))

/-- The nodes below have counterparts, although they come in another order. -/
theorem matched_children (alike : node.Alike other) : Matched node.children other.children := by
  constructor
  · intro child member
    obtain ⟨slot, inSlot⟩ := exists_slot_of_mem_children alike.wellFormed.here member
    obtain ⟨next, found, nodes⟩ := (alike.matched_field slot).forward child inSlot
    exact ⟨next, mem_children_of_mem_nodes found, nodes⟩
  · intro next member
    obtain ⟨slot, inSlot⟩ := exists_slot_of_mem_children alike.distinct member
    obtain ⟨child, found, nodes⟩ := (alike.matched_field slot).backward next inSlot
    exact ⟨child, mem_children_of_mem_nodes found, nodes⟩

theorem matched_bindingParts (alike : node.Alike other) :
    Matched node.bindingParts other.bindingParts := by
  by_cases property : node.kind = .property
  · rw [bindingParts_property property, bindingParts_property (alike.kind.trans property),
      alike.any_isPattern]
    split
    · exact alike.matched_child? "value"
    · exact alike.matched_child? "key"
  rw [bindingParts, bindingParts, alike.kind]
  split
  · exact .of_forall₂ .nil
  · exact alike.matched_child? "left"
  · exact alike.matched_child? "argument"
  · contradiction
  · exact alike.matched_children

/-- A pattern binds the same names. -/
theorem boundNames (alike : node.Alike other) : SameNames node.boundNames other.boundNames := by
  induction size : node.size using Nat.strongRecOn generalizing node other with
  | _ bound inductionHypothesis =>
  subst size
  rw [boundNames_eq, boundNames_eq, alike.kind, alike.name?]
  split
  · exact .of_eq rfl
  refine alike.matched_bindingParts.sameNames fun part member next parts => ?_
  have smaller := size_lt_of_mem_children (mem_children_of_mem_bindingParts member)
  exact inductionHypothesis part.size smaller parts rfl

theorem boundNamesOf (alike : node.Alike other) (slot : String) :
    SameNames (node.boundNamesOf slot) (other.boundNamesOf slot) :=
  (alike.matched_child? slot).sameNames fun _ _ _ nodes => nodes.boundNames

theorem matched_hoistingParts (alike : node.Alike other) :
    Matched node.hoistingParts other.hoistingParts := by
  rw [hoistingParts, hoistingParts, alike.kind]
  split
  case h_10 => exact alike.matched_child? "body"
  case h_11 => exact alike.matched_children
  all_goals exact .of_forall₂ .nil

theorem declaredNames (alike : node.Alike other) :
    SameNames node.declaredNames other.declaredNames := by
  rw [Node.declaredNames, Node.declaredNames, alike.kind]
  have named := alike.name?_child? "id"
  split
  · exact alike.boundNamesOf "id"
  · exact .of_eq (by rw [named])
  · exact .of_eq (by rw [named])
  · exact alike.boundNamesOf "param"
  · exact alike.boundNamesOf "local"
  · exact alike.boundNamesOf "local"
  · exact alike.boundNamesOf "local"
  · exact .of_eq rfl

/-- A scope hoists the same names. -/
theorem hoistedNames (alike : node.Alike other) :
    SameNames node.hoistedNames other.hoistedNames := by
  induction size : node.size using Nat.strongRecOn generalizing node other with
  | _ bound inductionHypothesis =>
  subst size
  rw [hoistedNames_eq, hoistedNames_eq]
  refine .append (alike.matched_hoistingParts.sameNames fun part member next parts => ?_)
    alike.declaredNames
  have smaller := size_lt_of_mem_children (mem_children_of_mem_hoistingParts member)
  exact inductionHypothesis part.size smaller parts rfl

theorem hoistedNamesOf (alike : node.Alike other) (slot : String) :
    SameNames (node.hoistedNamesOf slot) (other.hoistedNamesOf slot) :=
  (alike.matched_child? slot).sameNames fun _ _ _ nodes => nodes.hoistedNames

theorem keyNames (alike : node.Alike other) : SameNames node.keyNames other.keyNames := by
  rw [Node.keyNames, Node.keyNames, alike.kind, alike.any_isPattern]
  split
  · exact alike.boundNamesOf "key"
  · exact .of_eq rfl

/-- Walking a pattern declares the same names. -/
theorem registered (intercepts : Kind → Bool) (alike : node.Alike other) :
    SameNames (node.registered intercepts) (other.registered intercepts) := by
  induction size : node.size using Nat.strongRecOn generalizing node other with
  | _ bound inductionHypothesis =>
  subst size
  rw [registered_eq, registered_eq, alike.kind, alike.name?]
  split
  · exact alike.boundNames
  split
  · rename_i slot _
    refine alike.keyNames.append ((alike.matched_field slot.name).sameNames ?_)
    intro part member next parts
    have smaller := Nat.lt_trans (size_lt_of_mem_nodes member) (fieldSize_lt_size node slot.name)
    exact inductionHypothesis part.size smaller parts rfl
  · exact .of_eq rfl

end Alike

end Node

end EstreeScopes
