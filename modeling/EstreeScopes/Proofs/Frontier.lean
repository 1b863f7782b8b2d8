/-
This file gives the frontier of a tree for a set of kinds: the nodes of those
kinds that are met on the way down, in the order in which the rules list the
slots, where the way ends at every node that is met. A frontier node is listed
with its address. No address is listed twice, and the node stands there.

The agenda of a node leads to its frontier (`agenda_frontier`): the frontiers of
the visited nodes, put one after the other, are the frontier of the node. That
the walk of a pattern takes its slots in another way than the walk of any other
node makes no difference to this.
-/

import EstreeScopes.Proofs.Agenda

namespace EstreeScopes

namespace Node

/-- The slots below a node that a walk goes into, in order. -/
def visitedSlots (node : Node) : List String :=
  match node.kind.rule with
  | none => []
  | some (.slots slots) => slots.map Slot.name
  | some .children => node.slots
  | some .program => ["body"]
  | some .function => ["id", "params", "body"]
  | some .catchClause => ["param", "body"]

/-- The nodes directly below that a walk comes to, with their places. -/
def visitedPlaces (node : Node) : List (Place × Node) :=
  node.visitedSlots.flatMap fun slot => (node.field slot).places slot

theorem mem_field_of_mem_visitedPlaces {node child : Node} {place : Place}
    (member : (place, child) ∈ node.visitedPlaces) :
    (place, child) ∈ (node.field place.slot).places place.slot := by
  obtain ⟨slot, _, placeMember⟩ := List.mem_flatMap.mp member
  rwa [Field.slot_of_mem_places placeMember]

theorem mem_children_of_mem_visitedPlaces {node child : Node} {place : Place}
    (member : (place, child) ∈ node.visitedPlaces) : child ∈ node.children :=
  mem_children_of_mem_nodes
    (Field.mem_nodes_of_mem_places (mem_field_of_mem_visitedPlaces member))

/-- The nodes of the given kinds that are met on the way down from a node, with their addresses. -/
def frontier (intercepts : Kind → Bool) (node : Node) : List (Address × Node) :=
  if intercepts node.kind then [([], node)]
  else node.visitedPlaces.attach.flatMap fun ⟨(place, child), _⟩ =>
    (frontier intercepts child).map fun (address, target) => (place :: address, target)
termination_by node.size
decreasing_by exact size_lt_of_mem_children (mem_children_of_mem_visitedPlaces (by assumption))

/-- The frontier of a node that is at one of the places below, seen from above. -/
def frontierAt (intercepts : Kind → Bool) (entry : Place × Node) : List (Address × Node) :=
  (entry.2.frontier intercepts).map fun (address, target) => (entry.1 :: address, target)

theorem frontier_eq (intercepts : Kind → Bool) (node : Node) :
    node.frontier intercepts =
      if intercepts node.kind then [([], node)]
      else node.visitedPlaces.flatMap (frontierAt intercepts) := by
  rw [frontier]
  split
  · rfl
  · conv_rhs => rw [← List.attach_map_subtype_val node.visitedPlaces, List.flatMap_map]
    rfl

/-- A node that is met is the node itself, or it is met from a place below. -/
theorem mem_frontier {intercepts : Kind → Bool} {node target : Node} {address : Address}
    (member : (address, target) ∈ node.frontier intercepts) :
    (intercepts node.kind = true ∧ address = [] ∧ target = node) ∨
      (¬ intercepts node.kind = true ∧ ∃ place child rest, address = place :: rest ∧
        (place, child) ∈ node.visitedPlaces ∧ (rest, target) ∈ child.frontier intercepts) := by
  rw [frontier_eq] at member
  split at member
  · rename_i intercepted
    obtain ⟨atRoot, equal⟩ := Prod.mk.inj (List.mem_singleton.mp member)
    exact Or.inl ⟨intercepted, atRoot, equal⟩
  · rename_i passed
    obtain ⟨⟨place, child⟩, placeMember, entryMember⟩ := List.mem_flatMap.mp member
    obtain ⟨⟨rest, _⟩, restMember, equal⟩ := List.mem_map.mp entryMember
    obtain ⟨rfl, rfl⟩ := Prod.mk.inj equal
    exact Or.inr ⟨passed, place, child, rest, rfl, placeMember, restMember⟩

/-- A frontier node stands at its address. -/
theorem at?_of_mem_frontier {intercepts : Kind → Bool} {node target : Node} {address : Address}
    (member : (address, target) ∈ node.frontier intercepts) : node.at? address = some target := by
  induction address generalizing node with
  | nil =>
    obtain ⟨_, _, rfl⟩ | ⟨_, _, _, _, equal, _⟩ := mem_frontier member
    · rfl
    · cases equal
  | cons place rest inductionHypothesis =>
    obtain ⟨_, equal, _⟩ | ⟨_, first, child, _, equal, placeMember, restMember⟩ :=
      mem_frontier member
    · cases equal
    · obtain ⟨rfl, rfl⟩ := List.cons.inj equal
      rw [at?, held?_of_mem_places (mem_field_of_mem_visitedPlaces placeMember)]
      exact inductionHypothesis restMember

/-! ### No address twice -/

theorem itemPlaces_nodup (slot : String) (start : Nat) (items : List (Option Node)) :
    ((itemPlaces slot start items).map Prod.fst).Nodup := by
  induction items generalizing start with
  | nil => exact List.nodup_nil
  | cons item rest inductionHypothesis =>
    cases item with
    | none => exact inductionHypothesis (start + 1)
    | some child =>
      refine List.nodup_cons.mpr ⟨fun member => ?_, inductionHypothesis (start + 1)⟩
      obtain ⟨⟨place, other⟩, placeMember, equal⟩ := List.mem_map.mp member
      obtain ⟨offset, rfl, _⟩ := mem_itemPlaces placeMember
      have := Option.some.inj (Place.mk.inj equal).2
      omega

theorem places_nodup (slot : String) (held : Field Node) :
    ((held.places slot).map Prod.fst).Nodup := by
  cases held with
  | node child => exact List.nodup_singleton _
  | list items => exact itemPlaces_nodup slot 0 items
  | absent => exact List.nodup_nil
  | value plain => exact List.nodup_nil

theorem visitedSlots_nodup {node : Node} (distinct : node.slots.Nodup) :
    node.visitedSlots.Nodup := by
  rw [visitedSlots]
  cases rule : node.kind.rule with
  | none => exact List.nodup_nil
  | some rule' =>
    cases rule' with
    | slots slots =>
      have listed := node.kind.ruleSlots_nodup
      rwa [Kind.ruleSlots, rule] at listed
    | children => exact distinct
    | program => exact List.nodup_singleton _
    | function => exact show ["id", "params", "body"].Nodup by decide
    | catchClause => exact show ["param", "body"].Nodup by decide

theorem visitedPlaces_nodup {node : Node} (distinct : node.slots.Nodup) :
    (node.visitedPlaces.map Prod.fst).Nodup := by
  rw [visitedPlaces, List.map_flatMap, List.nodup_flatMap]
  refine ⟨fun slot _ => places_nodup slot _, (visitedSlots_nodup distinct).imp ?_⟩
  intro first second different place firstMember secondMember
  obtain ⟨⟨_, child⟩, inFirst, rfl⟩ := List.mem_map.mp firstMember
  obtain ⟨⟨found, other⟩, inSecond, equal⟩ := List.mem_map.mp secondMember
  obtain rfl : found = _ := equal
  exact different
    ((Field.slot_of_mem_places inFirst).symm.trans (Field.slot_of_mem_places inSecond))

theorem exists_cons_of_mem_frontierAt {intercepts : Kind → Bool} {entry : Place × Node}
    {address : Address} (member : address ∈ (frontierAt intercepts entry).map Prod.fst) :
    ∃ rest, address = entry.1 :: rest := by
  obtain ⟨_, inner, rfl⟩ := List.mem_map.mp member
  obtain ⟨⟨rest, _⟩, _, rfl⟩ := List.mem_map.mp inner
  exact ⟨rest, rfl⟩

/-- No address is listed twice. -/
theorem frontier_nodup (intercepts : Kind → Bool) {node : Node} (wellFormed : node.WellFormed) :
    ((node.frontier intercepts).map Prod.fst).Nodup := by
  induction wellFormed with
  | @intro node distinct below inductionHypothesis =>
    rw [frontier_eq]
    split
    · exact List.nodup_singleton _
    rw [List.map_flatMap, List.nodup_flatMap]
    constructor
    · intro ⟨place, child⟩ member
      have inner := inductionHypothesis child (mem_children_of_mem_visitedPlaces member)
      have deeper := inner.map (List.cons_injective (a := place))
      rw [List.map_map] at deeper
      rw [frontierAt, List.map_map]
      exact deeper
    · refine (List.pairwise_map.mp (visitedPlaces_nodup distinct)).imp ?_
      intro first second different address firstMember secondMember
      obtain ⟨_, rfl⟩ := exists_cons_of_mem_frontierAt firstMember
      obtain ⟨_, equal⟩ := exists_cons_of_mem_frontierAt secondMember
      exact different (List.cons.inj equal).1

end Node

/-! ### The agenda leads to the frontier -/

/-- The frontier nodes that a stop leads to. -/
def Stop.frontier (intercepts : Kind → Bool) : Stop → List (Address × Node)
  | .visit address _ node =>
    (node.frontier intercepts).map fun (inner, target) => (address ++ inner, target)
  | .enter _ _ | .fault _ => []

/-- An agenda without malformed slots. -/
def FaultFree (stops : List Stop) : Prop := ∀ fault, Stop.fault fault ∉ stops

theorem FaultFree.left {first second : List Stop} (faultFree : FaultFree (first ++ second)) :
    FaultFree first :=
  fun fault member => faultFree fault (List.mem_append_left _ member)

theorem FaultFree.right {first second : List Stop} (faultFree : FaultFree (first ++ second)) :
    FaultFree second :=
  fun fault member => faultFree fault (List.mem_append_right _ member)

theorem FaultFree.of_map_below {place : Place} {stops : List Stop}
    (faultFree : FaultFree (stops.map (Stop.below place))) : FaultFree stops :=
  fun fault member => faultFree fault (List.mem_map.mpr ⟨_, member, rfl⟩)

theorem FaultFree.of_flatMap {Key : Type} {keys : List Key} {stops : Key → List Stop}
    (faultFree : FaultFree (keys.flatMap stops)) {key : Key} (member : key ∈ keys) :
    FaultFree (stops key) :=
  fun fault inner => faultFree fault (List.mem_flatMap.mpr ⟨key, member, inner⟩)

section

variable {intercepts met : Kind → Bool}

theorem frontier_map_below (place : Place) (stops : List Stop) :
    (stops.map (Stop.below place)).flatMap (Stop.frontier met) =
      (stops.flatMap (Stop.frontier met)).map
        fun (address, target) => (place :: address, target) := by
  rw [List.flatMap_map, List.map_flatMap]
  refine List.flatMap_congr fun stop _ => ?_
  cases stop with
  | visit address env node => simp [Stop.below, Stop.frontier]
  | enter kind names => rfl
  | fault fault => rfl

theorem fieldStops_frontier (env : Env) (slot : String) (held : Field Node) :
    (fieldStops env slot held).flatMap (Stop.frontier met) =
      (held.places slot).flatMap (Node.frontierAt met) := by
  rw [fieldStops, List.flatMap_map]
  rfl

theorem slotStops_frontier {env : Env} {kind : Kind} {slot : Slot} {held : Field Node}
    (faultFree : FaultFree (slotStops env kind slot held)) :
    (slotStops env kind slot held).flatMap (Stop.frontier met) =
      (held.places slot.name).flatMap (Node.frontierAt met) := by
  rw [slotStops] at faultFree ⊢
  split at faultFree
  · rename_i accepted
    rw [if_pos accepted, fieldStops_frontier]
  · exact absurd (List.mem_singleton.mpr rfl) (faultFree _)

/-- The agenda of a pattern leads to its frontier. -/
def PatternLeads (intercepts met : Kind → Bool) (pattern : Node) : Prop :=
  ∀ outer scope : Env, FaultFree (patternStops intercepts outer scope pattern) →
    (patternStops intercepts outer scope pattern).flatMap (Stop.frontier met) =
      pattern.frontier met

theorem patternItemsStops_frontier {outer scope : Env} {slot : String} {start : Nat}
    {items : List (Option Node)}
    (each : ∀ child, some child ∈ items → PatternLeads intercepts met child)
    (faultFree : FaultFree (patternItemsStops intercepts outer scope slot start items)) :
    (patternItemsStops intercepts outer scope slot start items).flatMap
        (Stop.frontier met) =
      (itemPlaces slot start items).flatMap (Node.frontierAt met) := by
  induction items generalizing scope start with
  | nil => rw [patternItemsStops]; rfl
  | cons item rest inductionHypothesis =>
    have restEach : ∀ child, some child ∈ rest → PatternLeads intercepts met child :=
      fun child member => each child (List.mem_cons_of_mem _ member)
    cases item with
    | none =>
      rw [patternItemsStops] at faultFree ⊢
      exact inductionHypothesis restEach faultFree
    | some child =>
      rw [patternItemsStops] at faultFree ⊢
      rw [List.flatMap_append, frontier_map_below,
        each child List.mem_cons_self outer scope faultFree.left.of_map_below,
        inductionHypothesis restEach faultFree.right]
      rfl

theorem patternFieldStops_frontier {outer scope : Env} {kind : Kind} {slot : Slot}
    {held : Field Node} (each : ∀ child ∈ held.nodes, PatternLeads intercepts met child)
    (faultFree : FaultFree (patternFieldStops intercepts outer scope kind slot held)) :
    (patternFieldStops intercepts outer scope kind slot held).flatMap
        (Stop.frontier met) =
      (held.places slot.name).flatMap (Node.frontierAt met) := by
  rw [patternFieldStops.eq_def] at faultFree ⊢
  split at faultFree
  · rename_i accepted
    rw [if_pos accepted]
    cases held with
    | absent => rfl
    | value plain => rfl
    | node child =>
      refine (frontier_map_below _ _).trans ?_
      rw [each child List.mem_cons_self outer scope faultFree.of_map_below, Field.places,
        List.flatMap_singleton]
      rfl
    | list items =>
      exact patternItemsStops_frontier
        (fun child member => each child (List.mem_filterMap.mpr ⟨_, member, rfl⟩)) faultFree
  · exact absurd (List.mem_singleton.mpr rfl) (faultFree _)

theorem patternStops_frontier (within : ∀ kind, met kind = true → intercepts kind = true)
    (pattern : Node) : PatternLeads intercepts met pattern := by
  induction size : pattern.size using Nat.strongRecOn generalizing pattern with
  | _ bound inductionHypothesis =>
  subst size
  intro outer scope faultFree
  have whole (env : Env) : [Stop.visit [] env pattern].flatMap (Stop.frontier met) =
      pattern.frontier met := by
    simp [Stop.frontier]
  rw [patternStops] at faultFree ⊢
  split at faultFree
  · rename_i intercepted
    rw [if_pos intercepted, whole]
  rename_i passed
  have unmet : ¬ met pattern.kind = true := fun met => passed (within pattern.kind met)
  rw [if_neg passed]
  split at faultFree
  · rename_i inner patternSlot
    have each (slot : String) (child : Node) (member : child ∈ (pattern.field slot).nodes) :
        PatternLeads intercepts met child :=
      inductionHypothesis child.size
        (Nat.lt_trans (Node.size_lt_of_mem_nodes member) (Node.fieldSize_lt_size _ _)) child rfl
    rw [Node.frontier_eq, if_neg unmet, Node.visitedPlaces, Node.visitedSlots,
      Kind.rule_of_patternSlot? patternSlot, List.flatMap_map, List.flatMap_assoc,
      List.flatMap_assoc]
    refine List.flatMap_congr fun slot member => ?_
    have slotFree := faultFree.of_flatMap member
    by_cases same : slot = inner
    · rw [if_pos same] at slotFree ⊢
      exact patternFieldStops_frontier (each slot.name) slotFree
    · rw [if_neg same] at slotFree ⊢
      exact slotStops_frontier slotFree
  · split
    · rename_i identifier
      rw [Node.frontier_eq, if_neg unmet, Node.visitedPlaces, Node.visitedSlots, identifier]
      rfl
    · exact whole scope

/-- The agenda of a node leads to its frontier, also for fewer kinds than are intercepted. -/
theorem agenda_frontier_of_within (within : ∀ kind, met kind = true → intercepts kind = true)
    {env : Env} {node : Node} (passed : ¬ met node.kind = true)
    (faultFree : FaultFree (agenda intercepts env node)) :
    (agenda intercepts env node).flatMap (Stop.frontier met) = node.frontier met := by
  have body {scope : Env} {slot : Slot} (bodyFree : FaultFree (bodyStops scope node slot)) :
      (bodyStops scope node slot).flatMap (Stop.frontier met) =
        ((node.field slot.name).places slot.name).flatMap (Node.frontierAt met) :=
    slotStops_frontier fun fault member => bodyFree fault (List.mem_cons_of_mem _ member)
  have scope {outer scope : Env} {patterns bodySlot : Slot}
      (scopeFree : FaultFree (scopeStops intercepts outer scope node patterns bodySlot)) :
      (scopeStops intercepts outer scope node patterns bodySlot).flatMap
          (Stop.frontier met) =
        ((node.field patterns.name).places patterns.name).flatMap (Node.frontierAt met) ++
          ((node.field bodySlot.name).places bodySlot.name).flatMap
            (Node.frontierAt met) := by
    rw [scopeStops, List.flatMap_append,
      patternFieldStops_frontier (fun child _ => patternStops_frontier within child) scopeFree.left,
      body scopeFree.right]
  rw [Node.frontier_eq, if_neg passed, Node.visitedPlaces, Node.visitedSlots, List.flatMap_assoc]
  rw [agenda] at faultFree ⊢
  cases rule : node.kind.rule with
  | none => rfl
  | some rule' =>
    rw [rule] at faultFree
    cases rule' with
    | slots slots =>
      rw [List.flatMap_assoc, List.flatMap_map]
      exact List.flatMap_congr fun slot member => slotStops_frontier (faultFree.of_flatMap member)
    | children =>
      rw [List.flatMap_assoc]
      exact List.flatMap_congr fun slot _ => fieldStops_frontier env slot _
    | program =>
      refine (body faultFree).trans ?_
      simp [Slot.programBody, Slot.list]
    | function =>
      rw [List.flatMap_append, slotStops_frontier faultFree.left, scope faultFree.right]
      simp [Slot.functionId, Slot.node, Slot.list, Slot.functionParams, Slot.functionBody]
    | catchClause =>
      refine (scope faultFree).trans ?_
      simp [Slot.catchParam, Slot.catchBody, Slot.node]

/-- The agenda of a node that is not intercepted leads to its frontier. -/
theorem agenda_frontier {env : Env} {node : Node} (passed : ¬ intercepts node.kind = true)
    (faultFree : FaultFree (agenda intercepts env node)) :
    (agenda intercepts env node).flatMap (Stop.frontier intercepts) = node.frontier intercepts :=
  agenda_frontier_of_within (fun _ intercepted => intercepted) passed faultFree

end

end EstreeScopes
