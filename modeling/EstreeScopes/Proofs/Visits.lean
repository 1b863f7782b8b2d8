/-
This file says which visits an agenda makes, by inversion. A visit in the agenda
of a node is that of a node directly below it, or it is made in a pattern there;
a visit in the agenda of a pattern is that of the pattern as a whole, of one of
its default values or keys, or it is made in a part. In each case the lemmas give
the environment of the visit. It follows that a visit has the address of the node
that is visited (`at?_of_mem_agenda`).
-/

import EstreeScopes.Proofs.Agenda

namespace EstreeScopes

/-! ### Places in a pattern -/

/-- The slot of a pattern that is walked under the environment around the scope. -/
def Kind.outerSlot? : Kind → Option String
  | .assignmentPattern => some "right"
  | .property => some "key"
  | _ => none

theorem Kind.outerSlot?_of_ne {kind : Kind} {inner slot : Slot}
    (patternSlot : kind.patternSlot? = some inner) (member : slot ∈ kind.ruleSlots)
    (different : slot ≠ inner) : kind.outerSlot? = some slot.name := by
  unfold patternSlot? at patternSlot
  split at patternSlot
  all_goals cases patternSlot
  all_goals
    rw [ruleSlots, rule] at member
    simp_all [outerSlot?, Slot.node]

theorem Kind.outerSlot?_ne_patternSlot? {kind : Kind} {inner : Slot}
    (patternSlot : kind.patternSlot? = some inner) : kind.outerSlot? ≠ some inner.name := by
  unfold patternSlot? at patternSlot
  split at patternSlot
  all_goals cases patternSlot
  all_goals decide

theorem Kind.outerSlot?_eq_none {kind : Kind} (noSlot : kind.patternSlot? = none) :
    kind.outerSlot? = none := by
  unfold outerSlot?
  split
  · cases noSlot
  · cases noSlot
  · rfl

/-- The nodes of a field that come before an item. -/
def Field.before : Field Node → Option Nat → List Node
  | .list items, some index => (items.take index).filterMap id
  | _, _ => []

namespace Node

/-- The nodes that come before a place in its slot. -/
def earlier (node : Node) (place : Place) : List Node :=
  (node.field place.slot).before place.index

end Node

/-! ### The visits of a pattern -/

section

variable {intercepts : Kind → Bool} {outer scope env : Env} {target : Node} {address : Address}

theorem mem_patternItemsStops {slot : String} {start : Nat} {items : List (Option Node)}
    (member : .visit address env target ∈
      patternItemsStops intercepts outer scope slot start items) :
    ∃ offset part rest, address = ⟨slot, some (start + offset)⟩ :: rest ∧
      items[offset]? = some (some part) ∧
      .visit rest env target ∈ patternStops intercepts outer
        (scope.declareAll
          (((items.take offset).filterMap id).flatMap (Node.registered intercepts))) part := by
  induction items generalizing scope start with
  | nil =>
    rw [patternItemsStops] at member
    cases member
  | cons item rest inductionHypothesis =>
    cases item with
    | none =>
      rw [patternItemsStops] at member
      obtain ⟨offset, part, deeper, rfl, found, visited⟩ := inductionHypothesis member
      exact ⟨offset + 1, part, deeper, by rw [Nat.add_assoc, Nat.add_comm 1], found, visited⟩
    | some first =>
      rw [patternItemsStops] at member
      rcases List.mem_append.mp member with head | tail
      · obtain ⟨stop, visited, equal⟩ := List.mem_map.mp head
        cases stop with
        | visit deeper _ _ =>
          obtain ⟨rfl, rfl, rfl⟩ := Stop.visit.inj equal
          exact ⟨0, first, deeper, rfl, rfl, visited⟩
        | enter => cases equal
        | fault => cases equal
      · obtain ⟨offset, part, deeper, rfl, found, visited⟩ := inductionHypothesis tail
        refine ⟨offset + 1, part, deeper, by rw [Nat.add_assoc, Nat.add_comm 1], found, ?_⟩
        rw [← Env.declareAll_append] at visited
        simpa using visited

/-- A visit among the patterns of a field belongs to one of them, which is walked in the scope that
those before it leave. -/
theorem mem_patternFieldStops {node : Node} {kind : Kind} {slot : Slot}
    (member : .visit address env target ∈
      patternFieldStops intercepts outer scope kind slot (node.field slot.name)) :
    ∃ place part rest, address = place :: rest ∧ place.slot = slot.name ∧
      node.held? place = some part ∧
      .visit rest env target ∈ patternStops intercepts outer
        (scope.declareAll ((node.earlier place).flatMap (Node.registered intercepts))) part := by
  rw [patternFieldStops.eq_def] at member
  split at member
  · cases held : node.field slot.name with
    | absent => rw [held] at member; cases member
    | value plain => rw [held] at member; cases member
    | node only =>
      rw [held] at member
      obtain ⟨stop, visited, equal⟩ := List.mem_map.mp member
      cases stop with
      | visit deeper _ _ =>
        obtain ⟨rfl, rfl, rfl⟩ := Stop.visit.inj equal
        refine ⟨⟨slot.name, none⟩, only, deeper, rfl, rfl, by rw [Node.held?, held], ?_⟩
        rw [Node.earlier, held]
        exact visited
      | enter => cases equal
      | fault => cases equal
    | list items =>
      rw [held] at member
      obtain ⟨offset, part, deeper, rfl, found, visited⟩ := mem_patternItemsStops member
      rw [Nat.zero_add]
      refine ⟨_, part, deeper, rfl, rfl, by rw [Node.held?, held]; simp [found], ?_⟩
      rw [Node.earlier, held]
      exact visited
  · cases List.mem_singleton.mp member

theorem mem_slotStops {node : Node} {kind : Kind} {slot : Slot}
    (member : .visit address env target ∈ slotStops outer kind slot (node.field slot.name)) :
    env = outer ∧
      ∃ place, address = [place] ∧ place.slot = slot.name ∧ node.held? place = some target := by
  rw [slotStops] at member
  split at member
  · obtain ⟨⟨place, child⟩, placeMember, equal⟩ := List.mem_map.mp member
    obtain ⟨rfl, rfl, rfl⟩ := Stop.visit.inj equal
    exact ⟨rfl, place, rfl, Field.slot_of_mem_places placeMember,
      Node.held?_of_mem_places placeMember⟩
  · cases List.mem_singleton.mp member

/-- A visit in the agenda of a pattern is that of the pattern itself, one of a default value or a
key, or one in the agenda of a part. -/
theorem mem_patternStops
    (member : .visit address env target ∈ patternStops intercepts outer scope pattern) :
    (address = [] ∧ target = pattern ∧
      (intercepts pattern.kind = true ∧ env = scope.declareAll pattern.boundNames ∨
        ¬ intercepts pattern.kind = true ∧ pattern.kind.patternSlot? = none ∧ env = scope)) ∨
    ∃ inner place part rest, pattern.kind.patternSlot? = some inner ∧ address = place :: rest ∧
      pattern.held? place = some part ∧
      (pattern.kind.outerSlot? = some place.slot ∧ rest = [] ∧ target = part ∧ env = outer ∨
        place.slot = inner.name ∧
          .visit rest env target ∈ patternStops intercepts outer
            (scope.declareAll (pattern.keyNames ++
              (pattern.earlier place).flatMap (Node.registered intercepts))) part) := by
  rw [patternStops] at member
  split at member
  · rename_i intercepted
    obtain ⟨rfl, rfl, rfl⟩ := Stop.visit.inj (List.mem_singleton.mp member)
    exact Or.inl ⟨rfl, rfl, Or.inl ⟨intercepted, rfl⟩⟩
  rename_i passed
  split at member
  · rename_i inner patternSlot
    obtain ⟨slot, listed, slotMember⟩ := List.mem_flatMap.mp member
    split at slotMember
    · rename_i same
      obtain ⟨place, part, rest, rfl, inSlot, held, visited⟩ := mem_patternFieldStops slotMember
      rw [← Env.declareAll_append] at visited
      exact Or.inr ⟨inner, place, part, rest, patternSlot, rfl, held,
        Or.inr ⟨same ▸ inSlot, visited⟩⟩
    · rename_i different
      obtain ⟨rfl, place, rfl, inSlot, held⟩ := mem_slotStops slotMember
      have outerSlot := Kind.outerSlot?_of_ne patternSlot listed different
      exact Or.inr ⟨inner, place, target, [], patternSlot, rfl, held,
        Or.inl ⟨inSlot ▸ outerSlot, rfl, rfl, rfl⟩⟩
  · rename_i noSlot
    split at member
    · cases member
    · obtain ⟨rfl, rfl, rfl⟩ := Stop.visit.inj (List.mem_singleton.mp member)
      exact Or.inl ⟨rfl, rfl, Or.inr ⟨passed, noSlot, rfl⟩⟩

end

section

variable {intercepts : Kind → Bool} {outer scope env inner : Env} {node pattern target : Node}
  {address : Address}

/-- A visit in the agenda of a node is that of a node directly below, or one in the agenda of a
pattern there. -/
theorem mem_agenda (member : .visit address inner target ∈ agenda intercepts env node) :
    ∃ place part rest, address = place :: rest ∧ node.held? place = some part ∧
      (rest = [] ∧ target = part ∨
        ∃ outer scope, .visit rest inner target ∈ patternStops intercepts outer scope part) := by
  have direct {outer : Env} {slot : Slot}
      (visited : .visit address inner target ∈
        slotStops outer node.kind slot (node.field slot.name)) :
      ∃ place part rest, address = place :: rest ∧ node.held? place = some part ∧
        (rest = [] ∧ target = part ∨
          ∃ outer scope, .visit rest inner target ∈ patternStops intercepts outer scope part) := by
    obtain ⟨_, place, rfl, _, held⟩ := mem_slotStops visited
    exact ⟨place, target, [], rfl, held, Or.inl ⟨rfl, rfl⟩⟩
  have inBody {outer : Env} {slot : Slot}
      (visited : .visit address inner target ∈ bodyStops outer node slot) :=
    direct ((List.mem_cons.mp visited).resolve_left Stop.noConfusion)
  have inScope {outer scope : Env} {patterns body : Slot}
      (visited : .visit address inner target ∈
        scopeStops intercepts outer scope node patterns body) :
      ∃ place part rest, address = place :: rest ∧ node.held? place = some part ∧
        (rest = [] ∧ target = part ∨
          ∃ outer scope, .visit rest inner target ∈ patternStops intercepts outer scope part) := by
    rcases List.mem_append.mp visited with inPatterns | bodyVisited
    · obtain ⟨place, part, rest, rfl, _, held, deeper⟩ := mem_patternFieldStops inPatterns
      exact ⟨place, part, rest, rfl, held, Or.inr ⟨_, _, deeper⟩⟩
    · exact inBody bodyVisited
  rw [agenda] at member
  split at member
  · cases member
  · obtain ⟨slot, _, visited⟩ := List.mem_flatMap.mp member
    exact direct visited
  · obtain ⟨slot, _, visited⟩ := List.mem_flatMap.mp member
    obtain ⟨⟨place, child⟩, placeMember, equal⟩ := List.mem_map.mp visited
    obtain ⟨rfl, rfl, rfl⟩ := Stop.visit.inj equal
    exact ⟨place, child, [], rfl, Node.held?_of_mem_places placeMember, Or.inl ⟨rfl, rfl⟩⟩
  · exact inBody member
  · rcases List.mem_append.mp member with named | visited
    · have namedSlot : .visit address inner target ∈
          slotStops env node.kind .functionId (node.field Slot.functionId.name) := named
      exact direct namedSlot
    · exact inScope visited
  · exact inScope member

/-- A visit in the agenda of a pattern has the address of the visited node. -/
theorem at?_of_mem_patternStops
    (member : .visit address env target ∈ patternStops intercepts outer scope pattern) :
    pattern.at? address = some target := by
  induction address generalizing pattern scope with
  | nil =>
    obtain ⟨_, rfl, _⟩ | ⟨_, _, _, _, _, equal, _⟩ := mem_patternStops member
    · rfl
    · cases equal
  | cons place rest inductionHypothesis =>
    obtain ⟨equal, _⟩ | ⟨_, _, part, _, _, equal, held, inside⟩ := mem_patternStops member
    · cases equal
    obtain ⟨rfl, rfl⟩ := List.cons.inj equal
    rw [Node.at?, held]
    obtain ⟨_, rfl, rfl, _⟩ | ⟨_, visited⟩ := inside
    · rfl
    · exact inductionHypothesis visited

/-- A visit in the agenda of a node has the address of the visited node. -/
theorem at?_of_mem_agenda (member : .visit address inner target ∈ agenda intercepts env node) :
    node.at? address = some target := by
  obtain ⟨place, part, rest, rfl, held, inside⟩ := mem_agenda member
  rw [Node.at?, held]
  obtain ⟨rfl, rfl⟩ | ⟨_, _, visited⟩ := inside
  · rfl
  · exact at?_of_mem_patternStops visited

end

end EstreeScopes
