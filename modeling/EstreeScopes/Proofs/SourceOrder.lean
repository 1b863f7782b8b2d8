/-
This file shows that the search for free references meets them in source order
(`references_in_source_order`). A tree tells the order of its source by where its
nodes start: a node starts no later than what stands below it, and the parts that
are written first start no later than those that are written after them.

What the search hands over comes in another order, that of the slots in the rules.
The identifiers among it are part of the frontier of identifiers, which the tree
alone determines (`identifiers_sublist_frontier`). So all that remains is that the
frontier is in source order. It is, except for loops that are written with their
test last. Their rule takes the test first, and if identifiers stand on both sides
those of the test are reported too early (`doWhile_reports_test_first`). The fixed
parts of a template are never compared with its expressions, so they must hold no
identifiers.
-/

import EstreeScopes.Proofs.Search

namespace EstreeScopes

/-- Whether a kind is that of identifiers. -/
def Kind.isIdentifier (kind : Kind) : Bool := kind == .identifier

/-! ### Identifiers that the search hands over -/

/-- The identifier that is handed over at a stop, with its address. -/
def Stop.identifier? : Stop → Option (Address × Node)
  | .visit address _ node => if node.kind.isIdentifier then some (address, node) else none
  | .enter _ _ | .fault _ => none

namespace Reference

variable {env : Env} {node : Node}

/-- The agenda of the search leads to identifiers of the frontier, in its order. -/
theorem stops_frontier (faultFree : FaultFree (stops env node))
    (passed : ¬ node.kind.isIdentifier = true) :
    ((stops env node).flatMap (Stop.frontier Kind.isIdentifier)).Sublist
      (node.frontier Kind.isIdentifier) := by
  rw [stops] at faultFree ⊢
  split
  · rw [List.flatMap_assoc, Node.frontier_eq, if_neg passed, Node.visitedPlaces,
      List.flatMap_assoc]
    simp only [fieldStops_frontier]
    exact node.referenceSlots_sublist.flatMap _
  · rename_i all
    rw [if_neg all] at faultFree
    have within (kind : Kind) (met : kind.isIdentifier = true) : table.contains kind = true := by
      obtain rfl := beq_iff_eq.mp met
      rfl
    rw [agenda_frontier_of_within within passed faultFree]

theorem identifiers_map_under (address : Address) (stops : List Stop) :
    (stops.map (Stop.under address)).filterMap Stop.identifier? =
      (stops.filterMap Stop.identifier?).map fun (inner, target) => (address ++ inner, target) := by
  rw [List.filterMap_map, List.map_filterMap]
  refine List.filterMap_congr fun stop _ => ?_
  cases stop with
  | visit inner env node =>
    simp only [Function.comp_apply, Stop.under, Stop.identifier?]
    split <;> rfl
  | enter kind names => rfl
  | fault reason => rfl

theorem faultFree_of_mem_stops (faultFree : FaultFree (itinerary env node)) {stop : Stop}
    (member : stop ∈ stops env node) : FaultFree (onward stop) := by
  intro fault inside
  refine faultFree fault ?_
  rw [itinerary_eq]
  exact List.mem_append_right _ (List.mem_flatMap.mpr ⟨stop, member, inside⟩)

/-- The identifiers that the search hands over are some of those of the frontier, in its order. -/
theorem identifiers_sublist_frontier (faultFree : FaultFree (itinerary env node)) :
    ((itinerary env node).filterMap Stop.identifier?).Sublist
      (node.frontier Kind.isIdentifier) := by
  induction size : node.size using Nat.strongRecOn generalizing env node with
  | _ bound inductionHypothesis =>
  subst size
  rw [itinerary_eq, List.filterMap_append, List.filterMap_flatMap]
  by_cases identifier : node.kind.isIdentifier = true
  · -- An identifier is handed over, and the search does not go on below it.
    have kind : node.kind = .identifier := beq_iff_eq.mp identifier
    have own : ownStops env node = [.visit [] env node] := by
      rw [ownStops, kind]
      rfl
    have nothing : stops env node = [] := by
      rw [stops, picks, agenda, kind]
      rfl
    rw [own, nothing, Node.frontier_eq, if_pos identifier]
    simp [Stop.identifier?, identifier]
  · have own : (ownStops env node).filterMap Stop.identifier? = [] := by
      rw [ownStops]
      split <;> simp [Stop.identifier?, identifier]
    have stopsFree : FaultFree (stops env node) := fun fault member =>
      faultFree_of_mem_stops faultFree member fault (List.mem_singleton.mpr rfl)
    rw [own, List.nil_append]
    refine .trans (List.Sublist.flatMap_right _ fun stop member => ?_)
      (stops_frontier stopsFree identifier)
    have onwardFree := faultFree_of_mem_stops faultFree member
    cases stop with
    | visit address inner child =>
      rw [onward, identifiers_map_under]
      refine (inductionHypothesis child.size (at?_of_mem_stops member).2 ?_ rfl).map _
      exact fun fault inside => onwardFree fault (List.mem_map.mpr ⟨_, inside, rfl⟩)
    | enter kind names => exact .refl _
    | fault reason => exact .refl _

end Reference

/-! ### Trees in source order -/

namespace Node

/-- Where a node starts in the source text. -/
def start (node : Node) : Nat := (node.span?.map Prod.fst).getD 0

/-- The nodes in some slots. -/
def nodesIn (node : Node) (slots : List String) : List Node :=
  slots.flatMap fun slot => (node.field slot).nodes

/-- The slots of a node in the order in which they are written, in groups: what stands in slots of
different groups is written in any order. -/
def writtenSlots (node : Node) : List (List String) :=
  match node.kind with
  | .doWhileStatement => [["body", "test"]]
  | .templateLiteral => [["quasis"], ["expressions"]]
  | _ => [node.visitedSlots]

/-- A node has a span and starts no later than the nodes below. A part that is written before
another starts no later than the other, and so does everything below the part. -/
@[mk_iff]
structure LaidOut (node : Node) : Prop where
  spanned : node.span?.isSome = true
  startsFirst : ∀ child ∈ node.children, node.start ≤ child.start
  written : ∀ slots ∈ node.writtenSlots, (node.nodesIn slots).Pairwise fun first second =>
    first.Everywhere fun early => early.start ≤ second.start

instance : DecidablePred LaidOut := fun node => decidable_of_iff' _ (laidOut_iff node)

/-- All nodes of a tree are laid out in source order. -/
def InSourceOrder (tree : Node) : Prop := tree.Everywhere LaidOut

instance : DecidablePred InSourceOrder := inferInstanceAs (DecidablePred (Everywhere LaidOut))

/-- No identifier stands in a tree. -/
def Wordless (tree : Node) : Prop := tree.Everywhere fun node => ¬ node.kind.isIdentifier = true

instance : DecidablePred Wordless :=
  inferInstanceAs (DecidablePred (Everywhere fun node => ¬ node.kind.isIdentifier = true))

/-- Of a loop with its test last, the test or the body holds no identifiers, and the fixed parts of
a template hold none. -/
def OneSided (node : Node) : Prop :=
  match node.kind with
  | .doWhileStatement =>
    (∀ part ∈ (node.field "test").nodes, part.Wordless) ∨
      ∀ part ∈ (node.field "body").nodes, part.Wordless
  | .templateLiteral => ∀ part ∈ (node.field "quasis").nodes, part.Wordless
  | _ => True

theorem oneSided_iff {node : Node} :
    node.OneSided ↔
      (node.kind = .doWhileStatement → (∀ part ∈ (node.field "test").nodes, part.Wordless) ∨
        ∀ part ∈ (node.field "body").nodes, part.Wordless) ∧
      (node.kind = .templateLiteral → ∀ part ∈ (node.field "quasis").nodes, part.Wordless) := by
  rw [OneSided]
  cases node.kind <;> simp

instance : DecidablePred OneSided := fun _ => decidable_of_iff' _ oneSided_iff

/-- A tree in source order starts no later than anything in it. -/
theorem InSourceOrder.start_le {tree node : Node} (ordered : tree.InSourceOrder)
    {address : Address} (found : tree.at? address = some node) : tree.start ≤ node.start := by
  induction address generalizing tree with
  | nil =>
    obtain rfl := Option.some.inj found
    exact Nat.le_refl _
  | cons place rest inductionHypothesis =>
    obtain ⟨child, held, further⟩ := Option.bind_eq_some_iff.mp found
    have below := mem_children_of_held? held
    exact Nat.le_trans (ordered.here.startsFirst child below)
      (inductionHypothesis (ordered.child below) further)

/-! ### The frontier in source order -/

/-- No identifier of one tree starts after one of another. -/
def Precedes (first second : Node) : Prop :=
  ∀ early ∈ first.frontier Kind.isIdentifier, ∀ late ∈ second.frontier Kind.isIdentifier,
    early.2.start ≤ late.2.start

theorem frontier_of_wordless {node : Node} (wordless : node.Wordless) :
    node.frontier Kind.isIdentifier = [] := by
  induction wordless with
  | @intro node here below inductionHypothesis =>
    rw [frontier_eq, if_neg here, List.flatMap_eq_nil_iff]
    intro ⟨place, child⟩ member
    rw [frontierAt, inductionHypothesis child (mem_children_of_mem_visitedPlaces member)]
    rfl

theorem precedes_of_starts {first second : Node} (ordered : second.InSourceOrder)
    (starts : first.Everywhere fun early => early.start ≤ second.start) :
    first.Precedes second := by
  intro ⟨_, early⟩ earlyMember ⟨_, late⟩ lateMember
  exact Nat.le_trans (starts.at? (at?_of_mem_frontier earlyMember)).here
    (ordered.start_le (at?_of_mem_frontier lateMember))

theorem precedes_of_wordless {first second : Node} (wordless : first.Wordless ∨ second.Wordless) :
    first.Precedes second := by
  intro early earlyMember late lateMember
  rcases wordless with none | none
  · rw [frontier_of_wordless none] at earlyMember
    cases earlyMember
  · rw [frontier_of_wordless none] at lateMember
    cases lateMember

/-- Parts that are written one after the other precede each other. -/
theorem written_precedes {node : Node} (ordered : node.InSourceOrder) {slots : List String}
    (group : slots ∈ node.writtenSlots) : (node.nodesIn slots).Pairwise Precedes := by
  refine (ordered.here.written slots group).imp_of_mem fun {first second} _ member starts => ?_
  obtain ⟨slot, _, inSlot⟩ := List.mem_flatMap.mp member
  exact precedes_of_starts (ordered.child (mem_children_of_mem_nodes inSlot)) starts

/-- Parts that are visited one after the other precede each other. -/
theorem visited_precedes {node : Node} (ordered : node.InSourceOrder) (oneSided : node.OneSided) :
    (node.nodesIn node.visitedSlots).Pairwise Precedes := by
  have written (slots : List String) (group : slots ∈ node.writtenSlots) :
      (node.nodesIn slots).Pairwise Precedes := written_precedes ordered group
  rw [writtenSlots] at written
  rw [OneSided] at oneSided
  have two (first second : String) :
      node.nodesIn [first, second] = node.nodesIn [first] ++ node.nodesIn [second] := by
    simp [nodesIn]
  split at oneSided
  · -- The rule takes the test first, so the parts written first are visited last.
    rename_i kind
    have visited : node.visitedSlots = ["test", "body"] := by
      rw [visitedSlots, kind]
      rfl
    rw [kind] at written
    have both := written _ List.mem_cons_self
    rw [two, List.pairwise_append] at both
    rw [visited, two, List.pairwise_append]
    refine ⟨both.2.1, both.1, fun first inTest second inBody => precedes_of_wordless ?_⟩
    simp only [nodesIn, List.flatMap_singleton] at inTest inBody
    exact oneSided.imp (· first inTest) (· second inBody)
  · rename_i kind
    have visited : node.visitedSlots = ["quasis", "expressions"] := by
      rw [visitedSlots, kind]
      rfl
    rw [kind] at written
    rw [visited, two, List.pairwise_append]
    refine ⟨written _ (by simp), written _ (by simp), fun first inQuasis second _ => ?_⟩
    simp only [nodesIn, List.flatMap_singleton] at inQuasis
    exact precedes_of_wordless (.inl (oneSided first inQuasis))
  · refine written _ ?_
    split
    · contradiction
    · contradiction
    · exact List.mem_singleton.mpr rfl

/-- The identifiers of the frontier are in source order. -/
theorem frontier_inSourceOrder {tree : Node} (ordered : tree.InSourceOrder)
    (oneSided : tree.Everywhere OneSided) :
    (tree.frontier Kind.isIdentifier).Pairwise fun early late => early.2.start ≤ late.2.start := by
  induction oneSided with
  | @intro node here below inductionHypothesis =>
    rw [frontier_eq]
    split
    · exact List.pairwise_singleton _ _
    rw [List.pairwise_flatMap]
    constructor
    · intro ⟨place, child⟩ member
      have inside := mem_children_of_mem_visitedPlaces member
      exact List.pairwise_map.mpr (inductionHypothesis child inside (ordered.child inside))
    · have nodes : node.visitedPlaces.map Prod.snd = node.nodesIn node.visitedSlots := by
        simp [visitedPlaces, nodesIn, List.map_flatMap, Field.places_map_snd]
      have apart := visited_precedes ordered here
      rw [← nodes, List.pairwise_map] at apart
      refine apart.imp fun {first second} precedes early earlyMember late lateMember => ?_
      obtain ⟨⟨_, _⟩, inFirst, rfl⟩ := List.mem_map.mp earlyMember
      obtain ⟨⟨_, _⟩, inSecond, rfl⟩ := List.mem_map.mp lateMember
      exact (precedes _ inFirst _ inSecond :)

end Node

/-! ### The references in source order -/

/-- Where a reference starts in the source text. -/
def Reference.start (reference : Reference) : Nat := (reference.span.map Prod.fst).getD 0

/-- A reference is shown by an identifier that is handed over, and has its span. -/
theorem Stop.identifier?_of_reference? {options : Reference.Options} {stop : Stop}
    {reference : Reference} (shown : stop.reference? options = some reference) :
    ∃ address node, stop.identifier? = some (address, node) ∧ reference.span = node.span? := by
  cases stop with
  | visit address env node =>
    rw [Stop.reference?, Reference.ofStep?] at shown
    split at shown
    · rename_i kind
      obtain ⟨name, _, found⟩ := Option.bind_eq_some_iff.mp shown
      split at found
      · cases found
      · obtain rfl := Option.some.inj found
        exact ⟨address, node, if_pos (beq_iff_eq.mpr kind), rfl⟩
    · cases shown
  | enter kind names => cases shown
  | fault reason => cases shown

/-- A search that succeeds comes to no malformed slot. -/
theorem faultFree_of_ok {options : Reference.Options} {tree : Node} (wellFormed : tree.WellFormed)
    {references : List Reference} (found : tree.freeReferences options = .ok references) :
    FaultFree (Reference.itinerary (.ofNames options.globals) tree) := by
  rw [freeReferences_eq_itinerary options wellFormed] at found
  split at found
  · cases found
  · rename_i passes
    intro fault member
    cases List.findSome?_eq_none_iff.mp passes _ member

/-- The references of a tree that tells the order of its source come in that order, as long as no
loop with its test last has identifiers both in its test and in its body. -/
theorem references_in_source_order (options : Reference.Options) (tree : Node)
    (wellFormed : tree.WellFormed) (ordered : tree.InSourceOrder)
    (oneSided : tree.Everywhere Node.OneSided) (references : List Reference)
    (found : tree.freeReferences options = .ok references) :
    (∀ reference ∈ references, reference.span.isSome = true) ∧
      references.Pairwise fun early late => early.start ≤ late.start := by
  have met := Reference.identifiers_sublist_frontier (faultFree_of_ok wellFormed found)
  obtain ⟨_, rfl⟩ := search_of_ok options wellFormed found
  constructor
  · intro reference member
    obtain ⟨stop, stopMember, shown⟩ := List.mem_filterMap.mp member
    obtain ⟨address, node, identifier, span⟩ := Stop.identifier?_of_reference? shown
    have inFrontier := met.subset (List.mem_filterMap.mpr ⟨stop, stopMember, identifier⟩)
    rw [span]
    exact (ordered.at? (Node.at?_of_mem_frontier inFrontier)).here.spanned
  · have sorted := (Node.frontier_inSourceOrder ordered oneSided).sublist met
    rw [List.pairwise_filterMap] at sorted ⊢
    refine sorted.imp fun {first second} starts early earlyShown late lateShown => ?_
    obtain ⟨_, _, earlyIdentifier, earlySpan⟩ := Stop.identifier?_of_reference? earlyShown
    obtain ⟨_, _, lateIdentifier, lateSpan⟩ := Stop.identifier?_of_reference? lateShown
    rw [Reference.start, Reference.start, earlySpan, lateSpan]
    exact starts _ earlyIdentifier _ lateIdentifier

/-- A node with a span. -/
def spannedNode (kind : Kind) (start stop : Nat) (fields : List (String × Field Node)) : Node :=
  ⟨kind, ("start", .value (.number (.ofNat start))) :: ("end", .value (.number (.ofNat stop))) ::
    fields⟩

/-- An identifier with a span. -/
def word (name : String) (start : Nat) : Node :=
  spannedNode .identifier start (start + 1) [("name", .value (.string name))]

/-- The statements `do a; while (test); c;`. -/
def loopThenWord (test : Node) : Node :=
  spannedNode .program 0 19
    [("body", .list
      [ some (spannedNode .doWhileStatement 0 16
          [ ("body", .node (spannedNode .expressionStatement 3 5
              [("expression", .node (word "a" 3))])),
            ("test", .node test) ]),
        some (spannedNode .expressionStatement 17 19 [("expression", .node (word "c" 17))]) ])]

/-- A literal for a test. -/
def zero : Node := spannedNode .literal 13 14 []

theorem loopThenWord_wellFormed :
    (loopThenWord zero).WellFormed ∧ (loopThenWord (word "b" 13)).WellFormed := by
  decide

theorem loopThenWord_inSourceOrder :
    (loopThenWord zero).InSourceOrder ∧ (loopThenWord (word "b" 13)).InSourceOrder := by
  decide

theorem loopThenWord_oneSided : (loopThenWord zero).Everywhere Node.OneSided := by decide

theorem loopThenWord_references :
    (loopThenWord zero).WellFormed ∧ (loopThenWord zero).InSourceOrder ∧
      (loopThenWord zero).Everywhere Node.OneSided ∧
      (loopThenWord zero).freeReferences ⟨[], []⟩ =
        .ok [⟨"a", some (3, 4)⟩, ⟨"c", some (17, 18)⟩] ∧
      [Reference.mk "a" (some (3, 4)), ⟨"c", some (17, 18)⟩].Pairwise
        fun early late => early.start ≤ late.start := by
  have found : (loopThenWord zero).freeReferences ⟨[], []⟩ =
      .ok [⟨"a", some (3, 4)⟩, ⟨"c", some (17, 18)⟩] := by cbv
  obtain ⟨wellFormed, _⟩ := loopThenWord_wellFormed
  obtain ⟨ordered, _⟩ := loopThenWord_inSourceOrder
  have sorted := references_in_source_order ⟨[], []⟩ _ wellFormed ordered loopThenWord_oneSided _
    found
  exact ⟨wellFormed, ordered, loopThenWord_oneSided, found, sorted.2⟩

/-- The references in the test of a loop are reported before those in the body, which is written
before the test. -/
theorem doWhile_reports_test_first :
    (loopThenWord (word "b" 13)).WellFormed ∧ (loopThenWord (word "b" 13)).InSourceOrder ∧
      (loopThenWord (word "b" 13)).freeReferences ⟨[], []⟩ =
        .ok [⟨"b", some (13, 14)⟩, ⟨"a", some (3, 4)⟩, ⟨"c", some (17, 18)⟩] ∧
      ¬ [Reference.mk "b" (some (13, 14)), ⟨"a", some (3, 4)⟩, ⟨"c", some (17, 18)⟩].Pairwise
        fun early late => early.start ≤ late.start :=
  ⟨loopThenWord_wellFormed.2, loopThenWord_inSourceOrder.2, by cbv, by decide⟩

end EstreeScopes
