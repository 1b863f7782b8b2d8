/-
This file says which patterns are grammatical: they are built from identifiers,
default values, rest elements, object and array patterns and properties, and
parts stand only where the kind of the pattern has them. It does not matter to a
grammatical pattern which kinds are intercepted. Whether it is walked part by
part or handed over as a whole, walking it declares the names that it binds
(`registered_eq_boundNames`).

A pattern of another kind can be a parameter too. It is visited like any node,
and then declares nothing, although names may be found below it.
-/

import EstreeScopes.Proofs.Frontier

namespace EstreeScopes

namespace Node

/-! ### Grammatical patterns -/

/-- A node holds nodes in one slot only. -/
def HoldsOnly (node : Node) (slot : String) : Prop :=
  ∀ entry ∈ node.fields, entry.1 ≠ slot → entry.2.nodes = []

/-- A node is of a pattern kind and holds what a pattern of its kind may hold. -/
def PatternShape (pattern : Node) : Prop :=
  match pattern.kind with
  | .identifier | .assignmentPattern | .restElement => True
  | .property =>
    pattern.field "value" = .absent ∨
      ∃ value, pattern.field "value" = .node value ∧ value.kind.isPattern = true
  | .objectPattern => pattern.HoldsOnly "properties"
  | .arrayPattern => pattern.HoldsOnly "elements"
  | _ => False

instance (node : Node) (slot : String) : Decidable (node.HoldsOnly slot) :=
  inferInstanceAs (Decidable (∀ entry ∈ node.fields, entry.1 ≠ slot → entry.2.nodes = []))

/-- The shapes of patterns, kind by kind. -/
theorem patternShape_iff {pattern : Node} :
    pattern.PatternShape ↔
      pattern.kind ∈ [.identifier, .assignmentPattern, .restElement] ∨
        (pattern.kind = .property ∧ ((pattern.field "value").isAbsent = true ∨
          ((pattern.child? "value").any fun value => value.kind.isPattern) = true)) ∨
        (pattern.kind = .objectPattern ∧ pattern.HoldsOnly "properties") ∨
        (pattern.kind = .arrayPattern ∧ pattern.HoldsOnly "elements") := by
  have property : (pattern.field "value" = .absent ∨
      ∃ value, pattern.field "value" = .node value ∧ value.kind.isPattern = true) ↔
        (pattern.field "value").isAbsent = true ∨
          ((pattern.child? "value").any fun value => value.kind.isPattern) = true := by
    rw [field, child?]
    cases pattern.get? "value" with
    | none => simp [Field.isAbsent]
    | some held => cases held <;> simp [Field.isAbsent]
  rw [PatternShape, ← property]
  cases pattern.kind <;> simp

instance : DecidablePred PatternShape := fun _ => decidable_of_iff' _ patternShape_iff

/-- The parts of a pattern, in the slot where a pattern of its kind has them. -/
def patternParts (pattern : Node) : List Node :=
  match pattern.kind.patternSlot? with
  | some slot => (pattern.field slot.name).nodes
  | none => []

theorem forall_patternParts {pattern : Node} {property : Node → Prop} :
    (∀ part ∈ pattern.patternParts, property part) ↔
      ∀ slot, pattern.kind.patternSlot? = some slot →
        ∀ part ∈ (pattern.field slot.name).nodes, property part := by
  rw [patternParts]
  cases pattern.kind.patternSlot? with
  | none => simp
  | some slot => simp

theorem size_lt_of_mem_patternParts {pattern part : Node} (member : part ∈ pattern.patternParts) :
    part.size < pattern.size := by
  rw [patternParts] at member
  split at member
  · exact size_lt_of_mem_children (mem_children_of_mem_nodes member)
  · cases member

/-- A pattern is of the right shape, and so are its parts. -/
inductive Grammatical : Node → Prop
  | intro {pattern : Node} (shape : pattern.PatternShape)
      (parts : ∀ slot, pattern.kind.patternSlot? = some slot →
        ∀ part ∈ (pattern.field slot.name).nodes, Grammatical part) : Grammatical pattern

theorem grammatical_iff {pattern : Node} :
    pattern.Grammatical ↔
      pattern.PatternShape ∧ ∀ part ∈ pattern.patternParts, part.Grammatical := by
  rw [forall_patternParts]
  exact ⟨fun ⟨shape, parts⟩ => ⟨shape, parts⟩, fun ⟨shape, parts⟩ => .intro shape parts⟩

instance : DecidablePred Grammatical :=
  recBySize fun pattern below =>
    letI := decideEach pattern.patternParts fun _ member =>
      below _ (size_lt_of_mem_patternParts member)
    decidable_of_iff' _ grammatical_iff

/-- The patterns that a node declares names by in a scope of its own. -/
def scopePatterns (node : Node) : List Node :=
  match node.kind.rule with
  | some .function => (node.field "params").nodes
  | some .catchClause => (node.field "param").nodes
  | _ => []

/-- All parameters and caught patterns of a tree are grammatical. -/
def GrammaticalPatterns (tree : Node) : Prop :=
  tree.Everywhere fun node => ∀ pattern ∈ node.scopePatterns, pattern.Grammatical

instance : DecidablePred GrammaticalPatterns :=
  inferInstanceAs (DecidablePred (Everywhere fun node =>
    ∀ pattern ∈ node.scopePatterns, pattern.Grammatical))

/-- A pattern is of one of the pattern kinds or a property, and so are its parts. What it holds
elsewhere does not matter. -/
inductive MadeOfPatterns : Node → Prop
  | intro {pattern : Node} (kind : pattern.kind.isPattern = true ∨ pattern.kind = .property)
      (parts : ∀ slot, pattern.kind.patternSlot? = some slot →
        ∀ part ∈ (pattern.field slot.name).nodes, MadeOfPatterns part) : MadeOfPatterns pattern

theorem madeOfPatterns_iff {pattern : Node} :
    pattern.MadeOfPatterns ↔ (pattern.kind.isPattern = true ∨ pattern.kind = .property) ∧
      ∀ part ∈ pattern.patternParts, part.MadeOfPatterns := by
  rw [forall_patternParts]
  exact ⟨fun ⟨here, parts⟩ => ⟨here, parts⟩, fun ⟨here, parts⟩ => .intro here parts⟩

instance : DecidablePred MadeOfPatterns :=
  recBySize fun pattern below =>
    letI := decideEach pattern.patternParts fun _ member =>
      below _ (size_lt_of_mem_patternParts member)
    decidable_of_iff' _ madeOfPatterns_iff

/-- All parameters and caught patterns of a tree are made of patterns. -/
def TakesPatterns (tree : Node) : Prop :=
  tree.Everywhere fun node => ∀ pattern ∈ node.scopePatterns, pattern.MadeOfPatterns

instance : DecidablePred TakesPatterns :=
  inferInstanceAs (DecidablePred (Everywhere fun node =>
    ∀ pattern ∈ node.scopePatterns, pattern.MadeOfPatterns))

/-! ### Where the parts are -/

/-- What is listed for the nodes directly below a node, if nothing is listed for those in all slots
but one. -/
theorem flatMap_children {α : Type} (list : Node → List α) {node : Node} {slot : String}
    (distinct : node.slots.Nodup)
    (only : ∀ entry ∈ node.fields, entry.1 ≠ slot → entry.2.nodes.flatMap list = []) :
    node.children.flatMap list = (node.field slot).nodes.flatMap list := by
  obtain ⟨kind, fields⟩ := node
  rw [children, field, get?]
  rw [slots] at distinct
  simp only at distinct only ⊢
  induction fields with
  | nil => rfl
  | cons entry rest inductionHypothesis =>
    obtain ⟨name, held⟩ := entry
    obtain ⟨fresh, restDistinct⟩ := List.nodup_cons.mp distinct
    have restEq := inductionHypothesis restDistinct fun other member =>
      only other (List.mem_cons_of_mem _ member)
    rw [List.flatMap_cons, List.flatMap_append, restEq, Entries.find?]
    by_cases equal : name = slot
    · have missing : Entries.find? rest slot = none := by
        cases found : Entries.find? rest slot with
        | none => rfl
        | some other =>
          exact absurd (List.mem_map.mpr ⟨_, Entries.mem_of_find? found, equal.symm⟩) fresh
      rw [if_pos equal, missing]
      exact List.append_nil _
    · rw [if_neg equal, only (name, held) List.mem_cons_self equal]
      rfl

/-- The nodes directly below a node that holds nodes in one slot only. -/
theorem children_of_holdsOnly {node : Node} {slot : String} (distinct : node.slots.Nodup)
    (only : node.HoldsOnly slot) : node.children = (node.field slot).nodes := by
  have listed := flatMap_children (fun child => [child]) distinct fun entry member different => by
    rw [only entry member different, List.flatMap_nil]
  rwa [List.flatMap_singleton', List.flatMap_singleton'] at listed

theorem child?_eq_field (node : Node) (slot : String) :
    node.child? slot =
      match node.field slot with
      | .node child => some child
      | _ => none := by
  rw [child?, field]
  cases node.get? slot with
  | none => rfl
  | some held => cases held <;> rfl

/-- The nodes of a field for one node or nothing. -/
theorem nodes_of_accepts_node {node : Node} {slot : String}
    (accepted : (Slot.node slot).accepts (node.field slot) = true) :
    (node.field slot).nodes = (node.child? slot).toList := by
  rw [child?_eq_field]
  cases held : node.field slot with
  | absent => rfl
  | node child => rfl
  | list items =>
    rw [held] at accepted
    cases accepted
  | value plain =>
    rw [held] at accepted
    cases accepted

end Node

section

variable {intercepts : Kind → Bool} {outer scope : Env}

theorem FaultFree.of_patternItemsStops {slot : String} {start : Nat} {items : List (Option Node)}
    (faultFree : FaultFree (patternItemsStops intercepts outer scope slot start items)) :
    ∀ child, some child ∈ items →
      ∃ scope, FaultFree (patternStops intercepts outer scope child) := by
  induction items generalizing scope start with
  | nil => exact fun _ member => absurd member List.not_mem_nil
  | cons item rest inductionHypothesis =>
    intro child member
    cases item with
    | none =>
      rw [patternItemsStops] at faultFree
      rcases List.mem_cons.mp member with head | tail
      · cases head
      · exact inductionHypothesis faultFree child tail
    | some first =>
      rw [patternItemsStops] at faultFree
      rcases List.mem_cons.mp member with head | tail
      · obtain rfl := Option.some.inj head
        exact ⟨scope, faultFree.left.of_map_below⟩
      · exact inductionHypothesis faultFree.right child tail

/-- Patterns in a field that is not malformed are not malformed either. -/
theorem FaultFree.of_patternFieldStops {kind : Kind} {slot : Slot} {held : Field Node}
    (faultFree : FaultFree (patternFieldStops intercepts outer scope kind slot held)) :
    slot.accepts held = true ∧
      ∀ child ∈ held.nodes, ∃ scope, FaultFree (patternStops intercepts outer scope child) := by
  rw [patternFieldStops.eq_def] at faultFree
  split at faultFree
  · rename_i accepted
    refine ⟨accepted, fun child member => ?_⟩
    cases held with
    | absent => cases member
    | value plain => cases member
    | node only =>
      obtain rfl := List.mem_singleton.mp member
      exact ⟨scope, faultFree.of_map_below⟩
    | list items =>
      obtain ⟨item, itemMember, equal⟩ := List.mem_filterMap.mp member
      obtain rfl : item = some child := equal
      exact faultFree.of_patternItemsStops child itemMember
  · exact absurd (List.mem_singleton.mpr rfl) (faultFree _)

/-- The slot with the parts of a pattern is one of its rule. -/
theorem Kind.mem_ruleSlots_of_patternSlot? {kind : Kind} {slot : Slot}
    (pattern : kind.patternSlot? = some slot) : slot ∈ kind.ruleSlots := by
  unfold patternSlot? at pattern
  split at pattern
  all_goals first | (obtain rfl := Option.some.inj pattern; decide) | cases pattern

/-- The parts of a pattern that is walked part by part and is not malformed. -/
theorem FaultFree.of_patternStops {pattern : Node}
    (faultFree : FaultFree (patternStops intercepts outer scope pattern))
    (passed : ¬ intercepts pattern.kind = true) {slot : Slot}
    (patternSlot : pattern.kind.patternSlot? = some slot) :
    slot.accepts (pattern.field slot.name) = true ∧
      ∀ part ∈ (pattern.field slot.name).nodes,
        ∃ scope, FaultFree (patternStops intercepts outer scope part) := by
  rw [patternStops, if_neg passed, patternSlot] at faultFree
  have inner := faultFree.of_flatMap (Kind.mem_ruleSlots_of_patternSlot? patternSlot)
  rw [if_pos rfl] at inner
  exact inner.of_patternFieldStops

/-! ### The names of a grammatical pattern -/

namespace Node

/-- What a pattern binds is what its key binds, if its value is no pattern, and what the nodes in
the slot with its parts bind. -/
theorem boundNames_of_shape {pattern : Node} (shape : pattern.PatternShape)
    (distinct : pattern.slots.Nodup) {slot : Slot}
    (patternSlot : pattern.kind.patternSlot? = some slot)
    (accepted : slot.accepts (pattern.field slot.name) = true) :
    pattern.boundNames =
      pattern.keyNames ++ (pattern.field slot.name).nodes.flatMap boundNames := by
  rw [PatternShape] at shape
  unfold Kind.patternSlot? at patternSlot
  split at patternSlot
  case h_1 kind =>
    obtain rfl := Option.some.inj patternSlot
    have parts : (pattern.field "left").nodes = _ := nodes_of_accepts_node accepted
    simp [boundNames_eq pattern, kind, bindingParts, keyNames, Slot.node, parts]
  case h_2 kind =>
    obtain rfl := Option.some.inj patternSlot
    have parts : (pattern.field "argument").nodes = _ := nodes_of_accepts_node accepted
    simp [boundNames_eq pattern, kind, bindingParts, keyNames, Slot.node, parts]
  case h_3 kind =>
    obtain rfl := Option.some.inj patternSlot
    rw [kind] at shape
    rcases shape with missing | ⟨value, held, isPattern⟩
    · have noValue : pattern.child? "value" = none := by rw [child?_eq_field, missing]
      simp [boundNames_eq pattern, kind, bindingParts, keyNames, Slot.node, missing, noValue,
        boundNamesOf, Field.nodes]
    · have found : pattern.child? "value" = some value := by rw [child?_eq_field, held]
      simp [boundNames_eq pattern, kind, bindingParts, keyNames, Slot.node, held, found, isPattern,
        Field.nodes]
  case h_4 kind =>
    obtain rfl := Option.some.inj patternSlot
    rw [kind] at shape
    have parts : pattern.children = _ := children_of_holdsOnly distinct shape
    simp [boundNames_eq pattern, kind, bindingParts, keyNames, Slot.list, parts]
  case h_5 kind =>
    obtain rfl := Option.some.inj patternSlot
    rw [kind] at shape
    have parts : pattern.children = _ := children_of_holdsOnly distinct shape
    simp [boundNames_eq pattern, kind, bindingParts, keyNames, Slot.list, parts]
  case h_6 => cases patternSlot

/-- Walking a grammatical pattern declares the names it binds, whatever is intercepted. -/
theorem registered_eq_boundNames {pattern : Node} (grammatical : pattern.Grammatical)
    (wellFormed : pattern.WellFormed)
    (faultFree : FaultFree (patternStops intercepts outer scope pattern)) :
    pattern.registered intercepts = pattern.boundNames := by
  induction grammatical generalizing scope with
  | @intro pattern shape _ inductionHypothesis =>
    rw [registered_eq]
    split
    · rfl
    rename_i passed
    split
    · rename_i slot patternSlot
      obtain ⟨accepted, parts⟩ := faultFree.of_patternStops passed patternSlot
      rw [boundNames_of_shape shape wellFormed.here patternSlot accepted]
      refine congrArg _ (List.flatMap_congr fun part member => ?_)
      obtain ⟨inner, partFree⟩ := parts part member
      exact inductionHypothesis slot patternSlot part member
        (wellFormed.child (mem_children_of_mem_nodes member)) partFree
    · rename_i noSlot
      have identifier : pattern.kind = .identifier := by
        rw [PatternShape] at shape
        split at shape
        all_goals first | assumption | contradiction | simp_all [Kind.patternSlot?]
      rw [if_pos identifier, boundNames_eq, if_pos identifier]

/-- A pattern declares the names that it binds, when it is walked and is not malformed. -/
def RegistersBound (intercepts : Kind → Bool) (pattern : Node) : Prop :=
  ∀ outer scope : Env, FaultFree (patternStops intercepts outer scope pattern) →
    pattern.registered intercepts = pattern.boundNames

theorem Grammatical.registersBound {pattern : Node} (grammatical : pattern.Grammatical)
    (wellFormed : pattern.WellFormed) : pattern.RegistersBound intercepts :=
  fun _ _ faultFree => registered_eq_boundNames grammatical wellFormed faultFree

/-- Following the agenda of a node finds no fault in the patterns of its scope. -/
theorem faultFree_scopePatterns {node : Node} {env : Env}
    (faultFree : FaultFree (agenda intercepts env node)) :
    ∀ pattern ∈ node.scopePatterns,
      ∃ outer scope, FaultFree (patternStops intercepts outer scope pattern) := by
  intro pattern member
  rw [scopePatterns] at member
  rw [agenda] at faultFree
  split at member
  · rename_i rule
    rw [rule] at faultFree
    exact ⟨env, faultFree.right.left.of_patternFieldStops.2 pattern member⟩
  · rename_i rule
    rw [rule] at faultFree
    exact ⟨env, faultFree.left.of_patternFieldStops.2 pattern member⟩
  · cases member

/-- Patterns of a field that declare the names they bind when they are walked declare all names that
are bound in the field. -/
theorem registered_field {kind : Kind} {slot : Slot} {held : Field Node}
    (each : ∀ pattern ∈ held.nodes, pattern.RegistersBound intercepts)
    (faultFree : FaultFree (patternFieldStops intercepts outer scope kind slot held)) :
    held.registered intercepts = held.nodes.flatMap boundNames := by
  rw [Field.registered]
  refine List.flatMap_congr fun pattern member => ?_
  obtain ⟨_, patternFree⟩ := faultFree.of_patternFieldStops.2 pattern member
  exact each pattern member _ _ patternFree

/-- The patterns of a scope declare the names they bind, if they are grammatical. -/
theorem registered_scopePatterns {node : Node} {patterns : Slot} (wellFormed : node.WellFormed)
    (grammatical : ∀ pattern ∈ node.scopePatterns, pattern.Grammatical)
    (inSlot : (node.field patterns.name).nodes = node.scopePatterns)
    (faultFree : FaultFree (patternFieldStops intercepts outer scope node.kind patterns
      (node.field patterns.name))) :
    (node.field patterns.name).registered intercepts = node.scopePatterns.flatMap boundNames := by
  rw [← inSlot] at grammatical ⊢
  refine registered_field (fun pattern member => ?_) faultFree
  exact (grammatical pattern member).registersBound
    (wellFormed.child (mem_children_of_mem_nodes member))

/-- A catch clause hoists the names of the pattern that it catches with. -/
theorem boundNames_subset_hoistedNames {node : Node} (rule : node.kind.rule = some .catchClause)
    (accepted : Slot.catchParam.accepts (node.field "param") = true) :
    node.scopePatterns.flatMap boundNames ⊆ node.hoistedNames := by
  have kind : node.kind = .catchClause := by
    unfold Kind.rule at rule
    split at rule
    all_goals first | assumption | cases rule
  have declared : node.declaredNames = node.boundNamesOf "param" := by rw [declaredNames, kind]
  have inSlot : node.scopePatterns = (node.child? "param").toList := by
    rw [scopePatterns, rule]
    exact nodes_of_accepts_node accepted
  rw [hoistedNames_eq, declared, inSlot]
  exact List.subset_append_right _ _

theorem mem_children_of_mem_scopePatterns {node pattern : Node}
    (member : pattern ∈ node.scopePatterns) : pattern ∈ node.children := by
  rw [scopePatterns] at member
  split at member
  · exact mem_children_of_mem_nodes member
  · exact mem_children_of_mem_nodes member
  · cases member

end Node

end

end EstreeScopes
