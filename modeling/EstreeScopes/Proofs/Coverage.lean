/-
This file shows that the search for free references keeps hoisted names visible.
A scope hoists the names of the declarations below it, and the search later comes
to these declarations inside the scope. The names are there if hoisting gets to
the declaration, so nothing may stand between the scope and the declaration that
hoisting does not go through (`Hoists`).

A visit of the search is either made directly below a node or in a pattern of the
scope that the node opens (`visitsFrom_of_mem_agenda`). In both cases the names
hoisted out of the visited node are visible where it is visited, unless the node
is shielded, and then nothing is declared in it (`Covers.step`).
-/

import EstreeScopes.Proofs.BindingPositions
import EstreeScopes.Proofs.Search

namespace EstreeScopes

/-! ### Declarations that are hoisted -/

namespace Kind

/-- Whether a way through a slot of a node goes into the body of a scope. -/
def entersScope (kind : Kind) (slot : String) : Bool :=
  match kind.rule with
  | some .program => true
  | some .function | some .catchClause => slot == "body"
  | _ => false

/-- Whether a way through a slot of a node goes through a declarator, a class, a function beside its
body, or the pattern of a catch clause. -/
def shields (kind : Kind) (slot : String) : Bool :=
  match kind with
  | .variableDeclarator | .classDeclaration | .classExpression => true
  | .functionDeclaration | .functionExpression | .arrowFunctionExpression => slot != "body"
  | .catchClause => slot == "param"
  | _ => false

/-- Whether a node names something of another module. -/
def isImportSpecifier : Kind → Bool
  | .importSpecifier | .importDefaultSpecifier | .importNamespaceSpecifier => true
  | _ => false

/-- Whether a way through a slot of a node goes through one of these, or an import specifier. -/
def shieldsOrImports (kind : Kind) (slot : String) : Bool :=
  kind.shields slot || kind.isImportSpecifier

/-- The declarations whose names are hoisted to the scope around them. -/
def isDeclaration : Kind → Bool
  | .variableDeclarator | .functionDeclaration | .classDeclaration => true
  | _ => false

end Kind

/-- No declaration in a tree is shielded from the innermost program, function body or catch body
around it. It is told whether the tree itself is shielded. -/
inductive Node.Hoists (shields : Kind → String → Bool) : Bool → Node → Prop
  | intro {shielded : Bool} {node : Node}
      (here : node.kind.isDeclaration = true → shielded = false)
      (below : ∀ entry ∈ node.fields, ∀ child ∈ entry.2.nodes,
        Hoists shields
          (!node.kind.entersScope entry.1 && (shielded || shields node.kind entry.1)) child) :
      Hoists shields shielded node

namespace Node

section

variable {shields : Kind → String → Bool} {shielded : Bool}

/-- A tree hoists its declarations if the node does, and the nodes below. -/
theorem hoists_iff {node : Node} :
    node.Hoists shields shielded ↔ (node.kind.isDeclaration = true → shielded = false) ∧
      ∀ entry ∈ node.fields, ∀ child ∈ entry.2.nodes, child.Hoists shields
        (!node.kind.entersScope entry.1 && (shielded || shields node.kind entry.1)) :=
  ⟨fun ⟨here, below⟩ => ⟨here, below⟩, fun ⟨here, below⟩ => .intro here below⟩

/-- Whether a tree hoists its declarations, for a shielded tree and for one that is not. -/
def decideHoists (shields : Kind → String → Bool) :
    (node : Node) → (shielded : Bool) → Decidable (node.Hoists shields shielded) :=
  recBySize fun node below shielded =>
    letI : Decidable (∀ entry ∈ node.fields, ∀ child ∈ entry.2.nodes, child.Hoists shields
        (!node.kind.entersScope entry.1 && (shielded || shields node.kind entry.1))) :=
      decideEach node.fields fun entry inFields =>
        decideEach entry.2.nodes fun child inField =>
          below child (size_lt_of_mem_children (List.mem_flatMap.mpr ⟨entry, inFields, inField⟩)) _
    decidable_of_iff' _ hoists_iff

instance (node : Node) : Decidable (node.Hoists shields shielded) :=
  decideHoists shields node shielded

theorem Hoists.here {node : Node} (hoists : node.Hoists shields shielded)
    (declaration : node.kind.isDeclaration = true) : shielded = false :=
  (hoists_iff.mp hoists).1 declaration

theorem Hoists.child {node child : Node} (hoists : node.Hoists shields shielded) {place : Place}
    (held : node.held? place = some child) :
    child.Hoists shields
      (!node.kind.entersScope place.slot && (shielded || shields node.kind place.slot)) := by
  obtain ⟨_, entry, inEntry⟩ := exists_entry_of_mem_nodes (mem_nodes_of_held? held)
  exact (hoists_iff.mp hoists).2 _ entry child inEntry

/-- A pattern with parts opens no scope, so the parts of a shielded one are shielded. -/
theorem Hoists.part {pattern part : Node} (hoists : pattern.Hoists shields true) {slot : Slot}
    {place : Place} (patternSlot : pattern.kind.patternSlot? = some slot)
    (held : pattern.held? place = some part) : part.Hoists shields true := by
  have partHoists := hoists.child held
  rwa [Kind.entersScope, Kind.rule_of_patternSlot? patternSlot] at partHoists

end

end Node

/-! ### Environments further down -/

/-- The names that are visible in an environment are visible in another. -/
def Env.Within (env inner : Env) : Prop :=
  ∀ name, env.contains name = true → inner.contains name = true

namespace Env.Within

theorem refl (env : Env) : env.Within env := fun _ visible => visible

theorem trans {first second third : Env} (early : first.Within second)
    (late : second.Within third) : first.Within third :=
  fun name visible => late name (early name visible)

theorem child {env inner : Env} (within : env.Within inner) : env.Within inner.child := within

theorem declareAll {env inner : Env} (within : env.Within inner) (names : List String) :
    env.Within (inner.declareAll names) :=
  fun name visible => contains_declareAll.mpr (Or.inl (within name visible))

end Env.Within

section

variable {intercepts : Kind → Bool} {env inner outer scope : Env} {node pattern target : Node}
  {address : Address}

/-- A visit that is made while a pattern is walked in a scope: the pattern is handed over, it is no
pattern and visited as it is, or the visit is made further down, in the environment around the scope
or in a part of the pattern. -/
inductive PatternVisit (intercepts : Kind → Bool) (outer inner : Env) (target : Node) :
    Env → Node → Address → Prop
  | handedOver {scope : Env} (shown : inner = scope.declareAll target.boundNames) :
      PatternVisit intercepts outer inner target scope target []
  | noPattern {scope : Env} (passed : intercepts target.kind = false)
      (noSlot : target.kind.patternSlot? = none) (shown : inner = scope) :
      PatternVisit intercepts outer inner target scope target []
  | outside {scope : Env} {pattern : Node} {slot : Slot} {place : Place}
      (passed : intercepts pattern.kind = false)
      (patternSlot : pattern.kind.patternSlot? = some slot)
      (outerSlot : pattern.kind.outerSlot? = some place.slot)
      (held : pattern.held? place = some target) (shown : inner = outer) :
      PatternVisit intercepts outer inner target scope pattern [place]
  | inPart {scope : Env} {pattern part : Node} {slot : Slot} {place : Place} {rest : Address}
      {names : List String} (patternSlot : pattern.kind.patternSlot? = some slot)
      (inSlot : place.slot = slot.name) (held : pattern.held? place = some part)
      (visit : PatternVisit intercepts outer inner target (scope.declareAll names) part rest) :
      PatternVisit intercepts outer inner target scope pattern (place :: rest)

/-- A pattern that is walked part by part is not handed over. -/
theorem not_intercepted_of_mem_patternStops {place : Place} {rest : Address}
    (member : .visit (place :: rest) inner target ∈ patternStops intercepts outer scope pattern) :
    intercepts pattern.kind = false := by
  rw [patternStops] at member
  split at member
  · cases List.mem_singleton.mp member
  · rename_i passed
    exact Bool.eq_false_iff.mpr passed

theorem patternVisit_of_mem
    (member : .visit address inner target ∈ patternStops intercepts outer scope pattern) :
    PatternVisit intercepts outer inner target scope pattern address := by
  induction address generalizing pattern scope with
  | nil =>
    obtain ⟨_, rfl, ⟨_, shown⟩ | ⟨passed, noSlot, shown⟩⟩ | ⟨_, _, _, _, _, equal, _⟩ :=
      mem_patternStops member
    · exact .handedOver shown
    · exact .noPattern (Bool.eq_false_iff.mpr passed) noSlot shown
    · cases equal
  | cons place rest inductionHypothesis =>
    have passed := not_intercepted_of_mem_patternStops member
    obtain ⟨equal, _⟩ | ⟨slot, _, part, _, patternSlot, equal, held, inside⟩ :=
      mem_patternStops member
    · cases equal
    obtain ⟨rfl, rfl⟩ := List.cons.inj equal
    obtain ⟨outerSlot, rfl, rfl, shown⟩ | ⟨inSlot, visited⟩ := inside
    · exact .outside passed patternSlot outerSlot held shown
    · exact .inPart patternSlot inSlot held (inductionHypothesis visited)

/-- Names that are visible around a pattern and in its scope stay visible while it is walked. -/
theorem PatternVisit.within
    (visit : PatternVisit intercepts outer inner target scope pattern address)
    (outerWithin : env.Within outer) (within : env.Within scope) : env.Within inner := by
  induction visit with
  | handedOver shown => exact shown ▸ within.declareAll _
  | noPattern _ _ shown => exact shown ▸ within
  | outside _ _ _ _ shown => exact shown ▸ outerWithin
  | inPart _ _ _ _ inductionHypothesis => exact inductionHypothesis (within.declareAll _)

/-- Names that are hoisted out of a part are hoisted out of the node. -/
theorem Node.hoistedNames_subset {part : Node} (member : part ∈ node.hoistingParts) :
    part.hoistedNames ⊆ node.hoistedNames := by
  intro name hoisted
  rw [hoistedNames_eq node]
  exact List.mem_append_left _ (List.mem_flatMap.mpr ⟨part, member, hoisted⟩)

/-- The names of a declaration are hoisted out of it. -/
theorem Node.declaredNames_subset (node : Node) : node.declaredNames ⊆ node.hoistedNames := by
  rw [hoistedNames_eq]
  exact List.subset_append_right _ _

/-- Names are hoisted through every node that does not shield them, if it opens no scope. -/
theorem Node.mem_hoistingParts_of_held? {place : Place} {child : Node}
    (held : node.held? place = some child)
    (closed : node.kind.rule.any Rule.opensScope = false)
    (unshielded : node.kind.shieldsOrImports place.slot = false) :
    child ∈ node.hoistingParts := by
  have below := mem_children_of_held? held
  rw [hoistingParts]
  split
  all_goals first
    | exact below
    | simp_all [Kind.shieldsOrImports, Kind.shields, Kind.isImportSpecifier, Kind.rule,
        Rule.opensScope]

/-- What is known of a visit directly below a node. If it goes into the body of a scope the names
hoisted out of the visited node are visible, and otherwise these names are hoisted out of the node
as well, unless it shields them. -/
structure VisitsBelow (env inner : Env) (node : Node) (place : Place) (target : Node) : Prop where
  held : node.held? place = some target
  within : env.Within inner
  noPattern : node.kind.bindsPatternAt place = true → node.kind = .variableDeclarator
  enters : node.kind.entersScope place.slot = true →
    ∀ name ∈ target.hoistedNames, inner.contains name = true
  hoists : node.kind.entersScope place.slot = false →
    node.kind.shieldsOrImports place.slot = false → target ∈ node.hoistingParts

/-- What is known of a visit in the agenda of a node: it is made directly below, or in a pattern of
the scope that the node opens, which shields what stands in it. -/
inductive VisitsFrom (intercepts : Kind → Bool) (env inner : Env) (node target : Node) :
    Address → Prop
  | directly {place : Place} (visits : VisitsBelow env inner node place target) :
      VisitsFrom intercepts env inner node target [place]
  | inPattern {place : Place} {pattern : Node} {rest : Address} {scope : Env}
      (held : node.held? place = some pattern) (ofScope : pattern ∈ node.scopePatterns)
      (outside : node.kind.entersScope place.slot = false)
      (shields : node.kind.shieldsOrImports place.slot = true) (within : env.Within scope)
      (visit : PatternVisit intercepts env inner target scope pattern rest) :
      VisitsFrom intercepts env inner node target (place :: rest)

/-- A visit in a slot of a node that opens no scope. -/
theorem visitsBelow_of_held? {place : Place} (held : node.held? place = some target)
    (closed : node.kind.rule.any Rule.opensScope = false) :
    VisitsBelow env env node place target where
  held := held
  within := .refl env
  noPattern binds := by
    unfold Kind.bindsPatternAt at binds
    split at binds
    all_goals first
      | assumption
      | simp_all [Kind.rule, Rule.opensScope]
  enters enters := by
    unfold Kind.entersScope at enters
    split at enters
    all_goals simp_all [Rule.opensScope]
  hoists _ unshielded := Node.mem_hoistingParts_of_held? held closed unshielded

/-- A visit in a slot for one node is that of the node. -/
theorem child?_of_mem_slotStops {kind : Kind} {slot : String}
    (member : .visit address inner target ∈
      slotStops outer kind (.node slot) (node.field slot)) : node.child? slot = some target := by
  rw [slotStops] at member
  split at member
  · rename_i accepted
    obtain ⟨⟨place, child⟩, placeMember, equal⟩ := List.mem_map.mp member
    obtain ⟨rfl, rfl, rfl⟩ := Stop.visit.inj equal
    have inField := Field.mem_nodes_of_mem_places placeMember
    rw [Node.nodes_of_accepts_node accepted] at inField
    exact Option.mem_toList.mp inField
  · cases List.mem_singleton.mp member

theorem Kind.eq_program_of_rule {kind : Kind} (rule : kind.rule = some .program) :
    kind = .program := by
  unfold Kind.rule at rule
  split at rule
  all_goals first | rfl | cases rule

theorem Kind.eq_catchClause_of_rule {kind : Kind} (rule : kind.rule = some .catchClause) :
    kind = .catchClause := by
  unfold Kind.rule at rule
  split at rule
  all_goals first | rfl | cases rule

/-- A function shields what stands beside its body. -/
theorem Kind.shields_of_function {kind : Kind} (rule : kind.rule = some .function) {slot : String}
    (beside : slot ≠ "body") : kind.shieldsOrImports slot = true := by
  unfold Kind.rule at rule
  split at rule
  all_goals first
    | (cases rule; done)
    | simp [shieldsOrImports, shields, beside]

/-- No pattern stands in a body. -/
theorem Kind.bindsPatternAt_body (kind : Kind) {place : Place} (body : place.slot = "body") :
    kind.bindsPatternAt place = false := by
  obtain ⟨slot, index⟩ := place
  obtain rfl : slot = "body" := body
  unfold bindsPatternAt
  split <;> simp

/-- A visit of the name of a function. -/
theorem visitsFrom_of_mem_functionId (rule : node.kind.rule = some .function)
    (member : .visit address inner target ∈
      slotStops env node.kind .functionId (node.field Slot.functionId.name)) :
    VisitsFrom intercepts env inner node target address := by
  obtain ⟨rfl, place, rfl, inSlot, held⟩ := mem_slotStops member
  have beside : place.slot ≠ "body" := by rw [inSlot]; decide
  refine .directly ⟨held, .refl _, fun binds => ?_, fun enters => ?_, fun _ unshielded => ?_⟩
  · unfold Kind.bindsPatternAt at binds
    split at binds
    all_goals first
      | assumption
      | simp_all [Kind.rule, Slot.functionId, Slot.node]
  · simp [Kind.entersScope, rule, beside] at enters
  · rw [Kind.shields_of_function rule beside] at unshielded
    cases unshielded

/-- A visit in the body of a scope that shows the names hoisted out of the visited node. -/
theorem visitsFrom_of_mem_bodyStops {body : Slot} (inBody : body.name = "body")
    (enters : node.kind.entersScope "body" = true) (within : env.Within scope)
    (visible : .visit address inner target ∈
        slotStops scope node.kind body (node.field body.name) →
      ∀ name ∈ target.hoistedNames, scope.contains name = true)
    (member : .visit address inner target ∈ bodyStops scope node body) :
    VisitsFrom intercepts env inner node target address := by
  have visited := (List.mem_cons.mp member).resolve_left Stop.noConfusion
  have shown := visible visited
  obtain ⟨rfl, place, rfl, inSlot, held⟩ := mem_slotStops visited
  rw [inBody] at inSlot
  refine .directly ⟨held, within, fun binds => ?_, fun _ => shown, fun outside => ?_⟩
  · rw [node.kind.bindsPatternAt_body inSlot] at binds
    cases binds
  · rw [inSlot, enters] at outside
    cases outside

/-- A visit in a scope with patterns that shows the names hoisted out of its body. -/
theorem visitsFrom_of_mem_scopeStops {patterns : Slot}
    (enters : node.kind.entersScope "body" = true)
    (outside : node.kind.entersScope patterns.name = false)
    (shields : node.kind.shieldsOrImports patterns.name = true)
    (ofScope : (node.field patterns.name).nodes = node.scopePatterns)
    (within : env.Within scope)
    (visible : ∀ name ∈ node.hoistedNamesOf "body", scope.contains name = true)
    (member : .visit address inner target ∈
      scopeStops intercepts env scope node patterns (.node "body")) :
    VisitsFrom intercepts env inner node target address := by
  rcases List.mem_append.mp member with inPatterns | inBody
  · obtain ⟨place, pattern, rest, rfl, inSlot, held, visited⟩ := mem_patternFieldStops inPatterns
    rw [← inSlot] at outside shields ofScope
    exact .inPattern held (ofScope ▸ Node.mem_nodes_of_held? held) outside shields
      (within.declareAll _) (patternVisit_of_mem visited)
  · refine visitsFrom_of_mem_bodyStops rfl enters (within.declareAll _)
      (fun visited name hoisted => ?_) inBody
    refine (Env.Within.refl scope).declareAll _ name (visible name ?_)
    rw [Node.hoistedNamesOf, child?_of_mem_slotStops visited]
    exact List.mem_flatMap.mpr ⟨target, List.mem_singleton.mpr rfl, hoisted⟩

/-- Every visit in the agenda of a node is of one of the two sorts. -/
theorem visitsFrom_of_mem_agenda
    (member : .visit address inner target ∈ agenda intercepts env node) :
    VisitsFrom intercepts env inner node target address := by
  rw [agenda] at member
  cases rule : node.kind.rule with
  | none =>
    rw [rule] at member
    cases member
  | some rule' =>
    rw [rule] at member
    cases rule' with
    | slots slots =>
      obtain ⟨slot, _, visited⟩ := List.mem_flatMap.mp member
      obtain ⟨rfl, place, rfl, _, held⟩ := mem_slotStops visited
      exact .directly (visitsBelow_of_held? held (by rw [rule]; rfl))
    | children =>
      obtain ⟨slot, _, visited⟩ := List.mem_flatMap.mp member
      obtain ⟨⟨place, child⟩, placeMember, equal⟩ := List.mem_map.mp visited
      obtain ⟨rfl, rfl, rfl⟩ := Stop.visit.inj equal
      exact .directly
        (visitsBelow_of_held? (Node.held?_of_mem_places placeMember) (by rw [rule]; rfl))
    | program =>
      refine visitsFrom_of_mem_bodyStops rfl (by rw [Kind.entersScope, rule])
        ((Env.Within.refl env).child.declareAll _) (fun visited name hoisted => ?_) member
      obtain ⟨_, place, _, _, held⟩ := mem_slotStops visited
      refine Env.contains_declareAll.mpr (Or.inr (Node.hoistedNames_subset ?_ hoisted))
      rw [Node.hoistingParts, Kind.eq_program_of_rule rule]
      exact Node.mem_children_of_held? held
    | function =>
      rcases List.mem_append.mp member with named | inScope
      · exact visitsFrom_of_mem_functionId rule named
      · refine visitsFrom_of_mem_scopeStops (by rw [Kind.entersScope, rule]; rfl)
          (by rw [Kind.entersScope, rule]; rfl)
          (Kind.shields_of_function rule (by decide)) (by rw [Node.scopePatterns, rule]; rfl)
          ((Env.Within.refl env).child.declareAll _) (fun name hoisted => ?_) inScope
        exact Env.contains_declareAll.mpr (Or.inr hoisted)
    | catchClause =>
      have kind := Kind.eq_catchClause_of_rule rule
      refine visitsFrom_of_mem_scopeStops (by rw [Kind.entersScope, rule]; rfl)
        (by rw [Kind.entersScope, rule]; rfl) (by rw [kind]; rfl)
        (by rw [Node.scopePatterns, rule]; rfl)
        ((Env.Within.refl env).child.declareAll _) (fun name hoisted => ?_) member
      refine Env.contains_declareAll.mpr (Or.inr ?_)
      rw [Node.hoistedNames_eq, Node.hoistingParts, kind]
      exact List.mem_append_left _ hoisted

theorem VisitsFrom.within (visits : VisitsFrom intercepts env inner node target address) :
    env.Within inner := by
  cases visits with
  | directly visits => exact visits.within
  | inPattern _ _ _ _ within visit => exact visit.within (.refl env) within

end

/-! ### The search -/

namespace Reference

variable {env inner : Env} {node target : Node} {address : Address} {name : String}

theorem within_around (env : Env) (node : Node) : env.Within (around env node) := by
  rw [around]
  split
  · exact (Env.Within.refl env).child.declareAll _
  · exact (Env.Within.refl env).child.declareAll _
  · exact (Env.Within.refl env).child.declareAll _
  · exact .refl env

theorem visitsFrom_of_mem_stops (member : .visit address inner target ∈ stops env node) :
    VisitsFrom table.contains (around env node) inner node target address := by
  rw [stops] at member
  split at member
  · rename_i picked
    have plain : node.kind.rule.any Rule.opensScope = false ∧ around env node = env := by
      unfold picks at picked
      split at picked
      all_goals first
        | (rename_i kind; rw [around, kind]; exact ⟨rfl, rfl⟩)
        | cases picked
    obtain ⟨slot, _, visited⟩ := List.mem_flatMap.mp member
    obtain ⟨⟨place, child⟩, placeMember, equal⟩ := List.mem_map.mp visited
    obtain ⟨rfl, rfl, rfl⟩ := Stop.visit.inj equal
    rw [plain.2]
    exact .directly (visitsBelow_of_held? (Node.held?_of_mem_places placeMember) plain.1)
  · exact visitsFrom_of_mem_agenda member

/-- Names that are visible at a node stay visible further down. -/
theorem within_of_mem_itinerary (member : .visit address inner target ∈ itinerary env node) :
    env.Within inner := by
  induction size : node.size using Nat.strongRecOn generalizing env node address with
  | _ bound inductionHypothesis =>
  subst size
  obtain ⟨_, rfl, _⟩ | ⟨first, middle, child, rest, _, stopMember, visited⟩ :=
    mem_itinerary member
  · exact .refl _
  · have smaller := (at?_of_mem_stops stopMember).2
    exact (within_around env node).trans ((visitsFrom_of_mem_stops stopMember).within.trans
      (inductionHypothesis child.size smaller visited rfl))

/-- The names that are hoisted out of a node are visible, unless the node is shielded. Nothing is
declared in a shielded node up to the next scope. -/
def Covers (env : Env) (node : Node) : Prop :=
  ∃ shielded, node.Hoists Kind.shieldsOrImports shielded ∧
    (shielded = false → ∀ name ∈ node.hoistedNames, env.contains name = true)

/-- A declaration declares its names in the scope around it. -/
theorem Covers.declared (covers : Covers env node) (declaration : node.kind.isDeclaration = true)
    (declared : name ∈ node.declaredNames) : env.contains name = true := by
  obtain ⟨shielded, hoists, visible⟩ := covers
  exact visible (hoists.here declaration) name (node.declaredNames_subset declared)

/-- What stands in a shielded pattern is shielded. -/
theorem hoists_of_patternVisit {intercepts : Kind → Bool} {outer scope : Env} {pattern : Node}
    (visit : PatternVisit intercepts outer inner target scope pattern address)
    (hoists : pattern.Hoists Kind.shieldsOrImports true) :
    target.Hoists Kind.shieldsOrImports true := by
  induction visit with
  | handedOver => exact hoists
  | noPattern => exact hoists
  | outside _ patternSlot _ held => exact hoists.part patternSlot held
  | inPart patternSlot _ held _ inductionHypothesis =>
    exact inductionHypothesis (hoists.part patternSlot held)

/-- A visit keeps the names visible that are hoisted out of the visited node. -/
theorem Covers.step {intercepts : Kind → Bool} {outer : Env} (covers : Covers env node)
    (within : env.Within outer)
    (visits : VisitsFrom intercepts outer inner node target address) : Covers inner target := by
  obtain ⟨shielded, hoists, visible⟩ := covers
  cases visits with
  | directly visits =>
    refine ⟨_, hoists.child visits.held, fun unshielded name hoisted => ?_⟩
    cases enters : node.kind.entersScope _ with
    | true => exact visits.enters enters name hoisted
    | false =>
      rw [enters, Bool.not_false, Bool.true_and, Bool.or_eq_false_iff] at unshielded
      have part := visits.hoists enters unshielded.2
      exact visits.within name
        (within name (visible unshielded.1 name (Node.hoistedNames_subset part hoisted)))
  | inPattern held _ outside shields _ visit =>
    have patternHoists := hoists.child held
    rw [outside, shields, Bool.or_true] at patternHoists
    exact ⟨true, hoists_of_patternVisit visit patternHoists, fun absurd => nomatch absurd⟩

end Reference

end EstreeScopes
