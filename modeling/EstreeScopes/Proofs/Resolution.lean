/-
This file resolves names directly: one recursion over the tree that carries the
list of visible names and gives the identifiers whose name is not in it. It knows
nothing of walks, transforms or environments. The search for free references
gives the same list (`freeReferences_resolve_lexically`), for all trees whose
parameters and caught patterns are grammatical.

The recursion takes the nodes in the order of the rules and skips what is no
reference. In the patterns of a scope the names of the pattern are no references;
a default value is resolved outside the scope; and a property is resolved inside
it, with the names that are declared up to there, because the search hands
properties over as a whole.
-/

import EstreeScopes.Proofs.Grammar
import EstreeScopes.Proofs.Substitution
import EstreeScopes.Reference

namespace EstreeScopes

namespace Node

/-! ### Resolving names directly -/

/-- An identifier as a reference, unless its name is visible or not to be reported. -/
def ownReference (ignored visible : List String) (node : Node) : List Reference :=
  match node.name? with
  | some name =>
    if name ∈ visible ∨ name ∈ ignored then [] else [{ name, span := node.span? }]
  | none => []

/-- The slots of a node that hold references: those of its rule, without static names, labels and
the names of other modules. -/
def referenceSlots (node : Node) : List String :=
  match node.kind with
  | .memberExpression => if node.flag "computed" then ["object", "property"] else ["object"]
  | .property | .methodDefinition | .propertyDefinition | .classProperty =>
    if node.flag "computed" then ["key", "value"] else ["value"]
  | .labeledStatement => ["body"]
  | .breakStatement | .continueStatement | .importDeclaration | .exportAllDeclaration => []
  | .exportNamedDeclaration =>
    if (node.child? "source").isSome then ["declaration"]
    else ["declaration", "specifiers", "source"]
  | .exportSpecifier => ["local"]
  | _ => node.visitedSlots

/-- The names that a node sees of itself: the own name of a function or class expression, and
`arguments` of a function that is no arrow. -/
def selfNames (node : Node) : List String :=
  match node.kind with
  | .functionDeclaration => ["arguments"]
  | .functionExpression => ((node.child? "id").bind name?).toList ++ ["arguments"]
  | .classExpression => ((node.child? "id").bind name?).toList
  | _ => []

mutual

/-- The references of a tree that are not visible where they stand. -/
def unresolved (ignored visible : List String) (node : Node) : List Reference :=
  let within (visible : List String) (slot : String) : List Reference :=
    (node.field slot).nodes.attach.flatMap fun ⟨child, _⟩ => unresolved ignored visible child
  let outer := visible ++ node.selfNames
  if node.kind = .identifier then node.ownReference ignored visible
  else
    match node.kind.rule with
    | some .program => within (outer ++ node.hoistedNames) "body"
    | some .function =>
      let inside := outer ++ node.hoistedNamesOf "body"
      within outer "id" ++ unresolvedInPatterns ignored outer inside (node.field "params") ++
        within (inside ++ node.scopePatterns.flatMap boundNames) "body"
    | some .catchClause =>
      let inside := outer ++ node.hoistedNames
      unresolvedInPatterns ignored outer inside (node.field "param") ++ within inside "body"
    | _ => node.referenceSlots.flatMap (within outer)
termination_by (node.size, 0)
decreasing_by
  · exact .left _ _
      (Nat.lt_trans (size_lt_of_mem_nodes (by assumption)) (fieldSize_lt_size node slot))
  all_goals exact .left _ _ (fieldSize_lt_size node _)

/-- The references in a pattern that declares its names inside a scope. -/
def unresolvedInPattern (ignored outer inside : List String) (pattern : Node) : List Reference :=
  match pattern.kind with
  | .assignmentPattern =>
    unresolvedInPatterns ignored outer inside (pattern.field "left") ++
      (pattern.field "right").nodes.attach.flatMap
        fun ⟨child, _⟩ => unresolved ignored outer child
  | .restElement => unresolvedInPatterns ignored outer inside (pattern.field "argument")
  | .objectPattern => unresolvedInPatterns ignored outer inside (pattern.field "properties")
  | .arrayPattern => unresolvedInPatterns ignored outer inside (pattern.field "elements")
  | .property => unresolved ignored (inside ++ pattern.boundNames) pattern
  | _ => []
termination_by (pattern.size, 1)
decreasing_by
  all_goals first
    | exact .left _ _ (fieldSize_lt_size pattern _)
    | exact .left _ _
        (Nat.lt_trans (size_lt_of_mem_nodes (by assumption)) (fieldSize_lt_size pattern _))
    | exact .right _ Nat.zero_lt_one

/-- The references in the patterns of a field. -/
def unresolvedInPatterns (ignored outer inside : List String) (held : Field Node) :
    List Reference :=
  match held with
  | .node pattern => unresolvedInPattern ignored outer inside pattern
  | .list items => unresolvedInItems ignored outer inside items
  | .absent | .value _ => []
termination_by (fieldSize held, 0)
decreasing_by all_goals (apply Prod.Lex.left; simp only [fieldSize]; omega)

/-- The references in the patterns of a list. Each pattern sees the names of those before it. -/
def unresolvedInItems (ignored outer inside : List String) (items : List (Option Node)) :
    List Reference :=
  match items with
  | [] => []
  | none :: rest => unresolvedInItems ignored outer inside rest
  | some pattern :: rest =>
    unresolvedInPattern ignored outer inside pattern ++
      unresolvedInItems ignored outer (inside ++ pattern.boundNames) rest
termination_by (itemsSize items, 0)
decreasing_by all_goals (apply Prod.Lex.left; simp only [itemsSize]; omega)

end

/-- The references in the nodes of a slot. -/
def unresolvedIn (ignored visible : List String) (node : Node) (slot : String) : List Reference :=
  (node.field slot).nodes.flatMap (unresolved ignored visible)

/-- The references below a node, in some slots of it if it opens no scope. -/
def unresolvedBelow (ignored outer : List String) (node : Node) (slots : List String) :
    List Reference :=
  match node.kind.rule with
  | some .program => node.unresolvedIn ignored (outer ++ node.hoistedNames) "body"
  | some .function =>
    let inside := outer ++ node.hoistedNamesOf "body"
    node.unresolvedIn ignored outer "id" ++
      unresolvedInPatterns ignored outer inside (node.field "params") ++
      node.unresolvedIn ignored (inside ++ node.scopePatterns.flatMap boundNames) "body"
  | some .catchClause =>
    let inside := outer ++ node.hoistedNames
    unresolvedInPatterns ignored outer inside (node.field "param") ++
      node.unresolvedIn ignored inside "body"
  | _ => slots.flatMap (node.unresolvedIn ignored outer)

theorem unresolved_eq (ignored visible : List String) (node : Node) :
    node.unresolved ignored visible =
      if node.kind = .identifier then node.ownReference ignored visible
      else node.unresolvedBelow ignored (visible ++ node.selfNames) node.referenceSlots := by
  rw [unresolved]
  simp only [List.flatMap_subtype, List.unattach_attach]
  rfl

/-- An identifier is no reference where its own name is visible. -/
theorem ownReference_of_boundNames {node : Node} (kind : node.kind = .identifier)
    (ignored visible : List String) :
    node.ownReference ignored (visible ++ node.boundNames) = [] := by
  rw [boundNames_eq, if_pos kind, ownReference]
  cases node.name? <;> simp

theorem unresolvedInPattern_eq (ignored outer inside : List String) (pattern : Node) :
    pattern.unresolvedInPattern ignored outer inside =
      match pattern.kind with
      | .assignmentPattern =>
        unresolvedInPatterns ignored outer inside (pattern.field "left") ++
          pattern.unresolvedIn ignored outer "right"
      | .restElement => unresolvedInPatterns ignored outer inside (pattern.field "argument")
      | .objectPattern => unresolvedInPatterns ignored outer inside (pattern.field "properties")
      | .arrayPattern => unresolvedInPatterns ignored outer inside (pattern.field "elements")
      | .property => pattern.unresolved ignored (inside ++ pattern.boundNames)
      | _ => [] := by
  rw [unresolvedInPattern]
  simp only [List.flatMap_subtype, List.unattach_attach, unresolvedIn]

end Node

/-! ### Visible names -/

/-- A list holds the names that are visible in an environment. -/
def Env.Shows (env : Env) (visible : List String) : Prop :=
  ∀ name, env.contains name = true ↔ name ∈ visible

namespace Env.Shows

variable {env : Env} {visible : List String}

theorem child (shows : env.Shows visible) : env.child.Shows visible := shows

theorem declareAll (shows : env.Shows visible) (names : List String) :
    (env.declareAll names).Shows (visible ++ names) := by
  intro name
  rw [contains_declareAll, shows name, List.mem_append]

/-- Declaring names that are visible already shows nothing new. -/
theorem declareAll_of_subset (shows : env.Shows visible) {names : List String}
    (present : names ⊆ visible) : (env.declareAll names).Shows visible := by
  intro name
  rw [contains_declareAll, shows name]
  exact ⟨fun either => either.elim id fun member => present member, Or.inl⟩

theorem ofNames (names : List String) : (Env.ofNames names).Shows names := by
  intro name
  rw [Env.ofNames, contains_declareAll]
  simp [contains, frames, root]

end Env.Shows

/-! ### The references along an agenda -/

/-- Following an agenda meets these free references, if it comes to its end. -/
def Meets (options : Reference.Options) (editor : Env → Node → Run Edits) (stops : List Stop)
    (references : List Reference) : Prop :=
  ∀ log edits, Followed editor stops log edits →
    log.filterMap (Reference.ofStep? options) = references

namespace Meets

variable {options : Reference.Options} {editor : Env → Node → Run Edits}

theorem nil : Meets options editor [] [] := by
  intro log edits followed
  cases followed
  rfl

/-- The second part of an agenda is reached if there is no fault in the first. -/
theorem append {first second : List Stop} {early late : List Reference}
    (firstMeets : Meets options editor first early)
    (secondMeets : FaultFree first → Meets options editor second late) :
    Meets options editor (first ++ second) (early ++ late) := by
  intro log edits followed
  obtain ⟨_, _, _, _, rfl, inFirst, inSecond⟩ := followed.of_append
  rw [List.filterMap_append, firstMeets _ _ inFirst, secondMeets inFirst.faultFree _ _ inSecond]

theorem map_below {stops : List Stop} {references : List Reference}
    (meets : Meets options editor stops references) (place : Place) :
    Meets options editor (stops.map (Stop.below place)) references := by
  intro log edits followed
  obtain ⟨made, inside⟩ := followed.of_map_below
  exact meets _ _ inside

theorem enter {stops : List Stop} {references : List Reference}
    (meets : Meets options editor stops references) (kind : Kind) (names : List String) :
    Meets options editor (.enter kind names :: stops) references := by
  intro log edits followed
  cases followed with
  | enter inside =>
    have met := meets _ _ inside
    exact met

theorem flatMap {Key : Type} {keys : List Key} {stops : Key → List Stop}
    {references : Key → List Reference}
    (each : ∀ key ∈ keys, Meets options editor (stops key) (references key)) :
    Meets options editor (keys.flatMap stops) (keys.flatMap references) := by
  induction keys with
  | nil => exact nil
  | cons key rest inductionHypothesis =>
    rw [List.flatMap_cons, List.flatMap_cons]
    exact (each key List.mem_cons_self).append fun _ =>
      inductionHypothesis fun other member => each other (List.mem_cons_of_mem _ member)

end Meets

/-! ### The references of a pattern -/

/-- A tree in which names can be resolved. -/
structure Node.Resolvable (tree : Node) : Prop where
  wellFormed : tree.WellFormed
  grammatical : tree.GrammaticalPatterns

theorem Node.Resolvable.of_mem_nodes {node child : Node} (resolvable : node.Resolvable)
    {slot : String} (member : child ∈ (node.field slot).nodes) : child.Resolvable where
  wellFormed := resolvable.wellFormed.child (mem_children_of_mem_nodes member)
  grammatical := resolvable.grammatical.child (mem_children_of_mem_nodes member)

/-- Visits meet the references that are not visible. -/
def Resolves (options : Reference.Options) (editor : Env → Node → Run Edits) : Prop :=
  ∀ {env : Env} {visible : List String} {node : Node} {log : List Step} {made : Edits},
    node.Resolvable → env.Shows visible → editor env node = ⟨log, .ok made⟩ →
      log.filterMap (Reference.ofStep? options) = node.unresolved options.ignored visible

section

variable {options : Reference.Options} {editor : Env → Node → Run Edits}
  {env outer scope : Env} {visible outside inside : List String}

theorem meets_visit (resolves : Resolves options editor) {node : Node}
    (resolvable : node.Resolvable) (shows : env.Shows visible) (address : Address) :
    Meets options editor [.visit address env node] (node.unresolved options.ignored visible) := by
  intro log edits followed
  cases followed with
  | visit visited rest =>
    cases rest
    rw [List.append_nil]
    exact resolves resolvable shows visited

theorem meets_fieldStops (resolves : Resolves options editor) (slot : String) {held : Field Node}
    (resolvable : ∀ child ∈ held.nodes, child.Resolvable) (shows : env.Shows visible) :
    Meets options editor (fieldStops env slot held)
      (held.nodes.flatMap (Node.unresolved options.ignored visible)) := by
  rw [← Field.places_map_snd slot held, List.flatMap_map, fieldStops, List.map_eq_flatMap]
  refine Meets.flatMap fun entry member => ?_
  exact meets_visit resolves (resolvable _ (Field.mem_nodes_of_mem_places member)) shows _

theorem meets_slotStops (resolves : Resolves options editor) {node : Node}
    (resolvable : node.Resolvable) (kind : Kind) (slot : Slot) (shows : env.Shows visible) :
    Meets options editor (slotStops env kind slot (node.field slot.name))
      (node.unresolvedIn options.ignored visible slot.name) := by
  rw [slotStops]
  split
  · exact meets_fieldStops resolves slot.name (fun _ => resolvable.of_mem_nodes) shows
  · intro log edits followed
    cases followed

/-- The agenda of a pattern meets the references in the pattern, whatever the scope. -/
def PatternMeets (options : Reference.Options) (editor : Env → Node → Run Edits) (pattern : Node) :
    Prop :=
  ∀ {outer scope : Env} {outside inside : List String}, outer.Shows outside → scope.Shows inside →
    Meets options editor (patternStops Reference.table.contains outer scope pattern)
      (pattern.unresolvedInPattern options.ignored outside inside)

theorem meets_patternItemsStops {items : List (Option Node)}
    (each : ∀ child, some child ∈ items →
      child.Grammatical ∧ child.WellFormed ∧ PatternMeets options editor child)
    (slot : String) (start : Nat) (outerShows : outer.Shows outside) (shows : scope.Shows inside) :
    Meets options editor
      (patternItemsStops Reference.table.contains outer scope slot start items)
      (Node.unresolvedInItems options.ignored outside inside items) := by
  induction items generalizing scope inside start with
  | nil =>
    rw [patternItemsStops, Node.unresolvedInItems]
    exact .nil
  | cons item rest inductionHypothesis =>
    have restEach : ∀ child, some child ∈ rest →
        child.Grammatical ∧ child.WellFormed ∧ PatternMeets options editor child :=
      fun child member => each child (List.mem_cons_of_mem _ member)
    cases item with
    | none =>
      rw [patternItemsStops, Node.unresolvedInItems]
      exact inductionHypothesis restEach (start + 1) shows
    | some child =>
      obtain ⟨grammatical, wellFormed, meets⟩ := each child List.mem_cons_self
      rw [patternItemsStops, Node.unresolvedInItems]
      refine ((meets outerShows shows).map_below _).append fun faultFree =>
        inductionHypothesis restEach (start + 1) ?_
      rw [Node.registered_eq_boundNames grammatical wellFormed faultFree.of_map_below]
      exact shows.declareAll _

theorem meets_patternFieldStops {node : Node} {slot : Slot}
    (each : ∀ child ∈ (node.field slot.name).nodes,
      child.Grammatical ∧ child.WellFormed ∧ PatternMeets options editor child)
    (kind : Kind) (outerShows : outer.Shows outside) (shows : scope.Shows inside) :
    Meets options editor
      (patternFieldStops Reference.table.contains outer scope kind slot (node.field slot.name))
      (Node.unresolvedInPatterns options.ignored outside inside (node.field slot.name)) := by
  rw [patternFieldStops.eq_def]
  split
  · cases held : node.field slot.name with
    | absent =>
      rw [Node.unresolvedInPatterns]
      exact .nil
    | value plain =>
      rw [Node.unresolvedInPatterns]
      exact .nil
    | node child =>
      rw [held] at each
      rw [Node.unresolvedInPatterns]
      exact ((each child List.mem_cons_self).2.2 outerShows shows).map_below _
    | list items =>
      rw [held] at each
      rw [Node.unresolvedInPatterns]
      exact meets_patternItemsStops
        (fun child member => each child (List.mem_filterMap.mpr ⟨_, member, rfl⟩)) _ _ outerShows
        shows
  · intro log edits followed
    cases followed

theorem meets_patternStops (resolves : Resolves options editor) {pattern : Node}
    (grammatical : pattern.Grammatical) (resolvable : pattern.Resolvable) :
    PatternMeets options editor pattern := by
  induction grammatical with
  | @intro pattern shape parts inductionHypothesis =>
    intro outer scope outside inside outerShows shows
    have each (slot : Slot) (patternSlot : pattern.kind.patternSlot? = some slot) :
        ∀ child ∈ (pattern.field slot.name).nodes,
          child.Grammatical ∧ child.WellFormed ∧ PatternMeets options editor child :=
      fun child member =>
        ⟨parts slot patternSlot child member, (resolvable.of_mem_nodes member).wellFormed,
          inductionHypothesis slot patternSlot child member (resolvable.of_mem_nodes member)⟩
    have whole := meets_visit resolves resolvable (shows.declareAll pattern.boundNames) []
    have keyless (different : pattern.kind ≠ .property) : pattern.keyNames = [] := by
      simp [Node.keyNames, different]
    rw [Node.PatternShape] at shape
    rw [patternStops, Node.unresolvedInPattern_eq]
    split at shape
    case h_1 kind =>
      rw [Node.unresolved_eq, if_pos kind, Node.ownReference_of_boundNames kind] at whole
      rw [if_pos (by rw [kind]; rfl), kind]
      exact whole
    case h_2 kind =>
      have left := meets_patternFieldStops (each (.node "left") (by rw [kind]; rfl))
        .assignmentPattern outerShows shows
      have right := meets_slotStops resolves resolvable .assignmentPattern (.node "right")
        outerShows
      rw [if_neg (by rw [kind]; decide), keyless (by rw [kind]; decide), kind]
      simpa [Kind.patternSlot?, Kind.ruleSlots, Kind.rule, Slot.node] using
        left.append fun _ => right
    case h_3 kind =>
      have argument := meets_patternFieldStops (each (.node "argument") (by rw [kind]; rfl))
        .restElement outerShows shows
      rw [if_neg (by rw [kind]; decide), keyless (by rw [kind]; decide), kind]
      simpa [Kind.patternSlot?, Kind.ruleSlots, Kind.rule, Slot.node] using argument
    case h_4 kind =>
      rw [if_pos (by rw [kind]; rfl), kind]
      exact whole
    case h_5 kind =>
      have properties := meets_patternFieldStops (each (.list "properties") (by rw [kind]; rfl))
        .objectPattern outerShows shows
      rw [if_neg (by rw [kind]; decide), keyless (by rw [kind]; decide), kind]
      simpa [Kind.patternSlot?, Kind.ruleSlots, Kind.rule, Slot.list] using properties
    case h_6 kind =>
      have elements := meets_patternFieldStops (each (.list "elements") (by rw [kind]; rfl))
        .arrayPattern outerShows shows
      rw [if_neg (by rw [kind]; decide), keyless (by rw [kind]; decide), kind]
      simpa [Kind.patternSlot?, Kind.ruleSlots, Kind.rule, Slot.list] using elements
    case h_7 => exact absurd shape id

/-! ### The references below a node -/

/-- The agenda of a node meets the references below it. -/
theorem meets_agenda (resolves : Resolves options editor) {node : Node}
    (resolvable : node.Resolvable) (shows : env.Shows outside) :
    Meets options editor (agenda Reference.table.contains env node)
      (node.unresolvedBelow options.ignored outside node.visitedSlots) := by
  have body {inner : Env} {visible : List String} (slot : Slot) (innerShows : inner.Shows visible) :
      Meets options editor (bodyStops inner node slot)
        (node.unresolvedIn options.ignored visible slot.name) :=
    (meets_slotStops resolves resolvable node.kind slot innerShows).enter node.kind inner.names
  have patterns (slot : Slot) (inSlot : (node.field slot.name).nodes = node.scopePatterns)
      {inner : Env} {visible : List String} (innerShows : inner.Shows visible) :
      Meets options editor
        (patternFieldStops Reference.table.contains env inner node.kind slot (node.field slot.name))
        (Node.unresolvedInPatterns options.ignored outside visible (node.field slot.name)) := by
    refine meets_patternFieldStops (fun pattern member => ?_) node.kind shows innerShows
    have grammatical := resolvable.grammatical.here pattern (inSlot ▸ member)
    have inner := resolvable.of_mem_nodes member
    exact ⟨grammatical, inner.wellFormed, meets_patternStops resolves grammatical inner⟩
  rw [agenda, Node.unresolvedBelow, Node.visitedSlots]
  cases rule : node.kind.rule with
  | none => exact .nil
  | some rule' =>
    cases rule' with
    | slots slots =>
      simp only [List.flatMap_map]
      exact Meets.flatMap fun slot _ => meets_slotStops resolves resolvable node.kind slot shows
    | children =>
      exact Meets.flatMap fun slot _ =>
        meets_fieldStops resolves slot (fun _ => resolvable.of_mem_nodes) shows
    | program => exact body .programBody (shows.child.declareAll node.hoistedNames)
    | function =>
      have inSlot : (node.field Slot.functionParams.name).nodes = node.scopePatterns := by
        rw [Node.scopePatterns, rule]
        rfl
      have insideShows := shows.child.declareAll (node.hoistedNamesOf "body")
      have named := meets_slotStops resolves resolvable node.kind .functionId shows
      rw [List.append_assoc]
      refine named.append fun _ =>
        (patterns .functionParams inSlot insideShows).append fun faultFree => body .functionBody ?_
      rw [Node.registered_scopePatterns resolvable.wellFormed resolvable.grammatical.here inSlot
        faultFree]
      exact insideShows.declareAll _
    | catchClause =>
      have inSlot : (node.field Slot.catchParam.name).nodes = node.scopePatterns := by
        rw [Node.scopePatterns, rule]
        rfl
      have insideShows := shows.child.declareAll node.hoistedNames
      refine (patterns .catchParam inSlot insideShows).append fun faultFree => body .catchBody ?_
      rw [Node.registered_scopePatterns resolvable.wellFormed resolvable.grammatical.here inSlot
        faultFree]
      refine insideShows.declareAll_of_subset fun name member => List.mem_append_right _ ?_
      exact Node.boundNames_subset_hoistedNames rule faultFree.of_patternFieldStops.1 member

end

/-! ### What the search does at a node -/

namespace Reference

/-- The transform of each kind. -/
def transform? : Kind → Option Transform
  | .identifier | .breakStatement | .continueStatement | .importDeclaration
  | .exportAllDeclaration => some leave
  | .memberExpression => some member
  | .property | .methodDefinition | .propertyDefinition | .classProperty => some keyed
  | .labeledStatement => some (only "body")
  | .exportSpecifier => some (only "local")
  | .exportNamedDeclaration => some exported
  | .functionDeclaration | .functionExpression | .classExpression => some named
  | _ => none

theorem table_find? (kind : Kind) : table.find? kind = transform? kind := by
  cases kind <;> rfl

end Reference

/-- A node without a transform sees no name of itself, and all its slots hold references. -/
theorem Node.plain_of_transform?_none {node : Node}
    (missing : Reference.transform? node.kind = none) :
    node.kind ≠ .identifier ∧ node.selfNames = [] ∧ node.referenceSlots = node.visitedSlots := by
  unfold Reference.transform? at missing
  split at missing
  all_goals cases missing
  simp_all [selfNames, referenceSlots]

namespace Walker

variable (walker : Walker) (env : Env) {node : Node}

/-- Walking a slot changes no flag in another. -/
theorem flag_of_walkSlot {slot other : String} (different : other ≠ slot) {log : List Step}
    {walked : Node} (ok : walker.walkSlot env node slot = ⟨log, .ok walked⟩) :
    walked.flag other = node.flag other := by
  obtain ⟨held, rfl⟩ := exists_set_of_walkSlot ok
  unfold Node.flag Node.value?
  rw [Node.get?_set_other node slot other _ different]

theorem walkSlots_singleton (slot : String) :
    walker.walkSlots env [slot] node = walker.walkSlot env node slot := by
  simp [walkSlots]

theorem leave_eq_walkSlots (slots : node.referenceSlots = []) :
    Reference.leave walker env node = (do
      return some (← walker.walkSlots env node.referenceSlots node)) := by
  rw [slots, walkSlots, pure_bind, Reference.leave]

theorem only_eq_walkSlots {slot : String} (slots : node.referenceSlots = [slot]) :
    Reference.only slot walker env node = (do
      return some (← walker.walkSlots env node.referenceSlots node)) := by
  rw [slots, walkSlots_singleton, Reference.only]

theorem exported_eq_walkSlots (slots : node.referenceSlots = ["declaration"])
    (source : (node.child? "source").isSome = true) :
    Reference.exported walker env node = (do
      return some (← walker.walkSlots env node.referenceSlots node)) := by
  rw [slots, walkSlots_singleton, Reference.exported, if_pos source]

theorem member_eq_walkSlots (kind : node.kind = .memberExpression) :
    Reference.member walker env node = (do
      return some (← walker.walkSlots env node.referenceSlots node)) := by
  rw [Reference.member, Node.referenceSlots, kind]
  simp only
  cases computed : node.flag "computed" with
  | true =>
    simp only [if_true, walkSlots, bind_assoc, bind_pure]
    refine Run.bind_congr_of_ok fun _ walked ok => ?_
    rw [flag_of_walkSlot walker env (by decide) ok, computed, if_pos rfl]
  | false =>
    simp only [if_neg Bool.false_ne_true, walkSlots_singleton]
    refine Run.bind_congr_of_ok fun _ walked ok => ?_
    rw [flag_of_walkSlot walker env (by decide) ok, computed]
    rfl

theorem keyed_eq_walkSlots (keyedKind : node.kind = .property ∨ node.kind = .methodDefinition ∨
      node.kind = .propertyDefinition ∨ node.kind = .classProperty) :
    Reference.keyed walker env node = (do
      return some (← walker.walkSlots env node.referenceSlots node)) := by
  have slots : node.referenceSlots =
      if node.flag "computed" then ["key", "value"] else ["value"] := by
    rw [Node.referenceSlots]
    rcases keyedKind with kind | kind | kind | kind <;> rw [kind]
  rw [Reference.keyed, slots]
  cases node.flag "computed" <;> simp [walkSlots]

end Walker

/-! ### The search -/

section

variable {options : Reference.Options} {walker : Walker} {env : Env} {visible : List String}
  {node : Node} {log : List Step}

theorem met_of_descend (intercepts : walker.intercepts = Reference.table.contains)
    (resolves : Resolves options walker.visitEdits) (resolvable : node.Resolvable)
    (shows : env.Shows visible) {walked : Node}
    (ok : walker.descend env node = ⟨log, .ok walked⟩) :
    log.filterMap (Reference.ofStep? options) =
      node.unresolvedBelow options.ignored visible node.visitedSlots := by
  rw [Walker.descend_eq_follow walker.editsBy_visitEdits env resolvable.wellFormed,
    intercepts] at ok
  obtain ⟨_, followed, _⟩ := Run.bind_pure_eq_ok.mp ok
  exact meets_agenda resolves resolvable shows _ _ (followed_of_follow followed)

theorem met_of_walkSlots (resolves : Resolves options walker.visitEdits)
    (resolvable : node.Resolvable) (shows : env.Shows visible) {slots : List String}
    (distinct : slots.Nodup) {walked : Node}
    (ok : walker.walkSlots env slots node = ⟨log, .ok walked⟩) :
    log.filterMap (Reference.ofStep? options) =
      slots.flatMap (node.unresolvedIn options.ignored visible) := by
  rw [Walker.walkSlots_eq walker.editsBy_visitEdits env resolvable.wellFormed slots distinct] at ok
  obtain ⟨_, followed, _⟩ := Run.bind_pure_eq_ok.mp ok
  refine Meets.flatMap (fun slot _ => ?_) _ _ (followed_of_follow followed)
  exact meets_fieldStops resolves slot (fun _ => resolvable.of_mem_nodes) shows

theorem referenceSlots_nodup (distinct : node.slots.Nodup) : node.referenceSlots.Nodup := by
  have visited := Node.visitedSlots_nodup distinct
  rw [Node.referenceSlots]
  repeat' split
  all_goals first | exact visited | decide

/-- A transform that walks the slots with references, one after the other. -/
theorem met_of_slots (resolves : Resolves options walker.visitEdits)
    (resolvable : node.Resolvable) (shows : env.Shows visible) {transform : Transform}
    (walks : transform walker env node = (do
      return some (← walker.walkSlots env node.referenceSlots node)))
    {slots : List Slot} (rule : node.kind.rule = some (.slots slots))
    (selfless : node.selfNames = []) {answer : Option Node}
    (ok : transform walker env node = ⟨log, .ok answer⟩) :
    log.filterMap (Reference.ofStep? options) = node.unresolved options.ignored visible := by
  have notIdentifier : node.kind ≠ .identifier := fun kind => by
    rw [kind] at rule
    cases rule
  rw [walks] at ok
  obtain ⟨_, walked, _⟩ := Run.bind_pure_eq_ok.mp ok
  rw [Node.unresolved_eq, if_neg notIdentifier, selfless, List.append_nil,
    Node.unresolvedBelow, rule]
  exact met_of_walkSlots resolves resolvable shows
    (referenceSlots_nodup resolvable.wellFormed.here) walked

/-- A visit that goes on below the node with the names that the node sees of itself. -/
theorem met_of_below (intercepts : walker.intercepts = Reference.table.contains)
    (resolves : Resolves options walker.visitEdits) (resolvable : node.Resolvable)
    {inner : Env} (shows : inner.Shows (visible ++ node.selfNames))
    (notIdentifier : node.kind ≠ .identifier) (slots : node.referenceSlots = node.visitedSlots)
    {answer : Option Node}
    (ok : (do return some (← walker.descend inner node)) =
      (⟨log, .ok answer⟩ : Run (Option Node))) :
    log.filterMap (Reference.ofStep? options) = node.unresolved options.ignored visible := by
  obtain ⟨_, walked, _⟩ := Run.bind_pure_eq_ok.mp ok
  rw [Node.unresolved_eq, if_neg notIdentifier, slots]
  exact met_of_descend intercepts resolves resolvable shows walked

theorem met_of_transform (intercepts : walker.intercepts = Reference.table.contains)
    (resolves : Resolves options walker.visitEdits) (resolvable : node.Resolvable)
    (shows : env.Shows visible) (notIdentifier : node.kind ≠ .identifier) {transform : Transform}
    (found : Reference.transform? node.kind = some transform) {answer : Option Node}
    (ok : transform walker env node = ⟨log, .ok answer⟩) :
    log.filterMap (Reference.ofStep? options) = node.unresolved options.ignored visible := by
  unfold Reference.transform? at found
  split at found
  all_goals cases found
  case h_1 kind => exact absurd kind notIdentifier
  case h_2 kind | h_3 kind | h_4 kind | h_5 kind =>
    have slots : node.referenceSlots = [] := by rw [Node.referenceSlots, kind]
    exact met_of_slots resolves resolvable shows (Walker.leave_eq_walkSlots walker env slots)
      (by rw [kind]; rfl) (by rw [Node.selfNames, kind]) ok
  case h_6 kind =>
    exact met_of_slots resolves resolvable shows (Walker.member_eq_walkSlots walker env kind)
      (by rw [kind]; rfl) (by rw [Node.selfNames, kind]) ok
  case h_7 kind | h_8 kind | h_9 kind | h_10 kind =>
    exact met_of_slots resolves resolvable shows
      (Walker.keyed_eq_walkSlots walker env (by simp [kind])) (by rw [kind]; rfl)
      (by rw [Node.selfNames, kind]) ok
  case h_11 kind | h_12 kind =>
    exact met_of_slots resolves resolvable shows
      (Walker.only_eq_walkSlots walker env (by rw [Node.referenceSlots, kind]))
      (by rw [kind]; rfl) (by rw [Node.selfNames, kind]) ok
  case h_13 kind =>
    have selfless : node.selfNames = [] := by rw [Node.selfNames, kind]
    cases source : (node.child? "source").isSome with
    | true =>
      have slots : node.referenceSlots = ["declaration"] := by
        simp [Node.referenceSlots, kind, source]
      exact met_of_slots resolves resolvable shows
        (Walker.exported_eq_walkSlots walker env slots source) (by rw [kind]; rfl) selfless ok
    | false =>
      have slots : node.referenceSlots = node.visitedSlots := by
        simp [Node.referenceSlots, Node.visitedSlots, kind, source, Kind.rule, Slot.node, Slot.list]
      rw [Reference.exported, source, if_neg Bool.false_ne_true] at ok
      refine met_of_below intercepts resolves resolvable ?_ notIdentifier slots ok
      rwa [selfless, List.append_nil]
  case h_14 kind | h_15 kind | h_16 kind =>
    have own : Reference.ownNames node = node.selfNames := by
      simp [Reference.ownNames, Node.selfNames, kind, Kind.isFunction]
    have slots : node.referenceSlots = node.visitedSlots := by rw [Node.referenceSlots, kind]
    rw [Reference.named, own] at ok
    exact met_of_below intercepts resolves resolvable (shows.child.declareAll _) notIdentifier slots
      ok

/-- An identifier that is handed over is met if its name is not visible. -/
theorem ofStep?_identifier (shows : env.Shows visible) (kind : node.kind = .identifier) :
    [Step.intercepted env node].filterMap (Reference.ofStep? options) =
      node.ownReference options.ignored visible := by
  rw [List.filterMap_cons, Reference.ofStep?, if_pos kind, Node.ownReference]
  cases node.name? with
  | none => rfl
  | some name =>
    simp only [Option.bind_some, Bool.or_eq_true, List.contains_iff_mem, shows name]
    by_cases known : name ∈ visible ∨ name ∈ options.ignored <;> simp [known]

theorem ofStep?_of_ne (different : node.kind ≠ .identifier) :
    Reference.ofStep? options (.intercepted env node) = none := by
  rw [Reference.ofStep?, if_neg different]

/-- Every visit of the search meets the references that are not visible. -/
theorem resolves_search (budget : Nat) :
    Resolves options (Reference.table.walker budget).visitEdits := by
  induction budget with
  | zero =>
    intro env visible node log made _ _ visited
    cases visited
  | succ budget inductionHypothesis =>
    intro env visible node log made resolvable shows visited
    obtain ⟨answer, ok, _⟩ := Run.bind_pure_eq_ok.mp visited
    have step : Reference.table.visit (budget + 1) env node = _ := ok
    rw [Table.visit_succ, Reference.table_find?] at step
    cases found : Reference.transform? node.kind with
    | none =>
      rw [found] at step
      obtain ⟨notIdentifier, selfless, slots⟩ := Node.plain_of_transform?_none found
      refine met_of_below rfl inductionHypothesis resolvable ?_ notIdentifier slots step
      rwa [selfless, List.append_nil]
    | some transform =>
      rw [found] at step
      obtain ⟨_, _, _, recorded, rest, rfl⟩ := Run.bind_eq_ok.mp step
      obtain ⟨rfl, _⟩ := Run.mk.inj recorded
      by_cases kind : node.kind = .identifier
      · rw [kind] at found
        cases found
        obtain ⟨rfl, _⟩ := Run.pure_eq_ok.mp rest
        rw [Node.unresolved_eq, if_pos kind]
        exact ofStep?_identifier shows kind
      · rw [List.filterMap_append, List.filterMap_cons_none (ofStep?_of_ne kind)]
        exact met_of_transform rfl inductionHypothesis resolvable shows kind found rest

end

/-- The search for free references finds what resolving the names directly finds, in the same order,
whenever it succeeds. -/
theorem freeReferences_resolve_lexically (options : Reference.Options) (tree : Node)
    (wellFormed : tree.WellFormed) (grammatical : tree.GrammaticalPatterns)
    (references : List Reference) (found : tree.freeReferences options = .ok references) :
    references = tree.unresolved options.ignored options.globals := by
  rw [Node.freeReferences] at found
  rcases run : Reference.search options tree with ⟨log, outcome⟩
  cases outcome with
  | error fault =>
    rw [run] at found
    cases found
  | ok answer =>
    rw [run] at found
    have visited : (Reference.table.walker (tree.size + 1)).visitEdits
        (.ofNames options.globals) tree = ⟨log ++ [], .ok [([], answer)]⟩ :=
      Run.bind_eq_ok.mpr ⟨log, answer, [], run, rfl, rfl⟩
    rw [List.append_nil] at visited
    have met : log.filterMap (Reference.ofStep? options) =
        tree.unresolved options.ignored options.globals :=
      resolves_search _ ⟨wellFormed, grammatical⟩ (.ofNames options.globals) visited
    exact (Except.ok.inj found).symm.trans met

/-- A function with a default value inside a property and one outside, and a member expression. -/
def twoDefaults : Node :=
  ⟨.program, [("body", .list [some ⟨.functionDeclaration,
    [ ("id", .node (.identifier "f")),
      ("params", .list
        [ some ⟨.objectPattern, [("properties", .list [some ⟨.property,
            [ ("key", .node (.identifier "a")),
              ("value", .node ⟨.assignmentPattern,
                [("left", .node (.identifier "a")), ("right", .node (.identifier "b"))]⟩) ]⟩])]⟩,
          some ⟨.assignmentPattern,
            [("left", .node (.identifier "b")), ("right", .node (.identifier "a"))]⟩ ]),
      ("body", .node ⟨.blockStatement, [("body", .list [some ⟨.returnStatement,
        [("argument", .node ⟨.memberExpression,
          [ ("object", .node (.identifier "arguments")),
            ("property", .node (.identifier "c")) ]⟩)]⟩])]⟩) ]⟩])]⟩

theorem twoDefaults_wellFormed : twoDefaults.WellFormed := by decide

theorem twoDefaults_grammatical : twoDefaults.GrammaticalPatterns := by decide

theorem freeReferences_of_twoDefaults :
    twoDefaults.WellFormed ∧ twoDefaults.GrammaticalPatterns ∧
      twoDefaults.freeReferences ⟨[], []⟩ = .ok [⟨"b", none⟩, ⟨"a", none⟩] ∧
      [⟨"b", none⟩, ⟨"a", none⟩] = twoDefaults.unresolved [] [] := by
  have found : twoDefaults.freeReferences ⟨[], []⟩ = .ok [⟨"b", none⟩, ⟨"a", none⟩] := by cbv
  exact ⟨twoDefaults_wellFormed, twoDefaults_grammatical, found,
    freeReferences_resolve_lexically ⟨[], []⟩ twoDefaults twoDefaults_wellFormed
      twoDefaults_grammatical _ found⟩

end EstreeScopes
