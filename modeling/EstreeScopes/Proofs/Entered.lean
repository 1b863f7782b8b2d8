/-
This file compares the scopes that a walk enters with the scopes that are listed
for the tree. The walk goes by the rules of the kinds and declares the names of
parameters one after the other; the list goes by the fields and reads all names
off the node. For trees that hold nodes only where the rules look for them, and
whose patterns are grammatical, the two agree up to the order: every scope is
entered once, and its frame then holds the listed names.

The frame of a catch clause is entered with the hoisted names, and the names of
its pattern are among them, so declaring these again adds nothing.
-/

import EstreeScopes.Proofs.Grammar
import EstreeScopes.Proofs.Substitution
import EstreeScopes.Proofs.Visits
import EstreeScopes.Scope

namespace EstreeScopes

namespace Node

/-! ### Trees that hold nodes where the rules look -/

/-- Every field of a node that holds nodes is one that a walk goes into. -/
def HoldsBySchema (node : Node) : Prop :=
  ∀ entry ∈ node.fields, entry.2.nodes ≠ [] → entry.1 ∈ node.visitedSlots

/-- Nodes are held only in the slots of the rules, and the patterns of the scopes are
grammatical. -/
def SchemaClosed (tree : Node) : Prop :=
  tree.Everywhere fun node =>
    node.HoldsBySchema ∧ ∀ pattern ∈ node.scopePatterns, pattern.Grammatical

instance : DecidablePred HoldsBySchema := fun node =>
  inferInstanceAs
    (Decidable (∀ entry ∈ node.fields, entry.2.nodes ≠ [] → entry.1 ∈ node.visitedSlots))

instance : DecidablePred SchemaClosed :=
  inferInstanceAs (DecidablePred (Everywhere fun node =>
    node.HoldsBySchema ∧ ∀ pattern ∈ node.scopePatterns, pattern.Grammatical))

/-- The entries of a map, looked up by names that cover them, in the order of the names. -/
theorem flatMap_find?_perm {fields : List (String × Field Node)}
    (distinct : (Entries.names fields).Nodup) {slots : List String} (slotsDistinct : slots.Nodup)
    (covered : ∀ entry ∈ fields, entry.2.nodes ≠ [] → entry.1 ∈ slots) :
    (slots.flatMap fun slot => ((Entries.find? fields slot).getD .absent).nodes).Perm
      (fields.flatMap fun entry => entry.2.nodes) := by
  induction fields generalizing slots with
  | nil => simp [Entries.find?, Field.nodes]
  | cons entry rest inductionHypothesis =>
    obtain ⟨name, held⟩ := entry
    obtain ⟨fresh, restDistinct⟩ := List.nodup_cons.mp distinct
    have elsewhere {other : String} (different : other ≠ name) :
        Entries.find? ((name, held) :: rest) other = Entries.find? rest other := by
      rw [Entries.find?, if_neg different.symm]
    by_cases listed : name ∈ slots
    · refine ((List.perm_cons_erase listed).flatMap_right _).trans ?_
      rw [List.flatMap_cons, List.flatMap_cons, Entries.find?, if_pos rfl, Option.getD_some]
      refine List.Perm.append_left _ ?_
      rw [List.flatMap_congr fun other member => by
        rw [elsewhere (List.Nodup.mem_erase_iff slotsDistinct |>.mp member).1]]
      refine inductionHypothesis restDistinct (slotsDistinct.erase name) ?_
      intro other member nodes
      have different : other.1 ≠ name := fun equal =>
        fresh (equal ▸ List.mem_map.mpr ⟨_, member, rfl⟩)
      have kept := covered other (List.mem_cons_of_mem _ member) nodes
      exact (List.mem_erase_of_ne different).mpr kept
    · have empty : held.nodes = [] := by
        by_contra nodes
        exact listed (covered (name, held) List.mem_cons_self nodes)
      rw [List.flatMap_cons, empty, List.nil_append,
        List.flatMap_congr fun other member => by
          rw [elsewhere fun equal => listed (equal ▸ member)]]
      exact inductionHypothesis restDistinct slotsDistinct fun other member =>
        covered other (List.mem_cons_of_mem _ member)

/-- The nodes in the slots that a walk goes into are all the nodes directly below. -/
theorem visited_perm_children {node : Node} (distinct : node.slots.Nodup)
    (bySchema : node.HoldsBySchema) :
    (node.visitedSlots.flatMap fun slot => (node.field slot).nodes).Perm node.children :=
  flatMap_find?_perm distinct (visitedSlots_nodup distinct) bySchema

/-! ### The scopes of a tree without their depths -/

/-- The kinds and names of the scopes of a tree. -/
def scopeEntries (tree : Node) : List (Kind × List String) :=
  tree.scopes.map fun scope => (scope.kind, scope.names)

/-- The kind and the names of the scope that a node opens. -/
def ownEntry (node : Node) : List (Kind × List String) :=
  node.scopeNames?.toList.map fun names => (node.kind, addNames [] names)

/-- How deep a scope is nested does not matter to its names. -/
theorem map_scopesAt (depth : Nat) (node : Node) :
    ((node.scopesAt depth).map fun scope => (scope.kind, scope.names)) =
      node.ownEntry ++ node.children.flatMap scopeEntries := by
  induction size : node.size using Nat.strongRecOn generalizing depth node with
  | _ bound inductionHypothesis =>
  subst size
  have below (deeper : Nat) :
      ((node.children.flatMap (scopesAt deeper)).map fun scope => (scope.kind, scope.names)) =
        node.children.flatMap scopeEntries := by
    rw [List.map_flatMap]
    refine List.flatMap_congr fun child member => ?_
    have smaller := size_lt_of_mem_children member
    rw [inductionHypothesis child.size smaller deeper child rfl, scopeEntries, scopes,
      inductionHypothesis child.size smaller 0 child rfl]
  rw [scopesAt_eq, scope?, ownEntry]
  cases node.scopeNames? with
  | none => exact below depth
  | some names =>
    simp only [Option.map_some, List.map_cons, below]
    rfl

theorem scopeEntries_eq (node : Node) :
    node.scopeEntries = node.ownEntry ++ node.children.flatMap scopeEntries :=
  map_scopesAt 0 node

/-- No scope lists a name twice. -/
theorem scopeEntries_nodup (node : Node) : ∀ entry ∈ node.scopeEntries, entry.2.Nodup := by
  induction size : node.size using Nat.strongRecOn generalizing node with
  | _ bound inductionHypothesis =>
  subst size
  rw [scopeEntries_eq]
  refine List.forall_mem_append.mpr ⟨fun entry member => ?_, fun entry member => ?_⟩
  · obtain ⟨names, _, rfl⟩ := List.mem_map.mp member
    exact nodup_addNames List.nodup_nil names
  · obtain ⟨child, below, inChild⟩ := List.mem_flatMap.mp member
    exact inductionHypothesis child.size (size_lt_of_mem_children below) child rfl entry inChild

/-- The scopes below a node, slot by slot. -/
theorem visited_scopeEntries_perm {node : Node} (distinct : node.slots.Nodup)
    (bySchema : node.HoldsBySchema) :
    (node.visitedSlots.flatMap fun slot => (node.field slot).nodes.flatMap scopeEntries).Perm
      (node.children.flatMap scopeEntries) := by
  rw [← List.flatMap_assoc]
  exact (visited_perm_children distinct bySchema).flatMap_right _

end Node

/-! ### The scopes along an agenda -/

/-- The kinds and names of the scopes that a stop leads to. -/
def Stop.scopeEntries : Stop → List (Kind × List String)
  | .visit _ _ node => node.scopeEntries
  | .enter kind names => [(kind, names)]
  | .fault _ => []

section

variable {intercepts : Kind → Bool} {env outer scope : Env}

theorem map_below_scopeEntries (place : Place) (stops : List Stop) :
    (stops.map (Stop.below place)).flatMap Stop.scopeEntries = stops.flatMap Stop.scopeEntries := by
  rw [List.flatMap_map]
  refine List.flatMap_congr fun stop _ => ?_
  cases stop <;> rfl

theorem fieldStops_scopeEntries (slot : String) (held : Field Node) :
    (fieldStops env slot held).flatMap Stop.scopeEntries =
      held.nodes.flatMap Node.scopeEntries := by
  rw [fieldStops, List.flatMap_map, ← Field.places_map_snd slot held, List.flatMap_map]
  rfl

theorem slotStops_scopeEntries {kind : Kind} {slot : Slot} {held : Field Node}
    (faultFree : FaultFree (slotStops env kind slot held)) :
    (slotStops env kind slot held).flatMap Stop.scopeEntries =
      held.nodes.flatMap Node.scopeEntries := by
  rw [slotStops] at faultFree ⊢
  split at faultFree
  · rename_i accepted
    rw [if_pos accepted, fieldStops_scopeEntries]
  · exact absurd (List.mem_singleton.mpr rfl) (faultFree _)

/-- The agenda of a pattern leads to its scopes. -/
def PatternEnters (intercepts : Kind → Bool) (pattern : Node) : Prop :=
  ∀ outer scope : Env, FaultFree (patternStops intercepts outer scope pattern) →
    ((patternStops intercepts outer scope pattern).flatMap Stop.scopeEntries).Perm
      pattern.scopeEntries

theorem patternItemsStops_scopeEntries {slot : String} {start : Nat} {items : List (Option Node)}
    (each : ∀ child, some child ∈ items → PatternEnters intercepts child)
    (faultFree : FaultFree (patternItemsStops intercepts outer scope slot start items)) :
    ((patternItemsStops intercepts outer scope slot start items).flatMap Stop.scopeEntries).Perm
      ((items.filterMap id).flatMap Node.scopeEntries) := by
  induction items generalizing scope start with
  | nil => rw [patternItemsStops]; exact .refl _
  | cons item rest inductionHypothesis =>
    have restEach : ∀ child, some child ∈ rest → PatternEnters intercepts child :=
      fun child member => each child (List.mem_cons_of_mem _ member)
    cases item with
    | none =>
      rw [patternItemsStops] at faultFree ⊢
      exact inductionHypothesis restEach faultFree
    | some child =>
      rw [patternItemsStops] at faultFree ⊢
      rw [List.flatMap_append, map_below_scopeEntries]
      exact (each child List.mem_cons_self outer scope faultFree.left.of_map_below).append
        (inductionHypothesis restEach faultFree.right)

theorem patternFieldStops_scopeEntries {kind : Kind} {slot : Slot} {held : Field Node}
    (each : ∀ child ∈ held.nodes, PatternEnters intercepts child)
    (faultFree : FaultFree (patternFieldStops intercepts outer scope kind slot held)) :
    ((patternFieldStops intercepts outer scope kind slot held).flatMap Stop.scopeEntries).Perm
      (held.nodes.flatMap Node.scopeEntries) := by
  rw [patternFieldStops.eq_def] at faultFree ⊢
  split at faultFree
  · rename_i accepted
    rw [if_pos accepted]
    cases held with
    | absent => exact .refl _
    | value plain => exact .refl _
    | node child =>
      refine (List.Perm.of_eq (map_below_scopeEntries _ _)).trans ?_
      rw [Field.nodes, List.flatMap_singleton]
      exact each child List.mem_cons_self outer scope faultFree.of_map_below
    | list items =>
      exact patternItemsStops_scopeEntries
        (fun child member => each child (List.mem_filterMap.mpr ⟨_, member, rfl⟩)) faultFree
  · exact absurd (List.mem_singleton.mpr rfl) (faultFree _)

theorem patternStops_scopeEntries {pattern : Node} (wellFormed : pattern.WellFormed)
    (closed : pattern.SchemaClosed) : PatternEnters intercepts pattern := by
  induction wellFormed with
  | @intro pattern distinct _ inductionHypothesis =>
    intro outer scope faultFree
    have whole (env : Env) : ([Stop.visit [] env pattern].flatMap Stop.scopeEntries).Perm
        pattern.scopeEntries := by
      rw [List.flatMap_singleton]
      exact .refl _
    have visited := Node.visited_scopeEntries_perm distinct closed.here.1
    rw [patternStops] at faultFree ⊢
    split at faultFree
    · rename_i intercepted
      rw [if_pos intercepted]
      exact whole _
    rename_i passed
    rw [if_neg passed]
    split at faultFree
    · rename_i inner patternSlot
      have rule := Kind.rule_of_patternSlot? patternSlot
      have scopeless : pattern.ownEntry = [] := by
        rw [Node.ownEntry, Node.scopeNames?, rule]
        rfl
      rw [Node.scopeEntries_eq, scopeless, List.nil_append]
      refine List.Perm.trans ?_ visited
      rw [Node.visitedSlots, rule, List.flatMap_map, List.flatMap_assoc]
      refine List.Perm.flatMap_left _ fun slot member => ?_
      have slotFree := faultFree.of_flatMap member
      by_cases same : slot = inner
      · rw [if_pos same] at slotFree ⊢
        refine patternFieldStops_scopeEntries (fun child inField => ?_) slotFree
        have below := Node.mem_children_of_mem_nodes inField
        exact inductionHypothesis child below (closed.child below)
      · rw [if_neg same] at slotFree ⊢
        rw [slotStops_scopeEntries slotFree]
    · split
      · rename_i identifier
        have scopeless : pattern.ownEntry = [] := by
          rw [Node.ownEntry, Node.scopeNames?, identifier]
          rfl
        rw [Node.visitedSlots, identifier] at visited
        rw [Node.scopeEntries_eq, scopeless, List.nil_append]
        exact visited
      · exact whole scope

/-! ### The names of a frame when it is entered -/

theorem paramNames_eq {node : Node} (rule : node.kind.rule = some .function)
    (accepted : Slot.functionParams.accepts (node.field "params") = true) :
    node.paramNames = node.scopePatterns.flatMap Node.boundNames := by
  rw [Node.paramNames, Node.scopePatterns, rule, Node.items?]
  rw [Node.field] at accepted ⊢
  cases found : node.get? "params" with
  | none => rfl
  | some held =>
    rw [found] at accepted
    cases held with
    | list items => rfl
    | absent => rfl
    | node child => cases accepted
    | value plain => cases accepted

/-- The frame of a function is entered with the names of its scope. -/
theorem function_frame_names (env : Env) {node : Node} (wellFormed : node.WellFormed)
    (closed : node.SchemaClosed) (rule : node.kind.rule = some .function)
    (faultFree : FaultFree (patternFieldStops intercepts outer scope node.kind .functionParams
      (node.field "params"))) :
    node.ownEntry = [(node.kind,
      ((env.child.declareAll (node.hoistedNamesOf "body")).declareAll
        ((node.field "params").registered intercepts)).names)] := by
  have inSlot : (node.field Slot.functionParams.name).nodes = node.scopePatterns := by
    rw [Node.scopePatterns, rule]
    rfl
  have registered := Node.registered_scopePatterns wellFormed closed.here.2 inSlot faultFree
  rw [show (node.field "params").registered intercepts = _ from registered, Node.ownEntry,
    Node.scopeNames?, rule, Env.declareAll, Env.declareAll, Env.child, ← addNames_append,
    ← paramNames_eq rule faultFree.of_patternFieldStops.1]
  rfl

/-- The frame of a catch clause is entered with the names of its scope. -/
theorem catch_frame_names (env : Env) {node : Node} (wellFormed : node.WellFormed)
    (closed : node.SchemaClosed) (rule : node.kind.rule = some .catchClause)
    (faultFree : FaultFree (patternFieldStops intercepts outer scope node.kind .catchParam
      (node.field "param"))) :
    node.ownEntry = [(node.kind,
      ((env.child.declareAll node.hoistedNames).declareAll
        ((node.field "param").registered intercepts)).names)] := by
  have inSlot : (node.field Slot.catchParam.name).nodes = node.scopePatterns := by
    rw [Node.scopePatterns, rule]
    rfl
  have registered := Node.registered_scopePatterns wellFormed closed.here.2 inSlot faultFree
  have present := Node.boundNames_subset_hoistedNames rule faultFree.of_patternFieldStops.1
  rw [show (node.field "param").registered intercepts = _ from registered, Node.ownEntry,
    Node.scopeNames?, rule, Env.declareAll, Env.declareAll, Env.child,
    addNames_of_subset fun name member => mem_addNames.mpr (Or.inr (present member))]
  rfl

theorem bodyStops_scopeEntries {node : Node} {slot : Slot}
    (faultFree : FaultFree (bodyStops scope node slot)) :
    (bodyStops scope node slot).flatMap Stop.scopeEntries =
      (node.kind, scope.names) :: (node.field slot.name).nodes.flatMap Node.scopeEntries := by
  rw [bodyStops, List.flatMap_cons, slotStops_scopeEntries fun fault member =>
    faultFree fault (List.mem_cons_of_mem _ member)]
  rfl

/-- The agenda of a scope with patterns leads to the scope itself and to those below it. -/
theorem scopeStops_scopeEntries {node : Node} (wellFormed : node.WellFormed)
    (closed : node.SchemaClosed) {patterns body : Slot}
    (faultFree : FaultFree (scopeStops intercepts outer scope node patterns body)) :
    ((scopeStops intercepts outer scope node patterns body).flatMap Stop.scopeEntries).Perm
      ((node.kind, (scope.declareAll ((node.field patterns.name).registered intercepts)).names) ::
        ((node.field patterns.name).nodes.flatMap Node.scopeEntries ++
          (node.field body.name).nodes.flatMap Node.scopeEntries)) := by
  have inPatterns := patternFieldStops_scopeEntries (fun child member =>
    patternStops_scopeEntries (wellFormed.child (Node.mem_children_of_mem_nodes member))
      (closed.child (Node.mem_children_of_mem_nodes member))) faultFree.left
  rw [scopeStops, List.flatMap_append, bodyStops_scopeEntries faultFree.right]
  exact (inPatterns.append_right _).trans List.perm_middle

/-- The agenda of a node leads to its scopes. -/
theorem agenda_scopeEntries {node : Node} (wellFormed : node.WellFormed)
    (closed : node.SchemaClosed) (faultFree : FaultFree (agenda intercepts env node)) :
    ((agenda intercepts env node).flatMap Stop.scopeEntries).Perm node.scopeEntries := by
  have visited := Node.visited_scopeEntries_perm wellFormed.here closed.here.1
  rw [Node.scopeEntries_eq]
  rw [Node.visitedSlots] at visited
  rw [agenda] at faultFree ⊢
  cases rule : node.kind.rule with
  | none =>
    rw [rule] at visited
    rw [Node.ownEntry, Node.scopeNames?, rule]
    exact visited
  | some rule' =>
    rw [rule] at faultFree visited
    cases rule' with
    | slots slots =>
      rw [Node.ownEntry, Node.scopeNames?, rule, List.flatMap_assoc,
        List.flatMap_congr fun slot member => slotStops_scopeEntries (faultFree.of_flatMap member)]
      simp only [List.flatMap_map] at visited
      exact visited
    | children =>
      rw [Node.ownEntry, Node.scopeNames?, rule, List.flatMap_assoc,
        List.flatMap_congr fun slot _ => fieldStops_scopeEntries slot (node.field slot)]
      exact visited
    | program =>
      have own : node.ownEntry =
          [(node.kind, (env.child.declareAll node.hoistedNames).names)] := by
        rw [Node.ownEntry, Node.scopeNames?, rule]
        rfl
      rw [own, bodyStops_scopeEntries faultFree]
      rw [List.flatMap_singleton] at visited
      exact visited.cons _
    | function =>
      rw [function_frame_names env wellFormed closed rule faultFree.right.left, List.flatMap_append,
        slotStops_scopeEntries faultFree.left]
      simp only [List.flatMap_cons, List.flatMap_nil, List.append_nil] at visited
      have inScope := scopeStops_scopeEntries wellFormed closed faultFree.right
      exact ((inScope.append_left _).trans List.perm_middle).trans (visited.cons _)
    | catchClause =>
      rw [catch_frame_names env wellFormed closed rule faultFree.left]
      simp only [List.flatMap_cons, List.flatMap_nil, List.append_nil] at visited
      exact (scopeStops_scopeEntries wellFormed closed faultFree).trans (visited.cons _)

end

/-! ### The walk -/

/-- The scope body that a step enters, with the names of its frame. -/
def Step.entry? : Step → Option (Kind × List String)
  | .entered kind names => some (kind, names)
  | .intercepted _ _ => none

/-- The scope bodies that are entered, with the names of their frames. -/
def entries (log : List Step) : List (Kind × List String) := log.filterMap Step.entry?

theorem entries_of_followed {editor : Env → Node → Run Edits} {stops : List Stop}
    {log : List Step} {edits : Edits} (followed : Followed editor stops log edits)
    (each : ∀ address env node, .visit address env node ∈ stops → ∀ log made,
      editor env node = ⟨log, .ok made⟩ → (entries log).Perm node.scopeEntries) :
    (entries log).Perm (stops.flatMap Stop.scopeEntries) := by
  induction followed with
  | nil => exact .refl _
  | visit visited _ inductionHypothesis =>
    rw [entries, List.filterMap_append, List.flatMap_cons]
    exact (each _ _ _ List.mem_cons_self _ _ visited).append
      (inductionHypothesis fun _ _ _ member => each _ _ _ (List.mem_cons_of_mem _ member))
  | enter _ inductionHypothesis =>
    exact (inductionHypothesis fun _ _ _ member =>
      each _ _ _ (List.mem_cons_of_mem _ member)).cons _

theorem Table.empty_passes (kind : Kind) : ¬ Table.empty.contains kind = true :=
  Bool.false_ne_true

theorem empty_still : Table.empty.Still :=
  Table.still_of_forall fun _ member => absurd member List.not_mem_nil

/-- A visit without transforms enters the scopes of the node. -/
theorem entries_of_editor {budget : Nat} {env : Env} {node : Node} (wellFormed : node.WellFormed)
    (closed : node.SchemaClosed) {log : List Step} {edits : Edits}
    (visited : Table.empty.editor budget env node = ⟨log, .ok edits⟩) :
    (entries log).Perm node.scopeEntries := by
  induction budget generalizing env node log edits with
  | zero => cases visited
  | succ budget inductionHypothesis =>
    obtain ⟨contained, _⟩ | ⟨_, followed⟩ := empty_still.editor_cases visited
    · cases contained
    refine (entries_of_followed followed fun _ _ child member _ _ childVisited => ?_).trans
      (agenda_scopeEntries wellFormed closed followed.faultFree)
    have found := at?_of_mem_agenda member
    exact inductionHypothesis (wellFormed.at? found) (closed.at? found) childVisited

/-- The scope bodies that a walk without transforms enters are the scopes of the tree, each once and
each with its names, in some order. No scope lists a name twice. -/
theorem walk_enters_listed_scopes (budget : Nat) (env : Option Env) (tree : Node)
    (wellFormed : tree.WellFormed) (closed : tree.SchemaClosed) (log : List Step)
    (result : Option Node)
    (succeeds : Table.empty.walk budget env (some tree) = ⟨log, .ok result⟩) :
    (entries log).Perm (tree.scopes.map fun scope => (scope.kind, scope.names)) ∧
      ∀ entry ∈ entries log, entry.2.Nodup := by
  obtain ⟨edits, made, _⟩ := editor_of_walk wellFormed succeeds
  have entered := entries_of_editor wellFormed closed made
  exact ⟨entered, fun entry member => tree.scopeEntries_nodup entry (entered.subset member)⟩

/-- A program that catches an exception, and a function with a function as a default value. -/
def fourScopes : Node :=
  ⟨.program, [("body", .list
    [ some ⟨.tryStatement,
        [ ("block", .node ⟨.blockStatement, [("body", .list [])]⟩),
          ("handler", .node ⟨.catchClause,
            [ ("param", .node (.identifier "e")),
              ("body", .node ⟨.blockStatement, [("body", .list [])]⟩) ]⟩) ]⟩,
      some ⟨.functionDeclaration,
        [ ("id", .node (.identifier "f")),
          ("params", .list [some ⟨.assignmentPattern,
            [ ("left", .node (.identifier "a")),
              ("right", .node ⟨.arrowFunctionExpression,
                [ ("params", .list [some (.identifier "b")]),
                  ("body", .node (.identifier "b")) ]⟩) ]⟩]),
          ("body", .node ⟨.blockStatement, [("body", .list [])]⟩) ]⟩ ])]⟩

theorem fourScopes_wellFormed : fourScopes.WellFormed := by decide

theorem fourScopes_schemaClosed : fourScopes.SchemaClosed := by decide

theorem walk_enters_fourScopes :
    fourScopes.WellFormed ∧ fourScopes.SchemaClosed ∧
      ∃ log result, Table.empty.walk 9 none (some fourScopes) = ⟨log, .ok result⟩ ∧
        (entries log).Perm
          [ (.program, ["e", "f"]), (.catchClause, ["e"]), (.functionDeclaration, ["a"]),
            (.arrowFunctionExpression, ["b"]) ] := by
  obtain ⟨log, result, succeeds⟩ := Run.exists_eq_ok
    (show (Table.empty.walk 9 none (some fourScopes)).outcome.isOk = true by cbv)
  have listed : (fourScopes.scopes.map fun scope => (scope.kind, scope.names)) =
      [ (.program, ["e", "f"]), (.catchClause, ["e"]), (.functionDeclaration, ["a"]),
        (.arrowFunctionExpression, ["b"]) ] := by cbv
  have entered := (walk_enters_listed_scopes 9 none fourScopes fourScopes_wellFormed
    fourScopes_schemaClosed log result succeeds).1
  exact ⟨fourScopes_wellFormed, fourScopes_schemaClosed, log, result, succeeds, listed ▸ entered⟩

end EstreeScopes
