/-
This file shows that the search for free references accepts every tree that a walk
without transforms accepts, and that it fails only with a slot of the tree that
does not hold what the rule of its node asks for
(`search_accepts_what_walk_accepts`).

The two go through a tree in different ways. The search leaves out slots, takes
others whatever they hold, and visits as a whole what the walk takes as patterns.
But neither leaves the ways that the rules lead, and on these ways the walk checks
every slot. So the faults that the rules lead to stand between the two: the search
meets no others (`leadsToFault_of_search`), and there are none in a tree on which
the walk succeeds (`not_leadsToFault_of_walk`).
-/

import EstreeScopes.Proofs.Entered
import EstreeScopes.Proofs.Search

namespace EstreeScopes

/-! ### Faults that the rules lead to -/

/-- The slots whose shape the rule of a kind asks for. -/
def Kind.checkedSlots (kind : Kind) : List Slot :=
  match kind.rule with
  | some (.slots slots) => slots
  | some .program => [.programBody]
  | some .function => [.functionId, .functionParams, .functionBody]
  | some .catchClause => [.catchParam, .catchBody]
  | some .children | none => []

namespace Node

/-- The rules lead from a tree to a node at an address. -/
inductive Reaches : Node → Address → Node → Prop
  | here (node : Node) : Reaches node [] node
  | inside {tree child node : Node} {place : Place} {rest : Address}
      (member : (place, child) ∈ tree.visitedPlaces) (further : Reaches child rest node) :
      Reaches tree (place :: rest) node

/-- A slot of a node does not hold what the rule of the node asks for. -/
structure Malformed (node : Node) (slot : Slot) : Prop where
  checked : slot ∈ node.kind.checkedSlots
  refused : slot.accepts (node.field slot.name) = false

/-- The rules lead to a node with a malformed slot. -/
def LeadsToFault (tree : Node) (fault : Fault) : Prop :=
  ∃ address node slot, tree.Reaches address node ∧ node.Malformed slot ∧
    fault = .malformed node.kind slot

theorem Reaches.at? {tree node : Node} {address : Address} (reaches : tree.Reaches address node) :
    tree.at? address = some node := by
  induction reaches with
  | here node => rfl
  | inside member _ inductionHypothesis =>
    rw [Node.at?, held?_of_mem_places (mem_field_of_mem_visitedPlaces member)]
    exact inductionHypothesis

theorem Reaches.trans {tree middle node : Node} {first second : Address}
    (early : tree.Reaches first middle) (late : middle.Reaches second node) :
    tree.Reaches (first ++ second) node := by
  induction early with
  | here => exact late
  | inside member _ inductionHypothesis => exact .inside member (inductionHypothesis late)

theorem Reaches.leadsToFault {tree node : Node} {address : Address} {fault : Fault}
    (reaches : tree.Reaches address node) (leads : node.LeadsToFault fault) :
    tree.LeadsToFault fault := by
  obtain ⟨rest, target, slot, further, malformed, equal⟩ := leads
  exact ⟨address ++ rest, target, slot, reaches.trans further, malformed, equal⟩

theorem Malformed.leadsToFault {node : Node} {slot : Slot} (malformed : node.Malformed slot) :
    node.LeadsToFault (.malformed node.kind slot) :=
  ⟨[], node, slot, .here node, malformed, rfl⟩

/-- A walk goes into the slots that are checked, unless it takes a node field by field. -/
theorem visitedSlots_eq {node : Node} (rule : node.kind.rule ≠ some .children) :
    node.visitedSlots = node.kind.checkedSlots.map Slot.name := by
  rw [visitedSlots, Kind.checkedSlots]
  generalize node.kind.rule = used at rule
  cases used with
  | none => rfl
  | some used =>
    cases used with
    | children => exact absurd rfl rule
    | _ => rfl

theorem mem_visitedSlots_of_checked {node : Node} {slot : Slot}
    (checked : slot ∈ node.kind.checkedSlots) : slot.name ∈ node.visitedSlots := by
  by_cases rule : node.kind.rule = some .children
  · rw [Kind.checkedSlots, rule] at checked
    cases checked
  · rw [visitedSlots_eq rule]
    exact List.mem_map_of_mem checked

end Node

/-! ### The faults that the search meets -/

/-- A stop is one of a node if the rules lead from the node to what is visited, or to the fault. -/
def Stop.Of (node : Node) : Stop → Prop
  | .visit address _ target => node.Reaches address target
  | .enter _ _ => True
  | .fault reason => node.LeadsToFault reason

section

variable {node : Node} {env outer scope : Env} {intercepts : Kind → Bool}

theorem Stop.Of.below {stop : Stop} {place : Place} {child : Node} (inside : stop.Of child)
    (member : (place, child) ∈ node.visitedPlaces) : (stop.below place).Of node := by
  cases stop with
  | visit address env target => exact Node.Reaches.inside member inside
  | enter kind names => trivial
  | fault fault => exact (Node.Reaches.inside member (.here child)).leadsToFault inside

theorem fieldStops_of {slot : String} (visited : slot ∈ node.visitedSlots) :
    ∀ stop ∈ fieldStops env slot (node.field slot), stop.Of node := by
  intro stop member
  obtain ⟨⟨place, child⟩, placeMember, rfl⟩ := List.mem_map.mp member
  exact Node.Reaches.inside (List.mem_flatMap.mpr ⟨slot, visited, placeMember⟩) (.here child)

theorem slotStops_of {slot : Slot} (checked : slot ∈ node.kind.checkedSlots) :
    ∀ stop ∈ slotStops env node.kind slot (node.field slot.name), stop.Of node := by
  rw [slotStops]
  split
  · exact fieldStops_of (Node.mem_visitedSlots_of_checked checked)
  · rename_i refused
    exact List.forall_mem_singleton.mpr
      (Node.Malformed.leadsToFault ⟨checked, Bool.eq_false_iff.mpr refused⟩)

/-- The stops of a pattern are stops of the pattern, whatever the environments. -/
def PatternStays (intercepts : Kind → Bool) (pattern : Node) : Prop :=
  ∀ outer scope : Env, ∀ stop ∈ patternStops intercepts outer scope pattern, stop.Of pattern

theorem patternItemsStops_of {slot : String} {start : Nat} {items : List (Option Node)}
    (each : ∀ child, some child ∈ items → PatternStays intercepts child)
    (visited : ∀ entry ∈ itemPlaces slot start items, entry ∈ node.visitedPlaces) :
    ∀ stop ∈ patternItemsStops intercepts outer scope slot start items, stop.Of node := by
  induction items generalizing scope start with
  | nil =>
    rw [patternItemsStops]
    exact fun _ member => absurd member List.not_mem_nil
  | cons item rest inductionHypothesis =>
    have restEach : ∀ child, some child ∈ rest → PatternStays intercepts child :=
      fun child member => each child (List.mem_cons_of_mem _ member)
    cases item with
    | none =>
      rw [patternItemsStops]
      exact inductionHypothesis restEach visited
    | some child =>
      obtain ⟨first, later⟩ := List.forall_mem_cons.mp visited
      rw [patternItemsStops]
      refine List.forall_mem_append.mpr ⟨fun stop member => ?_, inductionHypothesis restEach later⟩
      obtain ⟨inner, innerMember, rfl⟩ := List.mem_map.mp member
      exact (each child List.mem_cons_self outer scope inner innerMember).below first

theorem patternFieldStops_of {slot : Slot} (checked : slot ∈ node.kind.checkedSlots)
    (each : ∀ child ∈ (node.field slot.name).nodes, PatternStays intercepts child) :
    ∀ stop ∈ patternFieldStops intercepts outer scope node.kind slot (node.field slot.name),
      stop.Of node := by
  have visited : ∀ entry ∈ (node.field slot.name).places slot.name,
      entry ∈ node.visitedPlaces := fun entry member =>
    List.mem_flatMap.mpr ⟨slot.name, Node.mem_visitedSlots_of_checked checked, member⟩
  rw [patternFieldStops.eq_def]
  split
  · cases held : node.field slot.name with
    | absent => exact fun _ member => absurd member List.not_mem_nil
    | value plain => exact fun _ member => absurd member List.not_mem_nil
    | node child =>
      rw [held] at each visited
      intro stop member
      obtain ⟨inner, innerMember, rfl⟩ := List.mem_map.mp member
      exact (each child List.mem_cons_self outer scope inner innerMember).below
        (visited _ List.mem_cons_self)
    | list items =>
      rw [held] at each visited
      exact patternItemsStops_of
        (fun child member => each child (List.mem_filterMap.mpr ⟨_, member, rfl⟩)) visited
  · rename_i refused
    exact List.forall_mem_singleton.mpr
      (Node.Malformed.leadsToFault ⟨checked, Bool.eq_false_iff.mpr refused⟩)

theorem patternStops_of (pattern : Node) : PatternStays intercepts pattern := by
  induction size : pattern.size using Nat.strongRecOn generalizing pattern with
  | _ bound inductionHypothesis =>
  subst size
  intro outer scope
  have whole (env : Env) : ∀ stop ∈ [Stop.visit [] env pattern], stop.Of pattern :=
    List.forall_mem_singleton.mpr (Node.Reaches.here pattern)
  rw [patternStops]
  split
  · exact whole _
  split
  · rename_i inner patternSlot
    refine List.forall_mem_flatMap.mpr fun slot listed => ?_
    have checked : slot ∈ pattern.kind.checkedSlots := by
      rw [Kind.checkedSlots, Kind.rule_of_patternSlot? patternSlot]
      exact listed
    split
    · refine patternFieldStops_of checked fun child member => ?_
      exact inductionHypothesis child.size
        (Nat.lt_trans (Node.size_lt_of_mem_nodes member) (Node.fieldSize_lt_size _ _)) child rfl
    · exact slotStops_of checked
  · split
    · exact fun _ member => absurd member List.not_mem_nil
    · exact whole scope

/-- The agenda of a node does not leave the ways that the rules lead. -/
theorem agenda_of : ∀ stop ∈ agenda intercepts env node, stop.Of node := by
  have body {scope : Env} {slot : Slot} (checked : slot ∈ node.kind.checkedSlots) :
      ∀ stop ∈ bodyStops scope node slot, stop.Of node :=
    List.forall_mem_cons.mpr ⟨trivial, slotStops_of checked⟩
  have inScope {outer scope : Env} {patterns bodySlot : Slot}
      (patternsChecked : patterns ∈ node.kind.checkedSlots)
      (bodyChecked : bodySlot ∈ node.kind.checkedSlots) :
      ∀ stop ∈ scopeStops intercepts outer scope node patterns bodySlot, stop.Of node :=
    List.forall_mem_append.mpr
      ⟨patternFieldStops_of patternsChecked fun child _ => patternStops_of child, body bodyChecked⟩
  rw [agenda]
  cases rule : node.kind.rule with
  | none => exact fun _ member => absurd member List.not_mem_nil
  | some rule' =>
    cases rule' with
    | slots slots =>
      refine List.forall_mem_flatMap.mpr fun slot listed => slotStops_of ?_
      rw [Kind.checkedSlots, rule]
      exact listed
    | children =>
      refine List.forall_mem_flatMap.mpr fun slot listed => fieldStops_of ?_
      rw [Node.visitedSlots, rule]
      exact listed
    | program =>
      have checked : node.kind.checkedSlots = [.programBody] := by rw [Kind.checkedSlots, rule]
      exact body (by simp [checked])
    | function =>
      have checked : node.kind.checkedSlots = [.functionId, .functionParams, .functionBody] := by
        rw [Kind.checkedSlots, rule]
      have named : Slot.functionId ∈ node.kind.checkedSlots := by simp [checked]
      exact List.forall_mem_append.mpr
        ⟨slotStops_of named, inScope (by simp [checked]) (by simp [checked])⟩
    | catchClause =>
      have checked : node.kind.checkedSlots = [.catchParam, .catchBody] := by
        rw [Kind.checkedSlots, rule]
      exact inScope (by simp [checked]) (by simp [checked])

end

namespace Reference

/-- The search does not leave the ways that the rules lead. -/
theorem stops_of {env : Env} {node : Node} : ∀ stop ∈ stops env node, stop.Of node := by
  rw [stops]
  split
  · exact List.forall_mem_flatMap.mpr fun slot member =>
      fieldStops_of (node.referenceSlots_sublist.subset member)
  · exact agenda_of

/-- The search meets only faults that the rules lead to. -/
theorem leadsToFault_of_mem_itinerary {env : Env} {node : Node} {fault : Fault}
    (member : .fault fault ∈ itinerary env node) : node.LeadsToFault fault := by
  induction size : node.size using Nat.strongRecOn generalizing env node with
  | _ bound inductionHypothesis =>
  subst size
  rw [itinerary_eq] at member
  rcases List.mem_append.mp member with own | onwards
  · rw [ownStops] at own
    split at own
    · cases List.mem_singleton.mp own
    · cases own
  obtain ⟨stop, stopMember, met⟩ := List.mem_flatMap.mp onwards
  have ofNode := stops_of stop stopMember
  cases stop with
  | visit address inner child =>
    obtain ⟨later, laterMember, equal⟩ := List.mem_map.mp met
    cases later with
    | fault reason =>
      obtain rfl := Stop.fault.inj equal
      exact Node.Reaches.leadsToFault ofNode (inductionHypothesis child.size
        (at?_of_mem_stops stopMember).2 laterMember rfl)
    | visit => cases equal
    | enter => cases equal
  | enter kind names => cases met
  | fault reason =>
    obtain rfl := Stop.fault.inj (List.mem_singleton.mp met)
    exact ofNode

end Reference

/-! ### The faults that a walk without transforms meets -/

namespace Node

/-- A walk checks the slots of the rule one after the other, unless it takes a node field by
field. -/
theorem checks_eq_checkedSlots {node : Node} (rule : node.kind.rule ≠ some .children) :
    node.checks Table.empty.contains =
      node.kind.checkedSlots.flatMap (node.slotChecks Table.empty.contains) := by
  rw [checks_eq, if_neg (Table.empty_passes node.kind), Kind.checkedSlots]
  generalize node.kind.rule = used at rule
  cases used with
  | none => rfl
  | some used =>
    cases used with
    | children => exact absurd rfl rule
    | _ => simp

theorem checksIn_subset {node : Node} {slot : String} (visited : slot ∈ node.visitedSlots) :
    node.checksIn Table.empty.contains slot ⊆ node.checks Table.empty.contains := by
  intro check member
  by_cases rule : node.kind.rule = some .children
  · rw [visitedSlots, rule] at visited
    rw [checks_eq, if_neg (Table.empty_passes node.kind), rule]
    exact List.mem_flatMap.mpr ⟨slot, visited, member⟩
  · rw [visitedSlots_eq rule] at visited
    obtain ⟨checked, listed, rfl⟩ := List.mem_map.mp visited
    rw [checks_eq_checkedSlots rule]
    exact List.mem_flatMap.mpr ⟨checked, listed, List.mem_cons_of_mem _ member⟩

/-- Every slot that the rules lead to is checked. -/
theorem Reaches.shape_mem_checks {tree node : Node} {address : Address} {slot : Slot}
    (reaches : tree.Reaches address node) (checked : slot ∈ node.kind.checkedSlots) :
    .shape node.kind slot (node.field slot.name) ∈ tree.checks Table.empty.contains := by
  induction reaches with
  | here node =>
    have rule : node.kind.rule ≠ some .children := fun rule => by
      rw [Kind.checkedSlots, rule] at checked
      cases checked
    rw [checks_eq_checkedSlots rule]
    exact List.mem_flatMap.mpr ⟨slot, checked, List.mem_cons_self⟩
  | @inside tree child node place _ member _ inductionHypothesis =>
    obtain ⟨visited, visitedMember, placeMember⟩ := List.mem_flatMap.mp member
    refine checksIn_subset visitedMember (List.mem_flatMap.mpr ⟨_, placeMember, ?_⟩)
    exact List.mem_map.mpr ⟨_, inductionHypothesis checked, rfl⟩

end Node

/-- Doing something with every item succeeds if and only if it does with each. -/
theorem forM_outcome_eq_ok {α : Type} {act : α → Run Unit} {items : List α} :
    (forM items act).outcome = .ok () ↔ ∀ item ∈ items, (act item).outcome = .ok () := by
  induction items with
  | nil => exact iff_of_true rfl fun _ member => absurd member List.not_mem_nil
  | cons item rest inductionHypothesis =>
    rw [List.forM_cons, List.forall_mem_cons, ← inductionHypothesis, Run.bind_def, Run.andThen]
    cases act item with
    | mk log outcome =>
      cases outcome with
      | error fault => simp
      | ok value => simp

/-- A visit without transforms that succeeds has found every slot to hold what it must. -/
theorem checks_pass_of_editor {budget : Nat} {env : Env} {node : Node} {log : List Step}
    {edits : Edits} (visited : Table.empty.editor budget env node = ⟨log, .ok edits⟩) :
    ∀ check ∈ node.checks Table.empty.contains,
      (check.take fun _ _ => pure ()).outcome = .ok () := by
  induction budget generalizing env node log edits with
  | zero => cases visited
  | succ budget inductionHypothesis =>
    obtain ⟨contained, _⟩ | ⟨passed, followed⟩ := empty_still.editor_cases visited
    · cases contained
    rw [← forM_outcome_eq_ok, ← forM_agenda _ env passed, forM_outcome_eq_ok]
    intro stop member
    cases stop with
    | visit address inner child =>
      obtain ⟨_, _, childVisited⟩ := followed.visit_of_mem member
      exact forM_outcome_eq_ok.mpr (inductionHypothesis childVisited)
    | enter kind names => rfl
    | fault reason => exact absurd member (followed.faultFree reason)

/-- A walk without transforms that succeeds leaves no fault that the rules lead to. -/
theorem not_leadsToFault_of_walk {budget : Nat} {env : Option Env} {tree : Node}
    (wellFormed : tree.WellFormed) {log : List Step} {result : Option Node}
    (succeeds : Table.empty.walk budget env (some tree) = ⟨log, .ok result⟩) (fault : Fault) :
    ¬ tree.LeadsToFault fault := by
  rintro ⟨address, node, slot, reaches, malformed, _⟩
  obtain ⟨edits, visited, _⟩ := editor_of_walk wellFormed succeeds
  have passes := checks_pass_of_editor visited _ (reaches.shape_mem_checks malformed.checked)
  rw [Check.take, malformed.refused] at passes
  cases passes

/-! ### What the search accepts -/

/-- The search fails only with faults that the rules lead to. -/
theorem leadsToFault_of_search {options : Reference.Options} {tree : Node}
    (wellFormed : tree.WellFormed) {fault : Fault}
    (failed : tree.freeReferences options = .error fault) : tree.LeadsToFault fault := by
  rw [freeReferences_eq_itinerary options wellFormed] at failed
  split at failed
  · rename_i first
    obtain rfl := Except.error.inj failed
    obtain ⟨stop, member, shown⟩ := List.exists_of_findSome?_eq_some first
    cases stop with
    | fault reason =>
      obtain rfl := Option.some.inj shown
      exact Reference.leadsToFault_of_mem_itinerary member
    | visit address env node => cases shown
    | enter kind names => cases shown
  · cases failed

/-- The search for free references succeeds on every tree on which a walk without transforms
succeeds. If it fails it names a slot of a node of the tree that does not hold what the rule of the
node asks for. -/
theorem search_accepts_what_walk_accepts (options : Reference.Options) (tree : Node)
    (wellFormed : tree.WellFormed) :
    (∀ (budget : Nat) (env : Option Env) (log : List Step) (result : Option Node),
      Table.empty.walk budget env (some tree) = ⟨log, .ok result⟩ →
        ∃ references, tree.freeReferences options = .ok references) ∧
      ∀ fault, tree.freeReferences options = .error fault →
        ∃ address node slot, fault = .malformed node.kind slot ∧
          tree.at? address = some node ∧ slot ∈ node.kind.checkedSlots ∧
          slot.accepts (node.field slot.name) = false := by
  constructor
  · intro budget env log result succeeds
    cases searched : tree.freeReferences options with
    | ok references => exact ⟨references, rfl⟩
    | error fault =>
      exact absurd (leadsToFault_of_search wellFormed searched)
        (not_leadsToFault_of_walk wellFormed succeeds fault)
  · intro fault failed
    obtain ⟨address, node, slot, reaches, malformed, equal⟩ :=
      leadsToFault_of_search wellFormed failed
    exact ⟨address, node, slot, equal, reaches.at?, malformed.checked, malformed.refused⟩

theorem search_of_twoDefaults_and_callThenFault :
    twoDefaults.WellFormed ∧ callThenFault.WellFormed ∧
      (∃ log result, Table.empty.walk 9 none (some twoDefaults) = ⟨log, .ok result⟩ ∧
        ∃ references, twoDefaults.freeReferences ⟨[], []⟩ = .ok references) ∧
      callThenFault.freeReferences ⟨[], []⟩ =
        .error (.malformed .returnStatement (.node "argument")) ∧
      ∃ address node slot,
        Fault.malformed .returnStatement (.node "argument") = .malformed node.kind slot ∧
          callThenFault.at? address = some node ∧ slot ∈ node.kind.checkedSlots ∧
          slot.accepts (node.field slot.name) = false := by
  obtain ⟨accepts, _⟩ :=
    search_accepts_what_walk_accepts ⟨[], []⟩ twoDefaults twoDefaults_wellFormed
  obtain ⟨_, names⟩ :=
    search_accepts_what_walk_accepts ⟨[], []⟩ callThenFault callThenFault_wellFormed
  obtain ⟨log, result, succeeds⟩ := Run.exists_eq_ok
    (show (Table.empty.walk 9 none (some twoDefaults)).outcome.isOk = true by cbv)
  have failed : callThenFault.freeReferences ⟨[], []⟩ =
      .error (.malformed .returnStatement (.node "argument")) := by cbv
  exact ⟨twoDefaults_wellFormed, callThenFault_wellFormed,
    ⟨log, result, succeeds, accepts 9 none log result succeeds⟩, failed, names _ failed⟩

end EstreeScopes
