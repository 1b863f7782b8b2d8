/-
This file lists what the search for free references does with a tree, from the
tree alone: the nodes that it hands over, each with its address and the
environment around it, and the malformed slots that it comes to. This is the
itinerary of the search. The search hands the nodes over in this order, up to the
first malformed slot, so its outcome can be read off the itinerary
(`freeReferences_eq_itinerary`).

Unlike a walk whose transforms do not go on, the search goes on below the nodes
that it hands over. At each node it has an agenda: that of the rule, with the own
names of a function or class in a frame of their own, or the nodes of some slots
only. The itinerary is made of these agendas.
-/

import EstreeScopes.Proofs.FirstFault
import EstreeScopes.Proofs.Resolution

namespace EstreeScopes

namespace Stop

/-- A stop of a node as a stop of a node above it, from which an address leads down to the node. -/
def under (address : Address) : Stop → Stop
  | .visit rest env node => .visit (address ++ rest) env node
  | stop => stop

/-- Hands over the node of a visit, or ends with the fault of a slot. -/
def perform : Stop → Run Unit
  | .visit _ env node => Run.record (.intercepted env node)
  | .enter _ _ => pure ()
  | .fault reason => .fail reason

/-- Makes a visit with a walker, apart from what it gives. -/
def visitBy (walker : Walker) : Stop → Run Unit
  | .visit _ env node => (walker.visit env node).bare
  | .enter _ _ => pure ()
  | .fault reason => .fail reason

theorem perform_under (address : Address) (stop : Stop) :
    (stop.under address).perform = stop.perform := by
  cases stop <;> rfl

end Stop

/-! ### One visit of the search -/

namespace Walker

variable {walker : Walker} {env : Env} {node : Node}

theorem bare_follow_visitEdits (stops : List Stop) :
    (follow walker.visitEdits stops).bare = forM stops (Stop.visitBy walker) := by
  rw [bare_follow]
  refine forM_congr fun stop _ => ?_
  cases stop with
  | visit address env node => exact Run.bare_bind_pure _ _
  | enter kind names => rfl
  | fault fault => rfl

theorem bare_walkSlots (wellFormed : node.WellFormed) {slots : List String}
    (distinct : slots.Nodup) :
    (walker.walkSlots env slots node).bare =
      forM (slots.flatMap fun slot => fieldStops env slot (node.field slot))
        (Stop.visitBy walker) := by
  rw [walkSlots_eq walker.editsBy_visitEdits env wellFormed slots distinct, Run.bare_bind_pure,
    bare_follow_visitEdits]

theorem bare_descend (wellFormed : node.WellFormed) :
    (walker.descend env node).bare =
      forM (agenda walker.intercepts env node) (Stop.visitBy walker) := by
  rw [descend_eq_follow walker.editsBy_visitEdits env wellFormed, Run.bare_bind_pure,
    bare_follow_visitEdits]

end Walker

namespace Reference

/-- Whether the search takes some slots of a node only, whatever they hold. -/
def picks (node : Node) : Bool :=
  match node.kind with
  | .memberExpression | .property | .methodDefinition | .propertyDefinition | .classProperty
  | .labeledStatement | .breakStatement | .continueStatement | .importDeclaration
  | .exportAllDeclaration | .exportSpecifier => true
  | .exportNamedDeclaration => (node.child? "source").isSome
  | _ => false

/-- The environment in which the search goes on below a node: functions and classes that it hands
over have a frame for their own names. -/
def around (env : Env) (node : Node) : Env :=
  match node.kind with
  | .functionDeclaration | .functionExpression | .classExpression =>
    env.child.declareAll (ownNames node)
  | _ => env

/-- The agenda of the search at a node. -/
def stops (env : Env) (node : Node) : List Stop :=
  if picks node then
    node.referenceSlots.flatMap fun slot => fieldStops env slot (node.field slot)
  else agenda table.contains (around env node) node

section

variable {walker : Walker} {env : Env} {node : Node}

theorem bare_picks {transform : Transform} (wellFormed : node.WellFormed)
    (picked : picks node = true)
    (walks : transform walker env node = (do
      return some (← walker.walkSlots env node.referenceSlots node))) :
    (transform walker env node).bare = forM (stops env node) (Stop.visitBy walker) := by
  rw [walks, Run.bare_bind_pure, stops, if_pos picked,
    Walker.bare_walkSlots wellFormed (referenceSlots_nodup wellFormed.here)]

theorem bare_below (intercepts : walker.intercepts = table.contains)
    (wellFormed : node.WellFormed) (all : picks node = false) {inner : Env}
    (innerEq : around env node = inner) :
    (do return some (← walker.descend inner node) : Run (Option Node)).bare =
      forM (stops env node) (Stop.visitBy walker) := by
  rw [Run.bare_bind_pure, Walker.bare_descend wellFormed, intercepts, stops, all,
    if_neg Bool.false_ne_true, innerEq]

/-- What a transform of the search does, apart from the tree that it gives. -/
theorem bare_transform (intercepts : walker.intercepts = table.contains)
    (wellFormed : node.WellFormed) {transform : Transform}
    (found : transform? node.kind = some transform) :
    (transform walker env node).bare = forM (stops env node) (Stop.visitBy walker) := by
  unfold transform? at found
  split at found
  all_goals cases found
  case h_1 kind =>
    have nothing : stops env node = [] := by
      rw [stops, picks, agenda, kind]
      rfl
    rw [nothing]
    rfl
  case h_2 kind | h_3 kind | h_4 kind | h_5 kind =>
    have slots : node.referenceSlots = [] := by rw [Node.referenceSlots, kind]
    exact bare_picks wellFormed (by rw [picks, kind])
      (Walker.leave_eq_walkSlots walker env slots)
  case h_6 kind =>
    exact bare_picks wellFormed (by rw [picks, kind])
      (Walker.member_eq_walkSlots walker env kind)
  case h_7 kind | h_8 kind | h_9 kind | h_10 kind =>
    exact bare_picks wellFormed (by rw [picks, kind])
      (Walker.keyed_eq_walkSlots walker env (by simp [kind]))
  case h_11 kind | h_12 kind =>
    exact bare_picks wellFormed (by rw [picks, kind])
      (Walker.only_eq_walkSlots walker env (by rw [Node.referenceSlots, kind]))
  case h_13 kind =>
    cases source : (node.child? "source").isSome with
    | true =>
      have slots : node.referenceSlots = ["declaration"] := by
        simp [Node.referenceSlots, kind, source]
      exact bare_picks wellFormed (by rw [picks, kind, source])
        (Walker.exported_eq_walkSlots walker env slots source)
    | false =>
      rw [exported, source, if_neg Bool.false_ne_true]
      exact bare_below intercepts wellFormed (by rw [picks, kind, source])
        (by rw [around, kind])
  case h_14 kind | h_15 kind | h_16 kind =>
    exact bare_below intercepts wellFormed (by rw [picks, kind]) (by rw [around, kind])

end

/-- The hand-over of a node to the search, if its kind has a transform. -/
def ownStops (env : Env) (node : Node) : List Stop :=
  if table.contains node.kind then [.visit [] env node] else []

/-- A visit of the search hands the node over, if its kind has a transform, and then goes on with
the agenda. -/
theorem bare_visit (budget : Nat) (env : Env) {node : Node} (wellFormed : node.WellFormed) :
    (table.visit (budget + 1) env node).bare = (do
      forM (ownStops env node) Stop.perform
      forM (stops env node) (Stop.visitBy (table.walker budget))) := by
  have contained := table.contains_eq_isSome node.kind
  rw [table_find?] at contained
  rw [Table.visit_succ, table_find?, ownStops, contained]
  cases found : transform? node.kind with
  | none =>
    have plain : picks node = false ∧ around env node = env := by
      unfold transform? at found
      split at found
      all_goals cases found
      simp_all [picks, around]
    exact bare_below rfl wellFormed plain.1 plain.2
  | some transform =>
    refine (Run.bare_bind fun _ => bare_transform rfl wellFormed found).trans ?_
    rfl

end Reference

/-! ### The itinerary -/

/-- An address that leads on from another. -/
theorem Node.at?_append (first second : Address) (node : Node) :
    node.at? (first ++ second) = (node.at? first).bind fun inner => inner.at? second := by
  induction first generalizing node with
  | nil => rfl
  | cons place rest inductionHypothesis =>
    rw [List.cons_append, at?, at?, Option.bind_assoc]
    exact Option.bind_congr fun child _ => inductionHypothesis child

/-- The slots with references are some of the slots that a walk goes into, in the same order. -/
theorem Node.referenceSlots_sublist (node : Node) :
    node.referenceSlots.Sublist node.visitedSlots := by
  rw [referenceSlots]
  split
  case h_13 => exact .refl _
  all_goals
    rename_i kind
    simp only [visitedSlots, kind, Kind.rule]
    repeat' split
    all_goals decide

namespace Reference

/-- The nodes that the search visits below a node. -/
theorem at?_of_mem_stops {env inner : Env} {node target : Node} {address : Address}
    (member : .visit address inner target ∈ stops env node) :
    node.at? address = some target ∧ target.size < node.size := by
  rw [stops] at member
  split at member
  · obtain ⟨slot, _, visited⟩ := List.mem_flatMap.mp member
    obtain ⟨⟨place, child⟩, placeMember, equal⟩ := List.mem_map.mp visited
    obtain ⟨rfl, rfl, rfl⟩ := Stop.visit.inj equal
    have held := Node.held?_of_mem_places placeMember
    refine ⟨?_, Node.size_lt_of_held? held⟩
    rw [Node.at?, held]
    rfl
  · exact ⟨at?_of_mem_agenda member, size_lt_of_mem_agenda member⟩

/-- What the search does with a tree: the nodes that it hands over, in order and with their
environments, and the malformed slots that it comes to. -/
def itinerary (env : Env) (node : Node) : List Stop :=
  ownStops env node ++ (stops env node).attach.flatMap fun
    | ⟨.visit address inner child, _⟩ => (itinerary inner child).map (Stop.under address)
    | ⟨.enter _ _, _⟩ => []
    | ⟨.fault fault, _⟩ => [.fault fault]
termination_by node.size
decreasing_by exact (at?_of_mem_stops (by assumption)).2

/-- What the search does at a stop of its agenda. -/
def onward : Stop → List Stop
  | .visit address env node => (itinerary env node).map (Stop.under address)
  | .enter _ _ => []
  | .fault fault => [.fault fault]

theorem itinerary_eq (env : Env) (node : Node) :
    itinerary env node = ownStops env node ++ (stops env node).flatMap onward := by
  rw [itinerary]
  conv_rhs => rw [← List.attach_map_subtype_val (stops env node), List.flatMap_map]
  refine congrArg (_ ++ ·) (List.flatMap_congr fun entry _ => ?_)
  obtain ⟨stop, member⟩ := entry
  cases stop <;> rfl

theorem forM_onward (stop : Stop) :
    forM (onward stop) Stop.perform =
      match stop with
      | .visit _ env node => forM (itinerary env node) Stop.perform
      | stop => stop.perform := by
  cases stop with
  | visit address env node =>
    rw [onward, List.forM_map]
    exact forM_congr fun stop _ => stop.perform_under address
  | enter kind names => rfl
  | fault fault => rfl

/-- A visit of the search goes along the itinerary, apart from the tree that it gives. -/
theorem bare_visit_eq_itinerary {budget : Nat} {node : Node} (enough : node.size ≤ budget)
    (wellFormed : node.WellFormed) (env : Env) :
    (table.visit budget env node).bare = forM (itinerary env node) Stop.perform := by
  induction budget generalizing env node with
  | zero =>
    obtain ⟨kind, fields⟩ := node
    rw [Node.size] at enough
    omega
  | succ budget inductionHypothesis =>
    rw [bare_visit budget env wellFormed, itinerary_eq, List.forM_append, forM_flatMap]
    refine congrArg (_ >>= ·) (funext fun _ => forM_congr fun stop member => ?_)
    rw [forM_onward]
    cases stop with
    | visit address inner child =>
      obtain ⟨found, smaller⟩ := at?_of_mem_stops member
      exact inductionHypothesis (by omega) (wellFormed.at? found) inner
    | enter kind names => rfl
    | fault fault => rfl

/-- A node of the itinerary is the node itself, or it is met at a stop of the agenda. -/
theorem mem_itinerary {env inner : Env} {node target : Node} {address : Address}
    (member : .visit address inner target ∈ itinerary env node) :
    (address = [] ∧ inner = env ∧ target = node) ∨
      ∃ first middle child rest, address = first ++ rest ∧
        .visit first middle child ∈ stops env node ∧
        .visit rest inner target ∈ itinerary middle child := by
  rw [itinerary_eq] at member
  rcases List.mem_append.mp member with own | onwards
  · rw [ownStops] at own
    split at own
    · obtain ⟨rfl, rfl, rfl⟩ := Stop.visit.inj (List.mem_singleton.mp own)
      exact Or.inl ⟨rfl, rfl, rfl⟩
    · cases own
  · obtain ⟨stop, stopMember, visited⟩ := List.mem_flatMap.mp onwards
    cases stop with
    | visit first middle child =>
      obtain ⟨inside, insideMember, equal⟩ := List.mem_map.mp visited
      cases inside with
      | visit rest _ _ =>
        obtain ⟨rfl, rfl, rfl⟩ := Stop.visit.inj equal
        exact Or.inr ⟨first, middle, child, rest, rfl, stopMember, insideMember⟩
      | enter => cases equal
      | fault => cases equal
    | enter kind names => cases visited
    | fault reason => cases List.mem_singleton.mp visited

/-- A node whose kind has a transform is the first one of its own itinerary. -/
theorem self_mem_itinerary {env : Env} {node : Node} (taken : table.contains node.kind = true) :
    .visit [] env node ∈ itinerary env node := by
  rw [itinerary_eq, ownStops, if_pos taken]
  exact List.mem_append_left _ (List.mem_singleton.mpr rfl)

/-- The itinerary goes on below a stop of the agenda. -/
theorem mem_itinerary_of_stop {env middle inner : Env} {node child target : Node} {place : Place}
    {rest : Address} (index : Nat)
    (stop : (stops env node)[index]? = some (.visit [place] middle child))
    (member : .visit rest inner target ∈ itinerary middle child) :
    .visit (place :: rest) inner target ∈ itinerary env node := by
  rw [itinerary_eq]
  refine List.mem_append_right _ (List.mem_flatMap.mpr ⟨_, List.mem_of_getElem? stop, ?_⟩)
  exact List.mem_map.mpr ⟨_, member, rfl⟩

/-- The nodes of the itinerary stand at their addresses. -/
theorem at?_of_mem_itinerary {env inner : Env} {node target : Node} {address : Address}
    (member : .visit address inner target ∈ itinerary env node) :
    node.at? address = some target := by
  induction size : node.size using Nat.strongRecOn generalizing env node address with
  | _ bound inductionHypothesis =>
  subst size
  obtain ⟨rfl, _, rfl⟩ | ⟨first, middle, child, rest, rfl, stopMember, visited⟩ :=
    mem_itinerary member
  · rfl
  · obtain ⟨found, smaller⟩ := at?_of_mem_stops stopMember
    rw [Node.at?_append, found]
    exact inductionHypothesis child.size smaller visited rfl

end Reference

/-! ### The outcome of the search -/

namespace Stop

/-- The fault of a malformed slot. -/
def fault? : Stop → Option Fault
  | .fault reason => some reason
  | _ => none

/-- The node that is handed over at a stop of the itinerary, with its environment. -/
def handOver? : Stop → Option (Env × Node)
  | .visit _ env node => some (env, node)
  | _ => none

/-- The free reference that a stop of the itinerary shows. -/
def reference? (options : Reference.Options) : Stop → Option Reference
  | .visit _ env node => Reference.ofStep? options (.intercepted env node)
  | _ => none

end Stop

namespace Run

variable {α : Type} (options : Reference.Options)

/-- The free references that a run meets, if it comes to its end. -/
def references (run : Run α) : Except Fault (List Reference) :=
  run.outcome.map fun _ => run.log.filterMap (Reference.ofStep? options)

theorem references_bare (run : Run α) : run.bare.references options = run.references options := by
  have shown : run.bare.log.filterMap (Reference.ofStep? options) =
      run.log.filterMap (Reference.ofStep? options) := by
    rw [bare, List.filterMap_filter]
    refine List.filterMap_congr fun step _ => ?_
    cases step <;> rfl
  rw [references, references, shown, bare]
  cases run.outcome <;> rfl

theorem references_record (env : Env) (node : Node) (run : Run Unit) :
    (do record (.intercepted env node); run).references options =
      (run.references options).map fun later =>
        (Reference.ofStep? options (.intercepted env node)).toList ++ later := by
  obtain ⟨log, outcome⟩ := run
  cases shown : Reference.ofStep? options (.intercepted env node) <;> cases outcome <;>
    simp [references, record, bind_def, andThen, Except.map, shown]

end Run

/-- Performing stops in turn meets their references, unless one of them is a fault. -/
theorem references_forM_perform (options : Reference.Options) (stops : List Stop) :
    (forM stops Stop.perform).references options =
      match stops.findSome? Stop.fault? with
      | some fault => .error fault
      | none => .ok (stops.filterMap (Stop.reference? options)) := by
  induction stops with
  | nil => rfl
  | cons stop rest inductionHypothesis =>
    rw [List.forM_cons, List.findSome?_cons]
    cases stop with
    | fault reason => rfl
    | enter kind names => exact inductionHypothesis
    | visit address env node =>
      refine (Run.references_record options env node _).trans ?_
      rw [inductionHypothesis, List.filterMap_cons, Stop.reference?]
      dsimp only [Stop.fault?]
      cases rest.findSome? Stop.fault? <;>
        cases Reference.ofStep? options (.intercepted env node) <;> rfl

/-- Performing stops without a fault hands their nodes over. -/
theorem handOvers_forM_perform {stops : List Stop} (passes : stops.findSome? Stop.fault? = none) :
    handOvers (forM stops Stop.perform).log = stops.filterMap Stop.handOver? := by
  induction stops with
  | nil => rfl
  | cons stop rest inductionHypothesis =>
    rw [List.findSome?_cons] at passes
    rw [List.forM_cons]
    cases stop with
    | fault reason => cases passes
    | enter kind names => exact inductionHypothesis passes
    | visit address env node => exact congrArg ((env, node) :: ·) (inductionHypothesis passes)

section

variable (options : Reference.Options) {tree : Node} (wellFormed : tree.WellFormed)
include wellFormed

/-- The search goes along the itinerary, apart from the tree that it gives. -/
theorem bare_search :
    (Reference.search options tree).bare =
      forM (Reference.itinerary (.ofNames options.globals) tree) Stop.perform :=
  Reference.bare_visit_eq_itinerary (Nat.le_succ tree.size) wellFormed _

/-- The search fails with the first malformed slot of its itinerary. If there is none it gives the
free references that the itinerary shows. -/
theorem freeReferences_eq_itinerary :
    tree.freeReferences options =
      match (Reference.itinerary (.ofNames options.globals) tree).findSome? Stop.fault? with
      | some fault => .error fault
      | none => .ok ((Reference.itinerary (.ofNames options.globals) tree).filterMap
          (Stop.reference? options)) := by
  have searched : tree.freeReferences options =
      (Reference.search options tree).references options := rfl
  rw [searched, ← Run.references_bare, bare_search options wellFormed, references_forM_perform]

/-- A search that succeeds hands over the nodes of its itinerary, and gives the free references that
these show. -/
theorem search_of_ok {references : List Reference}
    (found : tree.freeReferences options = .ok references) :
    handOvers (Reference.search options tree).log =
        (Reference.itinerary (.ofNames options.globals) tree).filterMap Stop.handOver? ∧
      references = (Reference.itinerary (.ofNames options.globals) tree).filterMap
        (Stop.reference? options) := by
  rw [freeReferences_eq_itinerary options wellFormed] at found
  split at found
  · cases found
  · rename_i passes
    refine ⟨?_, (Except.ok.inj found).symm⟩
    rw [← Run.handOvers_bare, bare_search options wellFormed, handOvers_forM_perform passes]

end

end EstreeScopes
