/-
This file shows that the first fault decides how a walk ends, and that nothing is
done after it (`walk_ends_at_first_fault`), for transforms that do not go on with
the walk. What a walk does is listed beforehand, from the tree alone: the check
of each slot that it comes to, and the hand-over of each frontier node, in the
order of the rules. A slot is checked after all that is listed for the slots
before it, and before what stands in it. The walk takes the steps of the list in
turn, up to the first that fails.

The list says nothing of patterns. A pattern has its own way of walking its
slots, but it checks and visits them in the order of its rule.
-/

import EstreeScopes.Proofs.Frames

namespace EstreeScopes

/-! ### The steps of a walk -/

/-- A step of a walk: a slot is checked, with what it holds, or the node at an address is handed to
its transform. -/
inductive Check where
  | shape (kind : Kind) (slot : Slot) (held : Field Node)
  | handOver (address : Address) (node : Node)

namespace Check

/-- A step in a tree as a step in a tree above it. -/
def below (place : Place) : Check → Check
  | .shape kind slot held => .shape kind slot held
  | .handOver address node => .handOver (place :: address) node

/-- The node that a step hands over, with its address. -/
def target? : Check → Option (Address × Node)
  | .shape _ _ _ => none
  | .handOver address node => some (address, node)

end Check

namespace Node

/-- The steps of a walk of a tree, in order, for the kinds that are intercepted. A node that is
intercepted is handed over. Of any other node the slots of the rule are taken one after the other:
each is checked, and then the nodes in it are walked. What stands in the fields of a node that is
walked whatever it holds is not checked. -/
def checks (intercepts : Kind → Bool) (node : Node) : List Check :=
  let inside (slot : String) : List Check :=
    ((node.field slot).places slot).attach.flatMap fun ⟨(place, child), _⟩ =>
      (checks intercepts child).map (Check.below place)
  let checked (slot : Slot) : List Check :=
    .shape node.kind slot (node.field slot.name) :: inside slot.name
  if intercepts node.kind then [.handOver [] node]
  else
    match node.kind.rule with
    | none => []
    | some (.slots slots) => slots.flatMap checked
    | some .children => node.slots.flatMap inside
    | some .program => checked .programBody
    | some .function => checked .functionId ++ (checked .functionParams ++ checked .functionBody)
    | some .catchClause => checked .catchParam ++ checked .catchBody
termination_by node.size
decreasing_by
  exact Nat.lt_trans (size_lt_of_mem_nodes (Field.mem_nodes_of_mem_places (by assumption)))
    (fieldSize_lt_size node slot)

/-- The steps of a node that is at one of the places below, seen from above. -/
def checksAt (intercepts : Kind → Bool) (entry : Place × Node) : List Check :=
  (entry.2.checks intercepts).map (Check.below entry.1)

/-- The steps in the nodes of a slot. -/
def checksIn (intercepts : Kind → Bool) (node : Node) (slot : String) : List Check :=
  ((node.field slot).places slot).flatMap (checksAt intercepts)

/-- The check of a slot, and then the steps in its nodes. -/
def slotChecks (intercepts : Kind → Bool) (node : Node) (slot : Slot) : List Check :=
  .shape node.kind slot (node.field slot.name) :: node.checksIn intercepts slot.name

theorem checks_eq (intercepts : Kind → Bool) (node : Node) :
    node.checks intercepts =
      if intercepts node.kind then [.handOver [] node]
      else
        match node.kind.rule with
        | none => []
        | some (.slots slots) => slots.flatMap (node.slotChecks intercepts)
        | some .children => node.slots.flatMap (node.checksIn intercepts)
        | some .program => node.slotChecks intercepts .programBody
        | some .function =>
          node.slotChecks intercepts .functionId ++
            (node.slotChecks intercepts .functionParams ++
              node.slotChecks intercepts .functionBody)
        | some .catchClause =>
          node.slotChecks intercepts .catchParam ++ node.slotChecks intercepts .catchBody := by
  have inside (slot : String) : ((node.field slot).places slot).attach.flatMap
      (fun entry => (entry.1.2.checks intercepts).map (Check.below entry.1.1)) =
      node.checksIn intercepts slot := by
    rw [checksIn]
    conv_rhs => rw [← List.attach_map_subtype_val ((node.field slot).places slot),
      List.flatMap_map]
    rfl
  rw [checks]
  simp only [inside]
  rfl

/-- The nodes that the steps hand over are the frontier. -/
theorem checks_target? (intercepts : Kind → Bool) (node : Node) :
    (node.checks intercepts).filterMap Check.target? = node.frontier intercepts := by
  induction size : node.size using Nat.strongRecOn generalizing node with
  | _ bound inductionHypothesis =>
  subst size
  have inside (slot : String) : (node.checksIn intercepts slot).filterMap Check.target? =
      ((node.field slot).places slot).flatMap (frontierAt intercepts) := by
    rw [checksIn, List.filterMap_flatMap]
    refine List.flatMap_congr fun ⟨place, child⟩ member => ?_
    have smaller := Nat.lt_trans (size_lt_of_mem_nodes (Field.mem_nodes_of_mem_places member))
      (fieldSize_lt_size node slot)
    rw [checksAt, frontierAt, ← inductionHypothesis child.size smaller child rfl,
      List.filterMap_map, List.map_filterMap]
    refine List.filterMap_congr fun check _ => ?_
    cases check <;> rfl
  have checked (slot : Slot) : (node.slotChecks intercepts slot).filterMap Check.target? =
      ((node.field slot.name).places slot.name).flatMap (frontierAt intercepts) :=
    inside slot.name
  rw [checks_eq, frontier_eq]
  split
  · rfl
  rw [visitedPlaces, visitedSlots, List.flatMap_assoc]
  cases node.kind.rule with
  | none => rfl
  | some rule =>
    cases rule with
    | slots slots => simp only [List.filterMap_flatMap, checked, List.flatMap_map]
    | children => simp only [List.filterMap_flatMap, inside]
    | program => simp [checked, Slot.programBody, Slot.list]
    | function =>
      simp [checked, Slot.functionId, Slot.functionParams, Slot.functionBody, Slot.node, Slot.list]
    | catchClause => simp [checked, Slot.catchParam, Slot.catchBody, Slot.node]

theorem mem_frontier_of_mem_checks {intercepts : Kind → Bool} {node target : Node}
    {address : Address} (member : .handOver address target ∈ node.checks intercepts) :
    (address, target) ∈ node.frontier intercepts := by
  rw [← checks_target?]
  exact List.mem_filterMap.mpr ⟨_, member, rfl⟩

end Node

/-! ### Taking the steps in turn -/

section

variable {α : Type} {act other : α → Run Unit}

theorem forM_flatMap {Key : Type} (keys : List Key) (list : Key → List α) :
    forM (keys.flatMap list) act = forM keys fun key => forM (list key) act := by
  induction keys with
  | nil => rfl
  | cons key rest inductionHypothesis =>
    rw [List.flatMap_cons, List.forM_append, List.forM_cons, inductionHypothesis]

theorem forM_congr {list : List α} (same : ∀ item ∈ list, act item = other item) :
    forM list act = forM list other := by
  induction list with
  | nil => rfl
  | cons item rest inductionHypothesis =>
    rw [List.forM_cons, List.forM_cons, same item List.mem_cons_self,
      inductionHypothesis fun later member => same later (List.mem_cons_of_mem _ member)]

end

/-- Takes a step, given how nodes are handed over. -/
def Check.take (handOver : Address → Node → Run Unit) : Check → Run Unit
  | .shape kind slot held => if slot.accepts held then pure () else .fail (.malformed kind slot)
  | .handOver address node => handOver address node

/-- Takes the steps that a stop of an agenda stands for. -/
def Stop.take (intercepts : Kind → Bool) (handOver : Address → Node → Run Unit) : Stop → Run Unit
  | .visit address _ node =>
    forM (node.checks intercepts) (Check.take fun rest => handOver (address ++ rest))
  | .enter _ _ => pure ()
  | .fault reason => .fail reason

section

variable {intercepts : Kind → Bool}

theorem Check.take_below (handOver : Address → Node → Run Unit) (place : Place) (check : Check) :
    (check.below place).take handOver = check.take fun rest => handOver (place :: rest) := by
  cases check <;> rfl

theorem Stop.take_below (handOver : Address → Node → Run Unit) (place : Place) (stop : Stop) :
    (stop.below place).take intercepts handOver =
      stop.take intercepts fun rest => handOver (place :: rest) := by
  cases stop <;> rfl

theorem forM_checksAt (handOver : Address → Node → Run Unit) (place : Place) (child : Node) :
    forM (Node.checksAt intercepts (place, child)) (Check.take handOver) =
      forM (child.checks intercepts) (Check.take fun rest => handOver (place :: rest)) := by
  rw [Node.checksAt, List.forM_map]
  exact forM_congr fun check _ => check.take_below handOver place

theorem forM_map_below (handOver : Address → Node → Run Unit) (place : Place)
    (stops : List Stop) :
    forM (stops.map (Stop.below place)) (Stop.take intercepts handOver) =
      forM stops (Stop.take intercepts fun rest => handOver (place :: rest)) := by
  rw [List.forM_map]
  exact forM_congr fun stop _ => stop.take_below handOver place

theorem forM_fieldStops (handOver : Address → Node → Run Unit) (env : Env) (node : Node)
    (slot : String) :
    forM (fieldStops env slot (node.field slot)) (Stop.take intercepts handOver) =
      forM (node.checksIn intercepts slot) (Check.take handOver) := by
  rw [fieldStops, List.forM_map, Node.checksIn, forM_flatMap]
  exact forM_congr fun entry _ => (forM_checksAt handOver entry.1 entry.2).symm

/-- A slot that does not hold what it must ends the steps of a node. -/
theorem forM_slotChecks (handOver : Address → Node → Run Unit) (node : Node) (slot : Slot) :
    forM (node.slotChecks intercepts slot) (Check.take handOver) =
      if slot.accepts (node.field slot.name) then
        forM (node.checksIn intercepts slot.name) (Check.take handOver)
      else .fail (.malformed node.kind slot) := by
  rw [Node.slotChecks, List.forM_cons, Check.take]
  split
  · exact pure_bind _ _
  · exact Run.fail_andThen _ _

theorem forM_slotStops (handOver : Address → Node → Run Unit) (env : Env) (node : Node)
    (slot : Slot) :
    forM (slotStops env node.kind slot (node.field slot.name)) (Stop.take intercepts handOver) =
      forM (node.slotChecks intercepts slot) (Check.take handOver) := by
  rw [forM_slotChecks, slotStops]
  split
  · exact forM_fieldStops handOver env node slot.name
  · rw [List.forM_cons]
    exact Run.fail_andThen _ _

/-! ### The steps of a pattern -/

/-- The agenda of a pattern takes the steps of the pattern. -/
def PatternTakes (intercepts : Kind → Bool) (pattern : Node) : Prop :=
  ∀ (handOver : Address → Node → Run Unit) (outer scope : Env),
    forM (patternStops intercepts outer scope pattern) (Stop.take intercepts handOver) =
      forM (pattern.checks intercepts) (Check.take handOver)

theorem forM_patternItemsStops (handOver : Address → Node → Run Unit) (outer scope : Env)
    (slot : String) (start : Nat) {items : List (Option Node)}
    (each : ∀ child, some child ∈ items → PatternTakes intercepts child) :
    forM (patternItemsStops intercepts outer scope slot start items)
        (Stop.take intercepts handOver) =
      forM ((itemPlaces slot start items).flatMap (Node.checksAt intercepts))
        (Check.take handOver) := by
  induction items generalizing scope start with
  | nil =>
    rw [patternItemsStops]
    rfl
  | cons item rest inductionHypothesis =>
    have restEach : ∀ child, some child ∈ rest → PatternTakes intercepts child :=
      fun child member => each child (List.mem_cons_of_mem _ member)
    cases item with
    | none =>
      rw [patternItemsStops]
      exact inductionHypothesis scope (start + 1) restEach
    | some child =>
      rw [patternItemsStops, List.forM_append, forM_map_below,
        each child List.mem_cons_self _ outer scope, inductionHypothesis _ (start + 1) restEach,
        itemPlaces, List.flatMap_cons, List.forM_append, forM_checksAt]

theorem forM_patternFieldStops (handOver : Address → Node → Run Unit) (outer scope : Env)
    (node : Node) (slot : Slot)
    (each : ∀ child ∈ (node.field slot.name).nodes, PatternTakes intercepts child) :
    forM (patternFieldStops intercepts outer scope node.kind slot (node.field slot.name))
        (Stop.take intercepts handOver) =
      forM (node.slotChecks intercepts slot) (Check.take handOver) := by
  rw [forM_slotChecks, patternFieldStops.eq_def]
  split
  · rw [Node.checksIn]
    cases held : node.field slot.name with
    | absent => rfl
    | value plain => rfl
    | node child =>
      rw [held] at each
      refine (forM_map_below handOver _ _).trans ?_
      rw [each child List.mem_cons_self _ outer scope, Field.places, List.flatMap_singleton,
        forM_checksAt]
    | list items =>
      rw [held] at each
      exact forM_patternItemsStops handOver outer scope slot.name 0 fun child member =>
        each child (List.mem_filterMap.mpr ⟨_, member, rfl⟩)
  · rw [List.forM_cons]
    exact Run.fail_andThen _ _

theorem forM_patternStops (pattern : Node) : PatternTakes intercepts pattern := by
  induction size : pattern.size using Nat.strongRecOn generalizing pattern with
  | _ bound inductionHypothesis =>
  subst size
  intro handOver outer scope
  have each (slot : String) (child : Node) (member : child ∈ (pattern.field slot).nodes) :
      PatternTakes intercepts child :=
    inductionHypothesis child.size
      (Nat.lt_trans (Node.size_lt_of_mem_nodes member) (Node.fieldSize_lt_size _ _)) child rfl
  have whole (env : Env) : forM [Stop.visit [] env pattern] (Stop.take intercepts handOver) =
      forM (pattern.checks intercepts) (Check.take handOver) := by
    rw [List.forM_cons, List.forM_nil]
    exact Run.andThen_done _
  rw [patternStops]
  split
  · exact whole _
  rename_i passed
  split
  · rename_i inner patternSlot
    rw [Node.checks_eq, if_neg passed, Kind.rule_of_patternSlot? patternSlot, forM_flatMap,
      forM_flatMap]
    refine forM_congr fun slot _ => ?_
    by_cases same : slot = inner
    · rw [if_pos same]
      exact forM_patternFieldStops handOver outer _ pattern slot (each slot.name)
    · rw [if_neg same]
      exact forM_slotStops handOver outer pattern slot
  · split
    · rename_i identifier
      rw [Node.checks_eq, if_neg passed, identifier]
      rfl
    · exact whole scope

/-- The agenda of a node that is not intercepted takes the steps of the node. -/
theorem forM_agenda (handOver : Address → Node → Run Unit) (env : Env) {node : Node}
    (passed : ¬ intercepts node.kind = true) :
    forM (agenda intercepts env node) (Stop.take intercepts handOver) =
      forM (node.checks intercepts) (Check.take handOver) := by
  have body (scope : Env) (slot : Slot) :
      forM (bodyStops scope node slot) (Stop.take intercepts handOver) =
        forM (node.slotChecks intercepts slot) (Check.take handOver) := by
    rw [bodyStops, List.forM_cons, forM_slotStops]
    exact Run.done_andThen _ _
  have scope (outer scope : Env) (patterns bodySlot : Slot) :
      forM (scopeStops intercepts outer scope node patterns bodySlot)
          (Stop.take intercepts handOver) =
        forM (node.slotChecks intercepts patterns ++ node.slotChecks intercepts bodySlot)
          (Check.take handOver) := by
    rw [scopeStops, List.forM_append, List.forM_append, body,
      forM_patternFieldStops handOver outer scope node patterns fun child _ =>
        forM_patternStops child]
  rw [Node.checks_eq, if_neg passed, agenda]
  cases node.kind.rule with
  | none => rfl
  | some rule =>
    cases rule with
    | slots slots =>
      rw [forM_flatMap, forM_flatMap]
      exact forM_congr fun slot _ => forM_slotStops handOver env node slot
    | children =>
      rw [forM_flatMap, forM_flatMap]
      exact forM_congr fun slot _ => forM_fieldStops handOver env node slot
    | program => exact body _ _
    | function =>
      have named : forM (slotStops env node.kind .functionId (node.field "id"))
          (Stop.take intercepts handOver) = _ := forM_slotStops handOver env node .functionId
      rw [List.forM_append, List.forM_append, named, scope]
    | catchClause => exact scope _ _ _ _

end

/-! ### What a walk is apart from its edits -/

namespace Run

variable {α β : Type}

/-- A run without what it gives and without the scopes that it enters: its hand-overs and its
fault. -/
def bare (run : Run α) : Run Unit :=
  { log := run.log.filter fun step => step.handOver?.isSome,
    outcome := run.outcome.map fun _ => () }

theorem bare_bind {first : Run α} {next : α → Run β} {rest : Run Unit}
    (same : ∀ value, (next value).bare = rest) :
    (first >>= next).bare = first.bare >>= fun _ => rest := by
  obtain ⟨log, outcome⟩ := first
  cases outcome with
  | error fault => rfl
  | ok value =>
    rw [← same value]
    simp only [bare, bind_def, andThen, List.filter_append]
    rfl

theorem bare_bind_pure (run : Run α) (change : α → β) :
    (do return change (← run)).bare = run.bare := by
  have silent (value : α) : (pure (change value) : Run β).bare = pure () := rfl
  rw [bare_bind silent]
  exact andThen_done run.bare

/-- The hand-overs of a run are those of the bare run. -/
theorem handOvers_bare (run : Run α) : handOvers run.bare.log = handOvers run.log := by
  rw [handOvers, handOvers, bare, List.filterMap_filter]
  refine List.filterMap_congr fun step _ => ?_
  cases step <;> rfl

end Run

/-- Following an agenda visits the nodes in turn, apart from the edits. -/
theorem bare_follow (editor : Env → Node → Run Edits) (stops : List Stop) :
    (follow editor stops).bare = forM stops fun
      | .visit _ env node => (editor env node).bare
      | .enter _ _ => pure ()
      | .fault fault => .fail fault := by
  induction stops with
  | nil => rfl
  | cons stop rest inductionHypothesis =>
    rw [List.forM_cons, ← inductionHypothesis]
    cases stop with
    | visit address env node =>
      rw [follow, Run.bare_bind fun edits => ?_]
      exact Run.bare_bind_pure (follow editor rest) _
    | enter kind names =>
      rw [follow, Run.bare_bind fun _ => rfl]
      rfl
    | fault fault => exact (Run.fail_andThen _ _).symm

/-! ### Hand-overs -/

/-- The fault that a run ends with. -/
def Run.fault? {α : Type} (run : Run α) : Option Fault :=
  match run.outcome with
  | .error fault => some fault
  | .ok _ => none

/-- The fault with which the transform of a node refuses it. It makes no difference which walker a
transform gets that does not go on with the walk. -/
def Table.refusal? (table : Table) (env : Env) (node : Node) : Option Fault :=
  (table.find? node.kind).bind fun transform => (transform (table.walker 0) env node).fault?

/-- Hands a node over and forgets the answer. -/
def Table.handOver (table : Table) (env : Env) (node : Node) : Run Unit :=
  { log := [.intercepted env node],
    outcome :=
      match table.refusal? env node with
      | some fault => .error fault
      | none => .ok () }

theorem Table.Still.bare_handOver {table : Table} (still : table.Still) {node : Node}
    {transform : Transform} (found : table.find? node.kind = some transform) (walker : Walker)
    (env : Env) (change : Option Node → Edits) :
    (do
      Run.record (.intercepted env node)
      return change (← transform walker env node)).bare = table.handOver env node := by
  have silent := (still _ _ found).log_eq walker env node
  have refusal : table.refusal? env node = (transform walker env node).fault? := by
    rw [refusal?, found, Option.bind_some, (still _ _ found).same (table.walker 0) walker]
  rw [handOver, refusal]
  generalize transform walker env node = answer at silent ⊢
  obtain ⟨log, outcome⟩ := answer
  obtain rfl : log = [] := silent
  cases outcome <;> rfl

theorem Node.size_lt_of_held? {node child : Node} {place : Place}
    (held : node.held? place = some child) : child.size < node.size :=
  size_lt_of_mem_children (mem_children_of_held? held)

theorem Node.size_le_of_at? {node target : Node} {address : Address}
    (found : node.at? address = some target) : target.size ≤ node.size := by
  induction address generalizing node with
  | nil => exact Nat.le_of_eq (congrArg size (Option.some.inj found).symm)
  | cons place rest inductionHypothesis =>
    obtain ⟨child, held, further⟩ := Option.bind_eq_some_iff.mp found
    exact Nat.le_of_lt (Nat.lt_of_le_of_lt (inductionHypothesis further) (size_lt_of_held? held))

/-- A node that is visited in the agenda of another is smaller. -/
theorem size_lt_of_mem_agenda {intercepts : Kind → Bool} {env inner : Env} {node target : Node}
    {address : Address} (member : .visit address inner target ∈ agenda intercepts env node) :
    target.size < node.size := by
  obtain ⟨place, part, rest, rfl, held, inside⟩ := mem_agenda member
  have partSmaller := Node.size_lt_of_held? held
  obtain ⟨_, rfl⟩ | ⟨_, _, visited⟩ := inside
  · exact partSmaller
  · exact Nat.lt_of_le_of_lt (Node.size_le_of_at? (at?_of_mem_patternStops visited)) partSmaller

/-- A visit takes the steps of the node in turn. Each node is handed over inside the frames on the
way to it. -/
theorem bare_editor {table : Table} (still : table.Still) {budget : Nat} {node : Node}
    (enough : node.size ≤ budget) (env : Env) :
    (table.editor budget env node).bare =
      forM (node.checks table.contains) (Check.take fun address target =>
        table.handOver (env.extend (node.frames table.contains address)) target) := by
  induction budget generalizing env node with
  | zero =>
    obtain ⟨kind, fields⟩ := node
    rw [Node.size] at enough
    omega
  | succ budget inductionHypothesis =>
    have contained := table.contains_eq_isSome node.kind
    rw [Table.editor]
    cases found : table.find? node.kind with
    | some transform =>
      rw [found] at contained
      have intercepted : table.contains node.kind = true := contained
      rw [Node.checks_eq, if_pos intercepted, List.forM_cons, List.forM_nil]
      refine (still.bare_handOver found (table.walker budget) env _).trans ?_
      exact (Run.andThen_done _).symm
    | none =>
      rw [found] at contained
      have passed : ¬ table.contains node.kind = true := by simp [contained]
      rw [← forM_agenda _ env passed, bare_follow]
      refine forM_congr fun stop member => ?_
      cases stop with
      | enter kind names => rfl
      | fault fault => rfl
      | visit address inner target =>
        have smaller := size_lt_of_mem_agenda member
        refine (inductionHypothesis (by omega) inner).trans (forM_congr fun check inChecks => ?_)
        cases check with
        | shape kind slot held => rfl
        | handOver rest deepest =>
          have around := extend_of_mem_agenda member (Node.mem_frontier_of_mem_checks inChecks)
          exact congrArg (table.handOver · deepest) around.symm

/-! ### The first fault -/

namespace Check

/-- The fault of a step, given the environments at the addresses: the slot does not hold what it
must, or the transform refuses the node. -/
def fault? (table : Table) (around : Address → Env) : Check → Option Fault
  | .shape kind slot held => if slot.accepts held then none else some (.malformed kind slot)
  | .handOver address node => table.refusal? (around address) node

/-- The node that a step hands over, with its environment. -/
def handOver? (around : Address → Env) : Check → Option (Env × Node)
  | .shape _ _ _ => none
  | .handOver address node => some (around address, node)

end Check

section

variable {table : Table} {around : Address → Env}

/-- A step that has no fault is taken, and the node of a hand-over is handed over. -/
theorem take_of_fault?_none {check : Check} (passes : check.fault? table around = none) :
    check.take (fun address => table.handOver (around address)) =
      ⟨(check.handOver? around).toList.map fun entry => .intercepted entry.1 entry.2, .ok ()⟩ := by
  cases check with
  | shape kind slot held =>
    have accepted : slot.accepts held = true := by
      by_contra refused
      simp [Check.fault?, refused] at passes
    rw [Check.take, if_pos accepted]
    rfl
  | handOver address node =>
    rw [Check.take, Table.handOver, show table.refusal? (around address) node = none from passes]
    rfl

/-- A step with a fault ends the walk, after the node of a hand-over is handed over. -/
theorem take_of_fault?_some {check : Check} {fault : Fault}
    (fails : check.fault? table around = some fault) :
    check.take (fun address => table.handOver (around address)) =
      ⟨(check.handOver? around).toList.map fun entry => .intercepted entry.1 entry.2,
        .error fault⟩ := by
  cases check with
  | shape kind slot held =>
    have refused : ¬ slot.accepts held = true := by
      intro accepted
      simp [Check.fault?, accepted] at fails
    rw [Check.fault?, if_neg refused] at fails
    rw [Check.take, if_neg refused, Option.some.inj fails]
    rfl
  | handOver address node =>
    rw [Check.take, Table.handOver,
      show table.refusal? (around address) node = some fault from fails]
    rfl

theorem forM_of_fault?_none {checks : List Check}
    (pass : ∀ check ∈ checks, check.fault? table around = none) :
    forM checks (Check.take fun address => table.handOver (around address)) =
      ⟨(checks.filterMap (Check.handOver? around)).map fun entry => .intercepted entry.1 entry.2,
        .ok ()⟩ := by
  induction checks with
  | nil => rfl
  | cons check rest inductionHypothesis =>
    rw [List.forM_cons, take_of_fault?_none (pass check List.mem_cons_self),
      inductionHypothesis fun later member => pass later (List.mem_cons_of_mem _ member)]
    cases handed : check.handOver? around <;>
      simp [Run.bind_def, Run.andThen, handed]

theorem forM_of_fault?_some {before after : List Check} {check : Check} {fault : Fault}
    (pass : ∀ earlier ∈ before, earlier.fault? table around = none)
    (fails : check.fault? table around = some fault) :
    forM (before ++ check :: after) (Check.take fun address => table.handOver (around address)) =
      ⟨((before ++ [check]).filterMap (Check.handOver? around)).map
        fun entry => .intercepted entry.1 entry.2, .error fault⟩ := by
  rw [List.forM_append, forM_of_fault?_none pass, List.forM_cons, take_of_fault?_some fails]
  cases handed : check.handOver? around <;>
    simp [Run.bind_def, Run.andThen, handed]

end

theorem handOvers_map_intercepted (entries : List (Env × Node)) :
    handOvers (entries.map fun entry => .intercepted entry.1 entry.2) = entries := by
  rw [handOvers, List.filterMap_map]
  exact List.filterMap_some

/-- The first fault decides how a walk ends, and nothing is done after it. The steps are read off
the tree beforehand, and a step can fail in two ways: a slot does not hold what the rule asks for,
or a transform refuses the node that it is handed, inside the frames on the way to it. The walk
fails if and only if some step fails. It fails with the fault of the first such step, and the nodes
that are handed over are those of the steps up to this one. A walk without a fault hands over the
nodes of all steps. -/
theorem walk_ends_at_first_fault (table : Table) (still : table.Still) (budget : Nat)
    (env : Option Env) (tree : Node) (wellFormed : tree.WellFormed) (enough : tree.size ≤ budget) :
    let steps := tree.checks table.contains
    let around := fun address => (env.getD .root).extend (tree.frames table.contains address)
    let run := table.walk budget env (some tree)
    ((∃ fault, run.outcome = .error fault) ↔
        ∃ step ∈ steps, ∃ fault, step.fault? table around = some fault) ∧
      (∀ before step after fault, steps = before ++ step :: after →
        (∀ earlier ∈ before, earlier.fault? table around = none) →
        step.fault? table around = some fault →
          run.outcome = .error fault ∧
          handOvers run.log = (before ++ [step]).filterMap (Check.handOver? around)) ∧
      ((∀ step ∈ steps, step.fault? table around = none) →
        handOvers run.log = steps.filterMap (Check.handOver? around)) := by
  intro steps around run
  have bareRun : run.bare =
      forM steps (Check.take fun address => table.handOver (around address)) := by
    have visited : run = (do return tree.edit (← table.editor budget (env.getD .root) tree)) :=
      table.editsBy_editor budget (env.getD .root) tree wellFormed
    rw [visited, Run.bare_bind_pure]
    exact bare_editor still enough (env.getD .root)
  have handed : handOvers run.bare.log = handOvers run.log := run.handOvers_bare
  have ending (fault : Fault) : run.bare.outcome = .error fault ↔ run.outcome = .error fault := by
    rw [Run.bare]
    cases run.outcome <;> simp [Except.map]
  rw [bareRun] at handed ending
  refine ⟨⟨?_, ?_⟩, ?_, ?_⟩
  · rintro ⟨fault, failed⟩
    by_contra faultless
    have pass : ∀ step ∈ steps, step.fault? table around = none := by
      intro step member
      refine Option.eq_none_iff_forall_ne_some.mpr fun found fails => ?_
      exact faultless ⟨step, member, found, fails⟩
    have failedToo := (ending fault).mpr failed
    rw [forM_of_fault?_none pass] at failedToo
    cases failedToo
  · rintro ⟨step, member, found, fails⟩
    have some : (steps.findSome? (Check.fault? table around)).isSome = true :=
      List.findSome?_isSome_iff.mpr ⟨step, member, by rw [fails]; rfl⟩
    obtain ⟨fault, first⟩ := Option.isSome_iff_exists.mp some
    obtain ⟨before, failing, after, split, failsFirst, pass⟩ := List.findSome?_eq_some_iff.mp first
    refine ⟨fault, (ending fault).mp ?_⟩
    rw [split, forM_of_fault?_some pass failsFirst]
  · intro before step after fault split pass fails
    rw [split, forM_of_fault?_some pass fails] at handed ending
    exact ⟨(ending fault).mp rfl, by rw [← handed, handOvers_map_intercepted]⟩
  · intro pass
    rw [← handed, forM_of_fault?_none pass, handOvers_map_intercepted]

/-- The table that refuses the identifiers of one name. -/
def refusing (name : String) : Table :=
  .ofList [(.identifier, fun _ _ node =>
    if node.name? = some name then .fail (.refused name) else pure (some node))]

theorem refusing_still (name : String) : (refusing name).Still := by
  refine Table.still_of_forall
    (List.forall_mem_singleton.mpr ⟨fun _ _ node => ?_, fun _ _ _ _ => rfl⟩)
  show (if node.name? = some name then Run.fail (.refused name) else pure (some node)).log = []
  split <;> rfl

/-- A call, and then a statement with a slot that does not hold what it must. -/
def callThenFault : Node :=
  ⟨.program, [("body", .list
    [ some ⟨.callExpression,
        [ ("callee", .node (.identifier "f")),
          ("arguments", .list [some (.identifier "x"), some (.identifier "y")]) ]⟩,
      some ⟨.returnStatement, [("argument", .list [])]⟩ ])]⟩

theorem callThenFault_wellFormed : callThenFault.WellFormed := by decide

theorem callThenFault_ends_at_refusal :
    (refusing "x").Still ∧ callThenFault.WellFormed ∧ callThenFault.size ≤ 30 ∧
      ((refusing "x").walk 30 none (some callThenFault)).outcome = .error (.refused "x") ∧
      (handOvers ((refusing "x").walk 30 none (some callThenFault)).log).map Prod.snd =
        [.identifier "f", .identifier "x"] := by
  have enough : callThenFault.size ≤ 30 := by cbv
  obtain ⟨_, first, _⟩ := walk_ends_at_first_fault (refusing "x") (refusing_still "x") 30 none
    callThenFault callThenFault_wellFormed enough
  let body : Place := ⟨"body", some 0⟩
  have steps : callThenFault.checks (refusing "x").contains =
      [ .shape .program .programBody (callThenFault.field "body"),
        .shape .callExpression (.node "callee") (.node (.identifier "f")),
        .handOver [body, ⟨"callee", none⟩] (.identifier "f"),
        .shape .callExpression (.list "arguments")
          (.list [some (.identifier "x"), some (.identifier "y")]) ] ++
      .handOver [body, ⟨"arguments", some 0⟩] (.identifier "x") ::
      [ .handOver [body, ⟨"arguments", some 1⟩] (.identifier "y"),
        .shape .returnStatement (.node "argument") (.list []) ] := by cbv
  obtain ⟨ending, handed⟩ := first _ _ _ (.refused "x") steps (by
    simp only [List.forall_mem_cons]
    refine ⟨by cbv, by cbv, by cbv, by cbv, by simp⟩) (by cbv)
  exact ⟨refusing_still "x", callThenFault_wellFormed, enough, ending, by rw [handed]; rfl⟩

end EstreeScopes
