/-
This file says what a walk does at one node as a list, its agenda: the nodes to
visit, each with its address and the environment around it, the scope bodies to
enter, and the slots that are found malformed. The agenda is read off the node
alone. To follow it is to take its stops one after the other, up to the first
malformed slot. What a visit gives is an argument, in the form of edits of the
visited node; all of them together are edits of the node that the agenda is about.

An agenda says all that a walker does at a node, so no statement about whole
walks has to look into fields, patterns or scopes again.
-/

import EstreeScopes.Proofs.Address
import EstreeScopes.Walk.Walker

namespace EstreeScopes

/-! ### Runs that succeed -/

namespace Run

variable {α β : Type}

/-- A run of two parts succeeds when both do, with the steps of both. -/
theorem bind_eq_ok {first : Run α} {next : α → Run β} {log : List Step} {value : β} :
    first >>= next = ⟨log, .ok value⟩ ↔
      ∃ earlier middle later, first = ⟨earlier, .ok middle⟩ ∧ next middle = ⟨later, .ok value⟩ ∧
        log = earlier ++ later := by
  obtain ⟨firstLog, outcome⟩ := first
  rw [bind_def, andThen]
  cases outcome with
  | error fault => simp
  | ok middle =>
    simp only [mk.injEq, Except.ok.injEq]
    constructor
    · rintro ⟨rfl, outcome⟩
      exact ⟨firstLog, middle, (next middle).log, ⟨rfl, rfl⟩, by rw [← outcome], rfl⟩
    · rintro ⟨earlier, _, later, ⟨rfl, rfl⟩, second, rfl⟩
      rw [second]
      exact ⟨rfl, rfl⟩

theorem pure_eq_ok {value result : α} {log : List Step} :
    (pure value : Run α) = ⟨log, .ok result⟩ ↔ log = [] ∧ value = result := by
  rw [pure_def, done, mk.injEq, Except.ok.injEq, eq_comm (a := [])]

/-- A run that ends with a change of its value succeeds when it does without the change. -/
theorem bind_pure_eq_ok {run : Run α} {change : α → β} {log : List Step} {result : β} :
    (do return change (← run)) = (⟨log, .ok result⟩ : Run β) ↔
      ∃ value, run = ⟨log, .ok value⟩ ∧ change value = result := by
  obtain ⟨first, outcome⟩ := run
  cases outcome <;> simp [bind_def, andThen, pure_def, done]

theorem exists_eq_ok {run : Run α} (succeeds : run.outcome.isOk = true) :
    ∃ log value, run = ⟨log, .ok value⟩ := by
  obtain ⟨log, outcome⟩ := run
  cases outcome with
  | error fault => cases succeeds
  | ok value => exact ⟨log, value, rfl⟩

/-- What follows a run matters only for the values that the run can give. -/
theorem bind_congr_of_ok {run : Run α} {first second : α → Run β}
    (same : ∀ log value, run = ⟨log, .ok value⟩ → first value = second value) :
    run >>= first = run >>= second := by
  obtain ⟨log, outcome⟩ := run
  cases outcome with
  | error fault => rfl
  | ok value => simp only [bind_def, andThen, same log value rfl]

end Run

/-! ### Stops -/

/-- A stop of an agenda: a node below is visited, the body of a scope is entered, or a slot is
found malformed. -/
inductive Stop where
  | visit (address : Address) (env : Env) (node : Node)
  | enter (kind : Kind) (names : List String)
  | fault (fault : Fault)

namespace Stop

/-- A stop of a node as a stop of the node above it. -/
def below (place : Place) : Stop → Stop
  | .visit address env node => .visit (place :: address) env node
  | stop => stop

/-- The visits of a stop go through places of some sort. -/
def Through (reached : Place → Prop) : Stop → Prop
  | .visit [] _ _ => False
  | .visit (place :: _) _ _ => reached place
  | .enter _ _ | .fault _ => True

theorem Through.mono {first second : Place → Prop} (weaker : ∀ place, first place → second place)
    {stop : Stop} (through : stop.Through first) : stop.Through second := by
  match stop, through with
  | .visit (place :: _) _ _, reached => exact weaker place reached
  | .enter _ _, _ => trivial
  | .fault _, _ => trivial

theorem through_below (place : Place) (stop : Stop) : (stop.below place).Through (· = place) := by
  cases stop with
  | visit address env node => rfl
  | enter kind names => trivial
  | fault fault => trivial

end Stop

/-- Follows an agenda to its end or to its first malformed slot. A visit gives edits of the visited
node; all of them together are edits of the node that the agenda is about. -/
def follow (editor : Env → Node → Run Edits) : List Stop → Run Edits
  | [] => pure []
  | .visit address env node :: rest => do
    let edits ← editor env node
    let others ← follow editor rest
    return edits.below address ++ others
  | .enter kind names :: rest => do
    Run.record (.entered kind names)
    follow editor rest
  | .fault fault :: _ => .fail fault

section Follow

variable {editor : Env → Node → Run Edits}

theorem follow_append (first second : List Stop) :
    follow editor (first ++ second) = (do
      let edits ← follow editor first
      let others ← follow editor second
      return edits ++ others) := by
  induction first with
  | nil => simp [follow]
  | cons stop rest inductionHypothesis =>
    rw [List.cons_append]
    cases stop with
    | visit address env node =>
      simp only [follow, inductionHypothesis, bind_assoc, pure_bind, List.append_assoc]
    | enter kind names => simp only [follow, inductionHypothesis, bind_assoc]
    | fault fault => simp [follow, Run.bind_def, Run.fail_andThen]

theorem follow_map_below (place : Place) (stops : List Stop) :
    follow editor (stops.map (Stop.below place)) = (do
      let edits ← follow editor stops
      return edits.below [place]) := by
  induction stops with
  | nil => simp [follow, Edits.below]
  | cons stop rest inductionHypothesis =>
    rw [List.map_cons]
    cases stop with
    | visit address env node =>
      simp only [follow, Stop.below, inductionHypothesis, bind_assoc, pure_bind,
        Edits.below_append, Edits.below_cons_below place address]
    | enter kind names => simp only [follow, Stop.below, inductionHypothesis, bind_assoc]
    | fault fault => simp [follow, Stop.below, Run.bind_def, Run.fail_andThen]

/-- Edits come from the stops: those that are made go through places that the stops go through. -/
theorem follow_through {reached : Place → Prop} {stops : List Stop}
    (through : ∀ stop ∈ stops, stop.Through reached) {log : List Step} {edits : Edits}
    (followed : follow editor stops = ⟨log, .ok edits⟩) :
    edits.here? = none ∧ ∀ place, ¬ reached place → edits.under place = [] := by
  induction stops generalizing log edits with
  | nil =>
    obtain ⟨_, rfl⟩ := Run.pure_eq_ok.mp followed
    exact ⟨rfl, fun _ _ => rfl⟩
  | cons stop rest inductionHypothesis =>
    have restThrough : ∀ stop ∈ rest, stop.Through reached := fun other member =>
      through other (List.mem_cons_of_mem _ member)
    cases stop with
    | visit address env node =>
      have head := through (.visit address env node) List.mem_cons_self
      obtain ⟨_, made, _, _, followed, _⟩ := Run.bind_eq_ok.mp followed
      obtain ⟨_, others, _, restFollowed, followed, _⟩ := Run.bind_eq_ok.mp followed
      obtain ⟨_, rfl⟩ := Run.pure_eq_ok.mp followed
      obtain ⟨elsewhere, outside⟩ := inductionHypothesis restThrough restFollowed
      match address, head with
      | first :: deeper, head =>
        constructor
        · rw [Edits.here?_append, Edits.here?_below_cons, elsewhere]
          rfl
        · intro place unreached
          have different : first ≠ place := fun equal => unreached (equal ▸ head)
          rw [Edits.under_append, outside place unreached, Edits.below_cons_below,
            Edits.under_below_other different]
          rfl
    | enter kind names =>
      obtain ⟨_, _, _, _, restFollowed, _⟩ := Run.bind_eq_ok.mp followed
      exact inductionHypothesis restThrough restFollowed
    | fault fault => cases followed

end Follow

/-! ### The agenda of a field -/

/-- Whether a field holds what a slot asks for. -/
def Slot.accepts (slot : Slot) : Field Node → Bool
  | .absent | .node _ => slot.arity == .node
  | .list _ => slot.arity == .list
  | .value _ => false

/-- The visits of the nodes of a field. -/
def fieldStops (env : Env) (slot : String) (held : Field Node) : List Stop :=
  (held.places slot).map fun (place, child) => .visit [place] env child

/-- The visits of the nodes of a field, if it holds what a slot asks for. -/
def slotStops (env : Env) (kind : Kind) (slot : Slot) (held : Field Node) : List Stop :=
  if slot.accepts held then fieldStops env slot.name held else [.fault (.malformed kind slot)]

theorem fieldStops_through (env : Env) (slot : String) (held : Field Node) :
    ∀ stop ∈ fieldStops env slot held, stop.Through fun place => place.slot = slot := by
  intro stop member
  obtain ⟨⟨place, child⟩, placeMember, rfl⟩ := List.mem_map.mp member
  exact Field.slot_of_mem_places placeMember

theorem slotStops_through (env : Env) (kind : Kind) (slot : Slot) (held : Field Node) :
    ∀ stop ∈ slotStops env kind slot held, stop.Through fun place => place.slot = slot.name := by
  rw [slotStops]
  split
  · exact fieldStops_through env slot.name held
  · exact List.forall_mem_singleton.mpr trivial

/-! ### The agenda of a pattern -/

/-- The slot of a pattern that holds its parts. -/
def Kind.patternSlot? : Kind → Option Slot
  | .assignmentPattern => some (.node "left")
  | .restElement => some (.node "argument")
  | .property => some (.node "value")
  | .objectPattern => some (.list "properties")
  | .arrayPattern => some (.list "elements")
  | _ => none

/-- The slots that the rule of a kind lists. -/
def Kind.ruleSlots (kind : Kind) : List Slot :=
  match kind.rule with
  | some (.slots slots) => slots
  | _ => []

/-- No rule lists a slot twice. -/
theorem Kind.ruleSlots_nodup (kind : Kind) : (kind.ruleSlots.map Slot.name).Nodup := by
  cases kind <;> first | exact List.nodup_nil | decide

/-- The patterns with parts follow a rule of slots. -/
theorem Kind.rule_of_patternSlot? {kind : Kind} {slot : Slot}
    (pattern : kind.patternSlot? = some slot) : kind.rule = some (.slots kind.ruleSlots) := by
  unfold patternSlot? at pattern
  split at pattern
  all_goals first | rfl | cases pattern

namespace Node

/-- The names that a property declares by its key, because its value is no pattern. -/
def keyNames (pattern : Node) : List String :=
  if pattern.kind = .property ∧
      ¬ (pattern.child? "value").any fun value => value.kind.isPattern then
    pattern.boundNamesOf "key"
  else []

/-- The names that walking a pattern declares, in order. An intercepted pattern declares what it
binds; another one declares what its parts declare. -/
def registered (intercepts : Kind → Bool) (pattern : Node) : List String :=
  if intercepts pattern.kind then pattern.boundNames
  else
    match pattern.kind.patternSlot? with
    | some slot =>
      pattern.keyNames ++ (pattern.field slot.name).nodes.attach.flatMap
        fun ⟨part, _⟩ => registered intercepts part
    | none => if pattern.kind = .identifier then pattern.name?.toList else []
termination_by pattern.size
decreasing_by exact Nat.lt_trans (size_lt_of_mem_nodes (by assumption)) (fieldSize_lt_size _ _)

theorem registered_eq (intercepts : Kind → Bool) (pattern : Node) :
    pattern.registered intercepts =
      if intercepts pattern.kind then pattern.boundNames
      else
        match pattern.kind.patternSlot? with
        | some slot =>
          pattern.keyNames ++ (pattern.field slot.name).nodes.flatMap (registered intercepts)
        | none => if pattern.kind = .identifier then pattern.name?.toList else [] := by
  rw [registered]
  split
  · rfl
  · split <;> simp

end Node

mutual

/-- The agenda of a pattern. The slot with the parts is walked inside the scope, the other slots
outside. A pattern that is intercepted, and a part that is no pattern, are visited as a whole. -/
def patternStops (intercepts : Kind → Bool) (outer scope : Env) (pattern : Node) : List Stop :=
  if intercepts pattern.kind then [.visit [] (scope.declareAll pattern.boundNames) pattern]
  else
    match pattern.kind.patternSlot? with
    | some inner =>
      pattern.kind.ruleSlots.flatMap fun slot =>
        if slot = inner then
          patternFieldStops intercepts outer (scope.declareAll pattern.keyNames) pattern.kind slot
            (pattern.field slot.name)
        else slotStops outer pattern.kind slot (pattern.field slot.name)
    | none => if pattern.kind = .identifier then [] else [.visit [] scope pattern]
termination_by pattern.size
decreasing_by exact Node.fieldSize_lt_size pattern _

/-- The agenda of the patterns of a field that must hold what a slot asks for. -/
def patternFieldStops (intercepts : Kind → Bool) (outer scope : Env) (kind : Kind) (slot : Slot)
    (held : Field Node) : List Stop :=
  if slot.accepts held then
    match held with
    | .node child => (patternStops intercepts outer scope child).map (Stop.below ⟨slot.name, none⟩)
    | .list items => patternItemsStops intercepts outer scope slot.name 0 items
    | .absent | .value _ => []
  else [.fault (.malformed kind slot)]
termination_by Node.fieldSize held
decreasing_by all_goals simp only [Node.fieldSize]; omega

/-- The agenda of the patterns of a list, counted from `start`: each is walked in the scope that
those before it leave. -/
def patternItemsStops (intercepts : Kind → Bool) (outer scope : Env) (slot : String) (start : Nat)
    (items : List (Option Node)) : List Stop :=
  match items with
  | [] => []
  | none :: rest => patternItemsStops intercepts outer scope slot (start + 1) rest
  | some child :: rest =>
    (patternStops intercepts outer scope child).map (Stop.below ⟨slot, some start⟩) ++
      patternItemsStops intercepts outer (scope.declareAll (child.registered intercepts)) slot
        (start + 1) rest
termination_by Node.itemsSize items
decreasing_by all_goals simp only [Node.itemsSize]; omega

end

theorem patternItemsStops_through (intercepts : Kind → Bool) (outer scope : Env) (slot : String)
    (start : Nat) (items : List (Option Node)) :
    ∀ stop ∈ patternItemsStops intercepts outer scope slot start items,
      stop.Through fun place => ∃ index, start ≤ index ∧ place = ⟨slot, some index⟩ := by
  induction items generalizing scope start with
  | nil =>
    rw [patternItemsStops]
    exact fun _ member => absurd member List.not_mem_nil
  | cons item rest inductionHypothesis =>
    have later (scope : Env) :
        ∀ stop ∈ patternItemsStops intercepts outer scope slot (start + 1) rest,
          stop.Through fun place => ∃ index, start ≤ index ∧ place = ⟨slot, some index⟩ :=
      fun stop member => (inductionHypothesis scope (start + 1) stop member).mono
        fun _ ⟨index, bound, equal⟩ => ⟨index, Nat.le_of_succ_le bound, equal⟩
    cases item with
    | none =>
      rw [patternItemsStops]
      exact later scope
    | some child =>
      rw [patternItemsStops]
      refine List.forall_mem_append.mpr ⟨fun stop member => ?_, later _⟩
      obtain ⟨inner, _, rfl⟩ := List.mem_map.mp member
      exact (Stop.through_below _ inner).mono fun _ equal => ⟨start, Nat.le_refl start, equal⟩

theorem patternFieldStops_through (intercepts : Kind → Bool) (outer scope : Env) (kind : Kind)
    (slot : Slot) (held : Field Node) :
    ∀ stop ∈ patternFieldStops intercepts outer scope kind slot held,
      stop.Through fun place => place.slot = slot.name := by
  rw [patternFieldStops.eq_def]
  split
  · cases held with
    | node child =>
      intro stop member
      obtain ⟨inner, _, rfl⟩ := List.mem_map.mp member
      exact (Stop.through_below _ inner).mono fun _ equal => equal ▸ rfl
    | list items =>
      exact fun stop member =>
        (patternItemsStops_through intercepts outer scope slot.name 0 items stop member).mono
          fun _ ⟨_, _, equal⟩ => equal ▸ rfl
    | absent => exact fun _ member => absurd member List.not_mem_nil
    | value plain => exact fun _ member => absurd member List.not_mem_nil
  · exact List.forall_mem_singleton.mpr trivial

/-! ### The agenda of a node -/

/-- The agenda of the body of a scope, once its frame holds the names of the scope. -/
def bodyStops (scope : Env) (node : Node) (slot : Slot) : List Stop :=
  .enter node.kind scope.names :: slotStops scope node.kind slot (node.field slot.name)

/-- The names that the patterns in a field declare. -/
def Field.registered (intercepts : Kind → Bool) (held : Field Node) : List String :=
  held.nodes.flatMap (Node.registered intercepts)

/-- The agenda of a scope with patterns: the patterns first, and then the body, in the scope that
the patterns leave. -/
def scopeStops (intercepts : Kind → Bool) (outer scope : Env) (node : Node) (patterns body : Slot) :
    List Stop :=
  patternFieldStops intercepts outer scope node.kind patterns (node.field patterns.name) ++
    bodyStops (scope.declareAll ((node.field patterns.name).registered intercepts)) node body

/-- What a walk does at a node that is not intercepted. -/
def agenda (intercepts : Kind → Bool) (env : Env) (node : Node) : List Stop :=
  match node.kind.rule with
  | none => []
  | some (.slots slots) =>
    slots.flatMap fun slot => slotStops env node.kind slot (node.field slot.name)
  | some .children => node.slots.flatMap fun slot => fieldStops env slot (node.field slot)
  | some .program =>
    bodyStops (env.child.declareAll node.hoistedNames) node .programBody
  | some .function =>
    slotStops env node.kind .functionId (node.field "id") ++
      scopeStops intercepts env (env.child.declareAll (node.hoistedNamesOf "body")) node
        .functionParams .functionBody
  | some .catchClause =>
    scopeStops intercepts env (env.child.declareAll node.hoistedNames) node .catchParam .catchBody

/-- An agenda never comes back to the node itself. -/
theorem agenda_through (intercepts : Kind → Bool) (env : Env) (node : Node) :
    ∀ stop ∈ agenda intercepts env node, stop.Through fun _ => True := by
  have slot (env : Env) (slot : Slot) :
      ∀ stop ∈ slotStops env node.kind slot (node.field slot.name), stop.Through fun _ => True :=
    fun stop member => (slotStops_through env node.kind slot _ stop member).mono fun _ _ => trivial
  have body (scope : Env) (bodySlot : Slot) :
      ∀ stop ∈ bodyStops scope node bodySlot, stop.Through fun _ => True :=
    List.forall_mem_cons.mpr ⟨trivial, slot scope bodySlot⟩
  have scope (outer scope : Env) (patterns bodySlot : Slot) :
      ∀ stop ∈ scopeStops intercepts outer scope node patterns bodySlot,
        stop.Through fun _ => True :=
    List.forall_mem_append.mpr ⟨fun stop member =>
      (patternFieldStops_through intercepts outer scope _ patterns _ stop member).mono
        fun _ _ => trivial, body _ bodySlot⟩
  rw [agenda]
  split
  · exact fun _ member => absurd member List.not_mem_nil
  · exact List.forall_mem_flatMap.mpr fun listed _ => slot env listed
  · refine List.forall_mem_flatMap.mpr fun listed _ stop member => ?_
    exact (fieldStops_through env listed _ stop member).mono fun _ _ => trivial
  · exact body _ _
  · exact List.forall_mem_append.mpr ⟨slot env .functionId, scope _ _ _ _⟩
  · exact scope _ _ _ _

end EstreeScopes
