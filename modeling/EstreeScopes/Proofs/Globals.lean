/-
This file shows that globals and ignored names are a filter on the free
references (`freeReferences_filter_known`). Two searches of the same tree, one
with globals and one without, go in step: they visit the same nodes in the same
order, end in the same way, and at every step the names that are visible in the
one are those that are visible in the other, and the globals.

Nothing in a walk asks an environment for its names except to report them, so
this holds of any two walks that start with such environments, as long as the
transforms go in step too. It is proved for each part of a walker in turn.
-/

import EstreeScopes.Proofs.Resolution

namespace EstreeScopes

/-! ### Runs in step -/

/-- What is visible in the second environment is what is visible in the first, and more names. -/
def Env.Adds (more : List String) (env other : Env) : Prop :=
  ∀ name, other.contains name = true ↔ env.contains name = true ∨ name ∈ more

/-- The same for environments that stand beside a value, which is the same in both. -/
def Env.AddsBeside (more : List String) {α : Type} (first second : Env × α) : Prop :=
  first.1.Adds more second.1 ∧ first.2 = second.2

/-- Two steps are the same but for the environments, of which the second shows more names. -/
inductive Step.InStep (more : List String) : Step → Step → Prop
  | intercepted {env other : Env} (adds : env.Adds more other) (node : Node) :
      InStep more (.intercepted env node) (.intercepted other node)
  | entered (kind : Kind) (names others : List String) :
      InStep more (.entered kind names) (.entered kind others)

/-- Two runs take steps that correspond, and end with the same fault or with values that
correspond. -/
inductive Run.InStep (more : List String) {α : Type} (alike : α → α → Prop) : Run α → Run α → Prop
  | ok {log later : List Step} {value other : α} (steps : List.Forall₂ (Step.InStep more) log later)
      (values : alike value other) : InStep more alike ⟨log, .ok value⟩ ⟨later, .ok other⟩
  | error {log later : List Step} (steps : List.Forall₂ (Step.InStep more) log later)
      (fault : Fault) : InStep more alike ⟨log, .error fault⟩ ⟨later, .error fault⟩

section

variable {more : List String} {env other outer outerOther scope scopeOther : Env}

namespace Env.Adds

theorem child (adds : env.Adds more other) : env.child.Adds more other.child := adds

theorem declareAll (adds : env.Adds more other) (names : List String) :
    (env.declareAll names).Adds more (other.declareAll names) := by
  intro name
  rw [contains_declareAll, contains_declareAll, adds name, or_right_comm]

end Env.Adds

namespace Run.InStep

variable {α β : Type} {alike : α → α → Prop} {results : β → β → Prop}

theorem pure {value second : α} (values : alike value second) :
    Run.InStep more alike (Pure.pure value) (Pure.pure second) :=
  .ok .nil values

theorem bind {first second : Run α} {next after : α → Run β}
    (runs : Run.InStep more alike first second)
    (each : ∀ {value other}, alike value other →
      Run.InStep more results (next value) (after other)) :
    Run.InStep more results (first >>= next) (second >>= after) := by
  cases runs with
  | error steps fault => exact .error steps fault
  | @ok _ _ value other steps values =>
    have rest := each values
    simp only [Run.bind_def, Run.andThen]
    generalize next value = nextRun at rest ⊢
    generalize after other = afterRun at rest ⊢
    cases rest with
    | error restSteps fault => exact .error (List.rel_append steps restSteps) fault
    | ok restSteps restValues => exact .ok (List.rel_append steps restSteps) restValues

/-- Runs in step that give the same value, and then go on with it. -/
theorem bind_eq {first second : Run α} {next after : α → Run β}
    (runs : Run.InStep more Eq first second)
    (each : ∀ value, Run.InStep more results (next value) (after value)) :
    Run.InStep more results (first >>= next) (second >>= after) :=
  runs.bind fun equal => equal ▸ each _

/-- Runs in step that give environments beside values, and then change the value. -/
theorem map_beside {first second : Run (Env × α)}
    (runs : Run.InStep more (Env.AddsBeside more) first second)    (change : α → β) :
    Run.InStep more (Env.AddsBeside more)
      (first >>= fun result => Pure.pure (result.1, change result.2))
      (second >>= fun result => Pure.pure (result.1, change result.2)) :=
  runs.bind fun ⟨adds, equal⟩ => .pure ⟨adds, congrArg change equal⟩

end Run.InStep

/-! ### Walkers in step -/

/-- Two walkers intercept the same kinds, and their visits go in step. -/
structure Walker.InStep (more : List String) (first second : Walker) : Prop where
  intercepts : first.intercepts = second.intercepts
  visit : ∀ {env other : Env}, env.Adds more other → ∀ node,
    Run.InStep more Eq (first.visit env node) (second.visit other node)

namespace Walker.InStep

variable {first second : Walker} (walkers : Walker.InStep more first second)
include walkers

theorem visitItems (adds : env.Adds more other) (items : List (Option Node)) :
    Run.InStep more Eq (first.visitItems env items) (second.visitItems other items) := by
  induction items with
  | nil => exact .pure rfl
  | cons item rest inductionHypothesis =>
    cases item with
    | none => exact inductionHypothesis.bind_eq fun _ => .pure rfl
    | some child =>
      exact (walkers.visit adds child).bind_eq fun _ =>
        inductionHypothesis.bind_eq fun _ => .pure rfl

theorem visitField (adds : env.Adds more other) (held : Field Node) :
    Run.InStep more Eq (first.visitField env held) (second.visitField other held) := by
  cases held with
  | absent => exact .pure rfl
  | value plain => exact .pure rfl
  | node child => exact (walkers.visit adds child).bind_eq fun _ => .pure rfl
  | list items => exact (walkers.visitItems adds items).bind_eq fun _ => .pure rfl

theorem visitSlotField (adds : env.Adds more other) (kind : Kind) (slot : Slot)
    (held : Field Node) :
    Run.InStep more Eq (first.visitSlotField env kind slot held)
      (second.visitSlotField other kind slot held) := by
  have visited := walkers.visitField adds held
  obtain ⟨name, arity⟩ := slot
  cases arity <;> cases held <;> first | exact visited | exact .error .nil _

theorem walkSlot (adds : env.Adds more other) (node : Node) (slot : String) :
    Run.InStep more Eq (first.walkSlot env node slot) (second.walkSlot other node slot) :=
  (walkers.visitField adds _).bind_eq fun _ => .pure rfl

theorem walkRuleSlot (adds : env.Adds more other) (node : Node) (slot : Slot) :
    Run.InStep more Eq (first.walkRuleSlot env node slot) (second.walkRuleSlot other node slot) :=
  (walkers.visitSlotField adds _ slot _).bind_eq fun _ => .pure rfl

theorem walkSlots (adds : env.Adds more other) (slots : List String) (node : Node) :
    Run.InStep more Eq (first.walkSlots env slots node) (second.walkSlots other slots node) := by
  induction slots generalizing node with
  | nil => exact .pure rfl
  | cons slot rest inductionHypothesis =>
    exact (walkers.walkSlot adds node slot).bind_eq inductionHypothesis

theorem walkRuleSlots (adds : env.Adds more other) (slots : List Slot) (node : Node) :
    Run.InStep more Eq (first.walkRuleSlots env slots node)
      (second.walkRuleSlots other slots node) := by
  induction slots generalizing node with
  | nil => exact .pure rfl
  | cons slot rest inductionHypothesis =>
    exact (walkers.walkRuleSlot adds node slot).bind_eq inductionHypothesis

/-! ### Patterns -/

/-- Walking a pattern goes in step: it gives frames of which the second shows more names, and the
same part. -/
def PatternInStep (more : List String) (first second : Walker) (pattern : Node) : Prop :=
  ∀ {outer outerOther scope scopeOther : Env}, outer.Adds more outerOther →
    scope.Adds more scopeOther →
    Run.InStep more (Env.AddsBeside more) (first.walkPattern outer scope pattern)
      (second.walkPattern outerOther scopeOther pattern)

omit walkers in
theorem walkPatternItems (outerAdds : outer.Adds more outerOther)
    (adds : scope.Adds more scopeOther) {items : List (Option Node)}
    (each : ∀ child, some child ∈ items → PatternInStep more first second child) :
    Run.InStep more (Env.AddsBeside more) (first.walkPatternItems outer scope items)
      (second.walkPatternItems outerOther scopeOther items) := by
  induction items generalizing scope scopeOther with
  | nil =>
    rw [Walker.walkPatternItems, Walker.walkPatternItems]
    exact .pure ⟨adds, rfl⟩
  | cons item rest inductionHypothesis =>
    have restEach : ∀ child, some child ∈ rest → PatternInStep more first second child :=
      fun child member => each child (List.mem_cons_of_mem _ member)
    cases item with
    | none =>
      rw [Walker.walkPatternItems, Walker.walkPatternItems]
      exact (inductionHypothesis adds restEach).map_beside (none :: ·)
    | some child =>
      rw [Walker.walkPatternItems, Walker.walkPatternItems]
      refine (each child List.mem_cons_self outerAdds adds).bind fun beside => ?_
      refine (inductionHypothesis beside.1 restEach).bind fun besideRest => ?_
      refine .pure ⟨besideRest.1, ?_⟩
      rw [beside.2, besideRest.2]

omit walkers in
theorem walkPatternField (outerAdds : outer.Adds more outerOther)
    (adds : scope.Adds more scopeOther) (kind : Kind) (slot : Slot) {held : Field Node}
    (each : ∀ child ∈ held.nodes, PatternInStep more first second child) :
    Run.InStep more (Env.AddsBeside more) (first.walkPatternField outer scope kind slot held)
      (second.walkPatternField outerOther scopeOther kind slot held) := by
  obtain ⟨name, arity⟩ := slot
  rw [Walker.walkPatternField.eq_def, Walker.walkPatternField.eq_def]
  cases arity with
  | node =>
    cases held with
    | absent => exact .pure ⟨adds, rfl⟩
    | node child =>
      exact (each child List.mem_cons_self outerAdds adds).map_beside Field.ofOption
    | list items => exact .error .nil _
    | value plain => exact .error .nil _
  | list =>
    cases held with
    | list items =>
      exact (walkPatternItems outerAdds adds fun child member =>
        each child (List.mem_filterMap.mpr ⟨_, member, rfl⟩)).map_beside Field.list
    | absent => exact .error .nil _
    | node child => exact .error .nil _
    | value plain => exact .error .nil _

theorem walkPattern (pattern : Node) : PatternInStep more first second pattern := by
  induction size : pattern.size using Nat.strongRecOn generalizing pattern with
  | _ bound inductionHypothesis =>
  subst size
  have each (slot : String) (child : Node) (member : child ∈ (pattern.field slot).nodes) :
      PatternInStep more first second child :=
    inductionHypothesis child.size
      (Nat.lt_trans (Node.size_lt_of_mem_nodes member) (Node.fieldSize_lt_size _ _)) child rfl
  intro outer outerOther scope scopeOther outerAdds adds
  rw [Walker.walkPattern, Walker.walkPattern, walkers.intercepts]
  split
  · exact (walkers.visit (adds.declareAll _) pattern).bind_eq fun _ =>
      .pure ⟨adds.declareAll _, rfl⟩
  split
  · exact .pure ⟨adds.declareAll _, rfl⟩
  · refine (walkPatternField outerAdds adds _ _ (each "left")).bind fun ⟨inner, equal⟩ => ?_
    refine (walkers.visitSlotField outerAdds _ _ _).bind_eq fun _ => .pure ⟨inner, ?_⟩
    rw [equal]
  · exact (walkPatternField outerAdds adds _ _ (each "argument")).map_beside fun argument =>
      some (pattern.set "argument" argument)
  · have declared : Env.Adds more
        (if (pattern.child? "value").any fun value => value.kind.isPattern then scope
          else scope.declareAll (pattern.boundNamesOf "key"))
        (if (pattern.child? "value").any fun value => value.kind.isPattern then scopeOther
          else scopeOther.declareAll (pattern.boundNamesOf "key")) := by
      split
      · exact adds
      · exact adds.declareAll _
    refine (walkers.visitSlotField outerAdds _ _ _).bind_eq fun key => ?_
    exact (walkPatternField outerAdds declared _ _ (each "value")).map_beside fun value =>
      some ((pattern.set "key" key).set "value" value)
  · exact (walkPatternField outerAdds adds _ _ (each "properties")).map_beside fun properties =>
      some (pattern.set "properties" properties)
  · exact (walkPatternField outerAdds adds _ _ (each "elements")).map_beside fun elements =>
      some (pattern.set "elements" elements)
  · exact (walkers.visit adds pattern).bind_eq fun _ => .pure ⟨adds, rfl⟩

theorem walkPatternSlot (outerAdds : outer.Adds more outerOther)
    (adds : scope.Adds more scopeOther) (node : Node) (slot : Slot) :
    Run.InStep more (Env.AddsBeside more) (first.walkPatternSlot outer scope node slot)
      (second.walkPatternSlot outerOther scopeOther node slot) :=
  (walkPatternField outerAdds adds node.kind slot fun child _ =>
    walkers.walkPattern child).map_beside (node.set slot.name)

/-! ### Scopes -/

theorem walkBody (adds : scope.Adds more scopeOther) (node : Node) (slot : Slot) :
    Run.InStep more Eq (first.walkBody scope node slot) (second.walkBody scopeOther node slot) :=
  Run.InStep.bind_eq (.ok (.cons (.entered _ _ _) .nil) rfl) fun _ =>
    walkers.walkRuleSlot adds node slot

/-- Walkers that go in step at the nodes below go in step at a node. -/
theorem descend (adds : env.Adds more other) (node : Node) :
    Run.InStep more Eq (first.descend env node) (second.descend other node) := by
  rw [Walker.descend, Walker.descend]
  split
  · exact .pure rfl
  · exact walkers.walkRuleSlots adds _ node
  · exact walkers.walkSlots adds _ node
  · exact walkers.walkBody (adds.child.declareAll _) node _
  · refine (walkers.walkRuleSlot adds node _).bind_eq fun named => ?_
    refine (walkers.walkPatternSlot adds (adds.child.declareAll _) named _).bind ?_
    rintro ⟨inner, walked⟩ ⟨innerOther, _⟩ ⟨inScope, rfl⟩
    exact walkers.walkBody inScope walked _
  · refine (walkers.walkPatternSlot adds (adds.child.declareAll _) node _).bind ?_
    rintro ⟨inner, walked⟩ ⟨innerOther, _⟩ ⟨inScope, rfl⟩
    exact walkers.walkBody inScope walked _

end Walker.InStep

/-! ### The search -/

/-- A transform goes in step if the walkers that it is given do. -/
def Transform.InStep (more : List String) (transform : Transform) : Prop :=
  ∀ {first second : Walker}, first.InStep more second →
    ∀ {env other : Env}, env.Adds more other → ∀ node,
      Run.InStep more Eq (transform first env node) (transform second other node)

theorem Reference.transform?_inStep {kind : Kind} {transform : Transform}
    (found : Reference.transform? kind = some transform) : transform.InStep more := by
  intro first second walkers env other adds node
  unfold Reference.transform? at found
  split at found
  all_goals cases found
  case h_1 | h_2 | h_3 | h_4 | h_5 => exact .pure rfl
  case h_6 =>
    refine (walkers.walkSlot adds node "object").bind_eq fun walked => ?_
    split
    · exact (walkers.walkSlot adds walked "property").bind_eq fun _ => .pure rfl
    · exact .pure rfl
  case h_7 | h_8 | h_9 | h_10 =>
    have value (keyed : Node) : Run.InStep more Eq
        (do return some (← first.walkSlot env keyed "value"))
        (do return some (← second.walkSlot other keyed "value")) :=
      (walkers.walkSlot adds keyed "value").bind_eq fun _ => .pure rfl
    rw [Reference.keyed, Reference.keyed]
    split
    · exact (walkers.walkSlot adds node "key").bind_eq value
    · exact value node
  case h_11 | h_12 => exact (walkers.walkSlot adds node _).bind_eq fun _ => .pure rfl
  case h_13 =>
    rw [Reference.exported, Reference.exported]
    split
    · exact (walkers.walkSlot adds node "declaration").bind_eq fun _ => .pure rfl
    · exact (walkers.descend adds node).bind_eq fun _ => .pure rfl
  case h_14 | h_15 | h_16 =>
    exact (walkers.descend (adds.child.declareAll _) node).bind_eq fun _ => .pure rfl

/-- Two searches with environments of which the second shows more names go in step. -/
theorem Reference.walker_inStep (more : List String) (budget : Nat) :
    (Reference.table.walker budget).InStep more (Reference.table.walker budget) := by
  induction budget with
  | zero => exact ⟨rfl, fun _ _ => .error .nil _⟩
  | succ budget inductionHypothesis =>
    refine ⟨rfl, fun {env other} adds node => ?_⟩
    show Run.InStep more Eq (Reference.table.visit (budget + 1) env node)
      (Reference.table.visit (budget + 1) other node)
    rw [Table.visit_succ, Table.visit_succ, Reference.table_find?]
    cases found : Reference.transform? node.kind with
    | none => exact (inductionHypothesis.descend adds node).bind_eq fun _ => .pure rfl
    | some transform =>
      refine Run.InStep.bind_eq (.ok (.cons (.intercepted adds node) .nil) rfl) fun _ => ?_
      exact Reference.transform?_inStep found inductionHypothesis adds node

end

/-! ### The references that are left -/

namespace Reference

/-- Whether a reference is to a name that is neither a global nor ignored. -/
def Options.leaves (options : Options) (reference : Reference) : Bool :=
  reference.name ∉ options.globals ∧ reference.name ∉ options.ignored

/-- A step shows the reference that its counterpart without globals and ignored names shows, if the
options leave it. -/
theorem ofStep?_of_inStep {options : Options} {step other : Step}
    (inStep : Step.InStep options.globals step other) :
    ofStep? options other = (ofStep? ⟨[], []⟩ step).filter options.leaves := by
  cases inStep with
  | entered kind names others => rfl
  | @intercepted env other adds node =>
    rw [ofStep?, ofStep?]
    split
    · cases node.name? with
      | none => rfl
      | some name =>
        have visible := adds name
        by_cases shown : env.contains name = true
        · simp [shown, visible.mpr (Or.inl shown)]
        · have same : other.contains name = options.globals.contains name := by
            rw [Bool.eq_iff_iff, visible, List.contains_iff_mem]
            simp [shown]
          by_cases isGlobal : name ∈ options.globals
          · simp [shown, same, isGlobal, Options.leaves, Option.filter]
          · by_cases isIgnored : name ∈ options.ignored <;>
              simp [shown, same, isGlobal, isIgnored, Options.leaves, Option.filter]
    · rfl

theorem filterMap_ofStep? {options : Options} {log later : List Step}
    (steps : List.Forall₂ (Step.InStep options.globals) log later) :
    later.filterMap (ofStep? options) =
      (log.filterMap (ofStep? ⟨[], []⟩)).filter options.leaves := by
  rw [List.filter_filterMap]
  induction steps with
  | nil => rfl
  | cons step _ inductionHypothesis =>
    rw [List.filterMap_cons, List.filterMap_cons, ofStep?_of_inStep step, inductionHypothesis]

end Reference

theorem Env.adds_ofNames (names : List String) : (Env.ofNames []).Adds names (.ofNames names) := by
  intro name
  rw [Env.Shows.ofNames names name, Env.Shows.ofNames [] name]
  simp

/-- The free references under options are those without globals and ignored names that the options
leave, and a search under options fails if and only if the search without does, with the same
fault. -/
theorem Node.freeReferences_eq_filter (options : Reference.Options) (tree : Node) :
    tree.freeReferences options =
      (tree.freeReferences ⟨[], []⟩).map (List.filter options.leaves) := by
  have searches : Run.InStep options.globals Eq (Reference.search ⟨[], []⟩ tree)
      (Reference.search options tree) :=
    (Reference.walker_inStep options.globals (tree.size + 1)).visit
      (Env.adds_ofNames options.globals) tree
  unfold freeReferences
  generalize Reference.search ⟨[], []⟩ tree = plain at searches ⊢
  generalize Reference.search options tree = known at searches ⊢
  cases searches with
  | error steps fault => rfl
  | ok steps values => exact congrArg Except.ok (Reference.filterMap_ofStep? steps)

/-- Globals and ignored names are a filter on the free references. The search finds what it finds
without them, in the same order, except for the references of a name among them, and it fails with
the same fault or not at all. So it makes no difference whether a name is a global or ignored, and
adding a name takes away the references of that name and no others. -/
theorem freeReferences_filter_known (tree : Node) (globals ignored : List String) :
    tree.freeReferences ⟨globals, ignored⟩ =
        (tree.freeReferences ⟨[], []⟩).map (List.filter fun reference =>
          reference.name ∉ globals ∧ reference.name ∉ ignored) ∧
      ∀ name,
        tree.freeReferences ⟨name :: globals, ignored⟩ =
            tree.freeReferences ⟨globals, name :: ignored⟩ ∧
          tree.freeReferences ⟨name :: globals, ignored⟩ =
            (tree.freeReferences ⟨globals, ignored⟩).map (List.filter fun reference =>
              reference.name ≠ name) := by
  refine ⟨tree.freeReferences_eq_filter ⟨globals, ignored⟩, fun name => ⟨?_, ?_⟩⟩
  · rw [Node.freeReferences_eq_filter ⟨name :: globals, ignored⟩,
      Node.freeReferences_eq_filter ⟨globals, name :: ignored⟩]
    congr 2
    funext reference
    simp only [Reference.Options.leaves, List.mem_cons, not_or, and_assoc, decide_eq_decide]
    exact and_left_comm
  · rw [Node.freeReferences_eq_filter ⟨name :: globals, ignored⟩,
      Node.freeReferences_eq_filter ⟨globals, ignored⟩]
    cases tree.freeReferences ⟨[], []⟩ with
    | error fault => rfl
    | ok references =>
      refine congrArg Except.ok ?_
      rw [List.filter_filter]
      congr 1
      funext reference
      simp only [Reference.Options.leaves, List.mem_cons, not_or, and_assoc, Bool.decide_and]

/-- A call that refers to one name twice and to another once. -/
def callOfTwo : Node :=
  { kind := .callExpression,
    fields :=
      [ ("callee", .node (.identifier "x")),
        ("arguments", .list [some (.identifier "y"), some (.identifier "x")]) ] }

theorem callOfTwo_filtered :
    callOfTwo.freeReferences ⟨[], []⟩ = .ok [⟨"x", none⟩, ⟨"y", none⟩, ⟨"x", none⟩] ∧
      callOfTwo.freeReferences ⟨["x"], []⟩ = .ok [⟨"y", none⟩] ∧
      callOfTwo.freeReferences ⟨[], ["x"]⟩ = .ok [⟨"y", none⟩] ∧
      callOfTwo.freeReferences ⟨["y", "x"], []⟩ = .ok [] := by
  have all : callOfTwo.freeReferences ⟨[], []⟩ = .ok [⟨"x", none⟩, ⟨"y", none⟩, ⟨"x", none⟩] := by
    decide
  have left : callOfTwo.freeReferences ⟨["x"], []⟩ = .ok [⟨"y", none⟩] := by
    rw [(freeReferences_filter_known callOfTwo ["x"] []).1, all]
    decide
  have alike := ((freeReferences_filter_known callOfTwo [] []).2 "x").1
  refine ⟨all, left, alike.symm.trans left, ?_⟩
  rw [((freeReferences_filter_known callOfTwo ["x"] []).2 "y").2, left]
  decide

end EstreeScopes
