/-
This file shows that a transform that only goes on below its node is invisible
(`descending_transform_is_invisible`). A table that is extended by such a
transform, for a kind that no pattern is made of, walks every tree as before. The
same tree or the same fault comes out, and the other transforms are handed the
same nodes, in the same order and under the same environments.

The two walks differ in one kind of step: the hand-overs to the new transform. A
run from which these are left out is a run again, and leaving them out goes
through every combination of runs. So it is enough that the agendas of a node are
the same under both tables, and they are: an agenda depends on the intercepted
kinds at the parts of patterns only, where the new kind does not stand.
-/

import EstreeScopes.Proofs.Frames

namespace EstreeScopes

/-! ### Agendas under two tables -/

section

variable {first second : Kind → Bool}

/-- Two sets of kinds agree about all that a pattern is made of. -/
def AgreeOnPatterns (first second : Kind → Bool) : Prop :=
  ∀ kind : Kind, kind.isPattern = true ∨ kind = .property → first kind = second kind

theorem registered_congr (agree : AgreeOnPatterns first second) {pattern : Node}
    (made : pattern.MadeOfPatterns) : pattern.registered first = pattern.registered second := by
  induction made with
  | @intro pattern kind _ inductionHypothesis =>
    rw [Node.registered_eq, Node.registered_eq, agree _ kind]
    split
    · rfl
    cases patternSlot : pattern.kind.patternSlot? with
    | none => rfl
    | some slot =>
      exact congrArg (_ ++ ·) (List.flatMap_congr (inductionHypothesis slot patternSlot))

/-- The agenda of a pattern is the same, whatever the scope. -/
def SamePatternStops (first second : Kind → Bool) (pattern : Node) : Prop :=
  ∀ outer scope : Env, patternStops first outer scope pattern =
    patternStops second outer scope pattern

theorem patternItemsStops_congr (agree : AgreeOnPatterns first second) (outer scope : Env)
    (slot : String) (start : Nat) {items : List (Option Node)}
    (each : ∀ child, some child ∈ items →
      child.MadeOfPatterns ∧ SamePatternStops first second child) :
    patternItemsStops first outer scope slot start items =
      patternItemsStops second outer scope slot start items := by
  induction items generalizing scope start with
  | nil => rw [patternItemsStops, patternItemsStops]
  | cons item rest inductionHypothesis =>
    have restEq (scope : Env) := inductionHypothesis scope (start + 1) fun child member =>
      each child (List.mem_cons_of_mem _ member)
    cases item with
    | none => rw [patternItemsStops, patternItemsStops, restEq]
    | some child =>
      obtain ⟨made, same⟩ := each child List.mem_cons_self
      rw [patternItemsStops, patternItemsStops, same, registered_congr agree made, restEq]

theorem patternFieldStops_congr (agree : AgreeOnPatterns first second) (outer scope : Env)
    (kind : Kind) (slot : Slot) {held : Field Node}
    (each : ∀ child ∈ held.nodes, child.MadeOfPatterns ∧ SamePatternStops first second child) :
    patternFieldStops first outer scope kind slot held =
      patternFieldStops second outer scope kind slot held := by
  rw [patternFieldStops.eq_def, patternFieldStops.eq_def]
  cases held with
  | absent => rfl
  | value plain => rfl
  | node child => simp only [(each child List.mem_cons_self).2 outer scope]
  | list items =>
    simp only [patternItemsStops_congr agree outer scope slot.name 0 fun child member =>
      each child (List.mem_filterMap.mpr ⟨_, member, rfl⟩)]

theorem patternStops_congr (agree : AgreeOnPatterns first second) {pattern : Node}
    (made : pattern.MadeOfPatterns) : SamePatternStops first second pattern := by
  induction made with
  | @intro pattern kind parts inductionHypothesis =>
    intro outer scope
    rw [patternStops, patternStops, agree _ kind]
    split
    · rfl
    cases patternSlot : pattern.kind.patternSlot? with
    | none => rfl
    | some inner =>
      refine List.flatMap_congr fun slot _ => ?_
      by_cases same : slot = inner
      · subst same
        rw [if_pos rfl, if_pos rfl]
        exact patternFieldStops_congr agree outer _ _ _ fun child member =>
          ⟨parts slot patternSlot child member,
            inductionHypothesis slot patternSlot child member⟩
      · rw [if_neg same, if_neg same]

/-- Kinds that no pattern is made of do not matter to the agenda of a node, if the patterns of its
scope are made of patterns. -/
theorem agenda_congr (agree : AgreeOnPatterns first second) (env : Env) {node : Node}
    (made : ∀ pattern ∈ node.scopePatterns, pattern.MadeOfPatterns) :
    agenda first env node = agenda second env node := by
  have scope (patterns body : Slot) (inner : Env)
      (inSlot : (node.field patterns.name).nodes = node.scopePatterns) :
      scopeStops first env inner node patterns body =
        scopeStops second env inner node patterns body := by
    rw [scopeStops, scopeStops,
      patternFieldStops_congr agree env inner node.kind patterns fun pattern member =>
        ⟨made pattern (inSlot ▸ member), patternStops_congr agree (made pattern (inSlot ▸ member))⟩]
    have names : (node.field patterns.name).registered first =
        (node.field patterns.name).registered second := by
      rw [Field.registered, Field.registered, inSlot]
      exact List.flatMap_congr fun pattern member => registered_congr agree (made pattern member)
    rw [names]
  rw [agenda, agenda]
  cases rule : node.kind.rule with
  | none => rfl
  | some rule' =>
    cases rule' with
    | slots slots => rfl
    | children => rfl
    | program => rfl
    | function =>
      refine congrArg (_ ++ ·) (scope .functionParams .functionBody _ ?_)
      rw [Node.scopePatterns, rule]
      rfl
    | catchClause =>
      refine scope .catchParam .catchBody _ ?_
      rw [Node.scopePatterns, rule]
      rfl

end

/-! ### Runs without the hand-overs of a kind -/

/-- Whether a step hands over a node of some kind. -/
def Step.handsOver (kind : Kind) : Step → Bool
  | .intercepted _ node => node.kind == kind
  | .entered _ _ => false

namespace Run

variable {α β : Type}

/-- A run without the steps that hand over nodes of some kind. -/
def without (kind : Kind) (run : Run α) : Run α :=
  { run with log := run.log.filter fun step => !step.handsOver kind }

theorem without_bind (kind : Kind) (first : Run α) (next : α → Run β) :
    (first >>= next).without kind =
      first.without kind >>= fun value => (next value).without kind := by
  obtain ⟨log, outcome⟩ := first
  cases outcome with
  | error fault => rfl
  | ok value => simp only [without, bind_def, andThen, List.filter_append]

theorem without_bind_pure (kind : Kind) (run : Run α) (change : α → β) :
    (do return change (← run)).without kind = (do return change (← run.without kind)) :=
  without_bind kind run _

theorem handOvers_without (kind : Kind) (run : Run α) :
    handOvers (run.without kind).log =
      (handOvers run.log).filter fun handOver => handOver.2.kind ≠ kind := by
  rw [handOvers, handOvers, without, List.filterMap_filter, List.filter_filterMap]
  refine List.filterMap_congr fun step _ => ?_
  cases step with
  | intercepted env node =>
    by_cases same : node.kind = kind <;>
      simp [Step.handsOver, Step.handOver?, same, Option.filter]
  | entered kind names => rfl

end Run

/-- Leaving out steps of the visits leaves them out of an agenda that is followed. -/
theorem follow_without (kind : Kind) {editor other : Env → Node → Run Edits} {stops : List Stop}
    (each : ∀ address env node, .visit address env node ∈ stops →
      (editor env node).without kind = other env node) :
    (follow editor stops).without kind = follow other stops := by
  induction stops with
  | nil => rfl
  | cons stop rest inductionHypothesis =>
    have restEq := inductionHypothesis fun address env node member =>
      each address env node (List.mem_cons_of_mem _ member)
    cases stop with
    | visit address env node =>
      rw [follow, follow, Run.without_bind, each address env node List.mem_cons_self]
      refine bind_congr fun made => ?_
      rw [Run.without_bind_pure, restEq]
    | enter entered names =>
      rw [follow, follow, Run.without_bind, restEq]
      rfl
    | fault fault => rfl

/-! ### The extended table -/

/-- The transform that only goes on below its node. -/
def Transform.descending : Transform := fun walker env node => do
  return some (← walker.descend env node)

namespace Table

theorem find?_insert {table : Table} {kind : Kind} (missing : table.contains kind = false)
    (transform : Transform) (other : Kind) :
    (table.insert kind transform).find? other =
      if other = kind then some transform else table.find? other := by
  rw [insert, missing, if_neg Bool.false_ne_true, find?, List.find?_append]
  split
  · rename_i same
    have absent : table.find? kind = none := by
      rwa [contains_eq_isSome, Option.isSome_eq_false_iff, Option.isNone_iff_eq_none] at missing
    rw [find?, Option.map_eq_none_iff] at absent
    subst same
    simp [absent]
  · rename_i different
    simp [find?, Ne.symm different]

/-- A table with one more kind agrees with the table about every other kind. -/
theorem contains_insert {table : Table} {kind : Kind} (missing : table.contains kind = false)
    (transform : Transform) {other : Kind} (different : other ≠ kind) :
    (table.insert kind transform).contains other = table.contains other := by
  rw [contains_eq_isSome, contains_eq_isSome, find?_insert missing, if_neg different]

variable {table : Table} {kind : Kind}

/-- Going on below a node takes the same steps under both tables, if the visits do. -/
theorem descend_without (missing : table.contains kind = false)
    (noPattern : kind.isPattern = false) (noProperty : kind ≠ .property) {budget : Nat}
    (visits : ∀ env (node : Node), node.WellFormed → node.TakesPatterns →
      ((table.insert kind .descending).visit budget env node).without kind =
        table.visit budget env node)
    (env : Env) {node : Node} (wellFormed : node.WellFormed) (patterns : node.TakesPatterns) :
    (((table.insert kind .descending).walker budget).descend env node).without kind =
      (table.walker budget).descend env node := by
  have agree : AgreeOnPatterns (table.insert kind .descending).contains table.contains := by
    intro other inPattern
    refine contains_insert missing _ fun same => ?_
    rcases same ▸ inPattern with isPattern | isProperty
    · rw [noPattern] at isPattern
      cases isPattern
    · exact noProperty isProperty
  have agendas : agenda ((table.insert kind .descending).walker budget).intercepts env node =
      agenda (table.walker budget).intercepts env node :=
    agenda_congr agree env patterns.here
  rw [Walker.descend_eq_follow (Walker.editsBy_visitEdits _) env wellFormed,
    Walker.descend_eq_follow (Walker.editsBy_visitEdits _) env wellFormed, agendas,
    Run.without_bind_pure]
  refine congrArg (· >>= _) (follow_without kind fun address inner child member => ?_)
  have found := at?_of_mem_agenda member
  have visited := visits inner child (wellFormed.at? found) (patterns.at? found)
  rw [Walker.visitEdits, Run.without_bind_pure]
  exact congrArg (· >>= _) visited

/-- Every visit takes the same steps under both tables, but for the hand-overs to the transform that
only goes on. -/
theorem visit_without (still : table.Still) (missing : table.contains kind = false)
    (noPattern : kind.isPattern = false) (noProperty : kind ≠ .property) (budget : Nat) :
    ∀ env (node : Node), node.WellFormed → node.TakesPatterns →
      ((table.insert kind .descending).visit budget env node).without kind =
        table.visit budget env node := by
  induction budget with
  | zero => exact fun _ _ _ _ => rfl
  | succ budget inductionHypothesis =>
    intro env node wellFormed patterns
    have below := descend_without missing noPattern noProperty inductionHypothesis env wellFormed
      patterns
    rw [visit_succ, visit_succ, find?_insert missing]
    by_cases same : node.kind = kind
    · -- The node is handed to the new transform, and walked by its rule under the old table.
      have absent : table.find? node.kind = none := by
        rwa [same, ← Option.isNone_iff_eq_none, ← Option.isSome_eq_false_iff,
          ← contains_eq_isSome]
      rw [if_pos same, absent]
      simp only [Transform.descending]
      rw [Run.without_bind, ← below, ← Run.without_bind_pure]
      have dropped : (Run.record (.intercepted env node)).without kind = pure () := by
        simp [Run.without, Run.record, Step.handsOver, same, Run.pure_def, Run.done]
      rw [dropped, pure_bind]
    · rw [if_neg same]
      cases found : table.find? node.kind with
      | none =>
        rw [← below]
        exact Run.without_bind_pure kind _ some
      | some transform =>
        have kept : (Run.record (.intercepted env node)).without kind =
            Run.record (.intercepted env node) := by
          simp [Run.without, Run.record, Step.handsOver, same]
        have silent : (transform (table.walker budget) env node).without kind =
            transform (table.walker budget) env node := by
          have noSteps := (still _ _ found).log_eq (table.walker budget) env node
          rw [Run.without, noSteps, List.filter_nil, ← noSteps]
        simp only [(still _ _ found).same _ (table.walker budget)]
        rw [Run.without_bind, kept, silent]

end Table

/-- A transform that only goes on below its node is invisible. Let a table, whose transforms do not
go on with the walk, be extended by such a transform for a kind that it lacks and that no pattern is
made of. Then a walk under the extended table ends as the walk under the table does, with the same
tree or the same fault, and the other transforms are handed the same nodes in the same order and
under the same environments. -/
theorem descending_transform_is_invisible (table : Table) (still : table.Still) (kind : Kind)
    (missing : table.contains kind = false) (noPattern : kind.isPattern = false)
    (noProperty : kind ≠ .property) (budget : Nat) (env : Option Env) (tree : Node)
    (wellFormed : tree.WellFormed) (patterns : tree.TakesPatterns) :
    let extended := (table.insert kind .descending).walk budget env (some tree)
    let plain := table.walk budget env (some tree)
    extended.outcome = plain.outcome ∧
      ((handOvers extended.log).filter fun handOver => handOver.2.kind ≠ kind) =
        handOvers plain.log := by
  intro extended plain
  have same : extended.without kind = plain :=
    Table.visit_without still missing noPattern noProperty budget (env.getD .root) tree wellFormed
      patterns
  have ending : (extended.without kind).outcome = plain.outcome := by rw [same]
  exact ⟨ending, by rw [← Run.handOvers_without, same]⟩

theorem withDefault_takesPatterns : withDefault.TakesPatterns := by decide

theorem descending_invisible_in_withDefault :
    (markAllBut "b").Still ∧ (markAllBut "b").contains .functionDeclaration = false ∧
      withDefault.WellFormed ∧ withDefault.TakesPatterns ∧
      (handOvers (((markAllBut "b").insert .functionDeclaration .descending).walk 6 none
        (some withDefault)).log).length = 6 ∧
      ((handOvers (((markAllBut "b").insert .functionDeclaration .descending).walk 6 none
        (some withDefault)).log).filter fun handOver => handOver.2.kind ≠ .functionDeclaration) =
        handOvers ((markAllBut "b").walk 6 none (some withDefault)).log := by
  have invisible := descending_transform_is_invisible (markAllBut "b") (markAllBut_still "b")
    .functionDeclaration (by decide) (by decide) (by decide) 6 none withDefault
    withDefault_wellFormed withDefault_takesPatterns
  exact ⟨markAllBut_still "b", by decide, withDefault_wellFormed, withDefault_takesPatterns,
    by cbv, invisible.2⟩

end EstreeScopes
