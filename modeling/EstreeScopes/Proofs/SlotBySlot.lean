/-
This file says that going below a node by a rule of slots is walking its slots one
after the other (`descend_is_slot_by_slot`), as a transform may do on its own. The
two look at a slot differently: the rule asks for a node or for a list, while a
single walk takes whatever is there, a plain value too. Where the slot holds what
the rule asks for they do the same, and where it does not the rule refuses the node.

What a transform does to the nodes of one slot is put back into that slot alone. So
whether a slot is as the rule asks can be read off the node before the walk, although
it is checked when the walk gets there.
-/

import EstreeScopes.Proofs.Descend
import EstreeScopes.Walk.Script

namespace EstreeScopes

namespace Node

theorem kind_set (node : Node) (slot : String) (held : Field Node) :
    (node.set slot held).kind = node.kind := by
  unfold set
  split <;> rfl

/-- Whether a node holds in a slot what the slot asks for. -/
def fits (node : Node) (slot : Slot) : Bool := slot.accepts (node.field slot.name)

/-- A node has the kind of another, and the fields of the other outside some slots. -/
structure KeptOutside (slots : List String) (node walked : Node) : Prop where
  kind : walked.kind = node.kind
  field : ∀ slot, slot ∉ slots → walked.field slot = node.field slot

namespace KeptOutside

variable {node walked : Node} {slots : List String}

theorem refl (slots : List String) (node : Node) : KeptOutside slots node node :=
  ⟨rfl, fun _ _ => rfl⟩

theorem set (node : Node) (slot : String) (held : Field Node) :
    KeptOutside [slot] node (node.set slot held) := by
  refine ⟨kind_set node slot held, fun other outside => ?_⟩
  rw [Node.field, get?_set_other node slot other held (List.ne_of_not_mem_cons outside), Node.field]

theorem cons {middle : Node} {slot : String} (first : KeptOutside [slot] node middle)
    (rest : KeptOutside slots middle walked) : KeptOutside (slot :: slots) node walked := by
  refine ⟨rest.kind.trans first.kind, fun other outside => ?_⟩
  have outsideFirst : other ∉ [slot] := fun member =>
    outside (List.mem_singleton.mp member ▸ List.mem_cons_self)
  rw [rest.field other (List.not_mem_of_not_mem_cons outside), first.field other outsideFirst]

theorem fits (kept : KeptOutside slots node walked) {slot : Slot} (outside : slot.name ∉ slots) :
    walked.fits slot = node.fits slot := by
  rw [Node.fits, kept.field slot.name outside, Node.fits]

end KeptOutside

end Node

namespace Walker

variable {walker : Walker} {env : Env} {node walked : Node} {log : List Step}

/-! ### One slot -/

theorem walkRuleSlot_of_fits {slot : Slot} (fits : node.fits slot = true) :
    walker.walkRuleSlot env node slot = walker.walkSlot env node slot.name := by
  have accepted : slot.accepts (node.field slot.name) = true := fits
  rw [walkRuleSlot, visitSlotField_eq_ite, if_pos accepted, walkSlot]

theorem walkRuleSlot_of_unfit {slot : Slot} (unfit : node.fits slot = false) :
    walker.walkRuleSlot env node slot = .fail (.malformed node.kind slot) := by
  have refused : slot.accepts (node.field slot.name) ≠ true := Bool.eq_false_iff.mp unfit
  rw [walkRuleSlot, visitSlotField_eq_ite, if_neg refused, Run.bind_def, Run.fail_andThen]

/-- Walking a slot changes nothing outside of it. -/
theorem keptOutside_of_walkSlot {slot : String}
    (done : walker.walkSlot env node slot = ⟨log, .ok walked⟩) :
    Node.KeptOutside [slot] node walked := by
  obtain ⟨held, rfl⟩ := exists_set_of_walkSlot done
  exact .set node slot held

/-! ### All slots -/

theorem keptOutside_of_walkSlots {slots : List String}
    (done : walker.walkSlots env slots node = ⟨log, .ok walked⟩) :
    Node.KeptOutside slots node walked := by
  induction slots generalizing node log with
  | nil =>
    obtain ⟨_, rfl⟩ := Run.pure_eq_ok.mp done
    exact .refl [] node
  | cons slot rest inductionHypothesis =>
    obtain ⟨_, middle, _, first, further, _⟩ := Run.bind_eq_ok.mp done
    exact (keptOutside_of_walkSlot first).cons (inductionHypothesis further)

theorem walkRuleSlots_append (first second : List Slot) :
    walker.walkRuleSlots env (first ++ second) node = (do
      let middle ← walker.walkRuleSlots env first node
      walker.walkRuleSlots env second middle) := by
  simp only [walkRuleSlots_eq_foldlM, List.foldlM_append]

/-- If all slots hold what they ask for, they are walked like any fields. Walking the first one
leaves the others as they are, so that they go on holding it. -/
theorem walkRuleSlots_of_fits {slots : List Slot} (distinct : (slots.map Slot.name).Nodup)
    (fits : ∀ slot ∈ slots, node.fits slot = true) :
    walker.walkRuleSlots env slots node = walker.walkSlots env (slots.map Slot.name) node := by
  induction slots generalizing node with
  | nil => rfl
  | cons slot rest inductionHypothesis =>
    obtain ⟨fresh, restDistinct⟩ := List.nodup_cons.mp distinct
    rw [walkRuleSlots, walkRuleSlot_of_fits (fits slot List.mem_cons_self), List.map_cons,
      walkSlots]
    refine Run.bind_congr_of_ok fun log walked done => ?_
    refine inductionHypothesis restDistinct fun other member => ?_
    have outside : other.name ∉ [slot.name] := fun same =>
      fresh (List.mem_singleton.mp same ▸ List.mem_map_of_mem member)
    rw [(keptOutside_of_walkSlot done).fits outside]
    exact fits other (List.mem_cons_of_mem _ member)

/-- The first slot that does not hold what it asks for ends the walk, after the slots before it. -/
theorem walkRuleSlots_of_unfit {before after : List Slot} {slot : Slot}
    (distinct : ((before ++ slot :: after).map Slot.name).Nodup)
    (fits : ∀ earlier ∈ before, node.fits earlier = true) (unfit : node.fits slot = false) :
    walker.walkRuleSlots env (before ++ slot :: after) node = (do
      let _ ← walker.walkSlots env (before.map Slot.name) node
      .fail (.malformed node.kind slot)) := by
  rw [List.map_append, List.map_cons] at distinct
  have outside : slot.name ∉ before.map Slot.name := fun member =>
    (List.nodup_cons.mp (List.nodup_middle.mp distinct)).1 (List.mem_append_left _ member)
  rw [walkRuleSlots_append, walkRuleSlots_of_fits distinct.of_append_left fits]
  refine Run.bind_congr_of_ok fun log walked done => ?_
  have kept := keptOutside_of_walkSlots done
  rw [walkRuleSlots, walkRuleSlot_of_unfit ((kept.fits outside).trans unfit), kept.kind,
    Run.bind_def, Run.fail_andThen]

end Walker

/-- A script that walks slots one after the other goes on with the node that comes out. -/
theorem Action.runAll_walkSlots (walker : Walker) (env : Env) (slots : List String) (node : Node) :
    Action.runAll (slots.map .walkSlot) walker env node = (do
      return some (← walker.walkSlots env slots node)) := by
  induction slots generalizing node with
  | nil => simp [Action.runAll, Walker.walkSlots]
  | cons slot rest inductionHypothesis =>
    simp only [List.map_cons, Action.runAll, Action.run, Walker.walkSlots, bind_assoc, pure_bind,
      inductionHypothesis]

/-- Going below a node whose rule lists slots is walking these slots one after the other. Whenever
it succeeds, so does walking the slots, with the same node and the same steps: the same transforms
are handed the same nodes in the same order and under the same environments. If every slot holds
what the rule asks for, the two are the same run also where a transform refuses its node, and a
transform that goes slot by slot does the same as one that goes below. Otherwise the slots before
the first one that does not hold it are walked, and then the node is refused for this slot. -/
theorem descend_is_slot_by_slot (table : Table) (budget : Nat) (env : Env) (node : Node)
    (slots : List Slot) (rule : node.kind.rule = some (.slots slots)) :
    let walker := table.walker budget
    (∀ log walked, walker.descend env node = ⟨log, .ok walked⟩ →
      walker.walkSlots env (slots.map Slot.name) node = ⟨log, .ok walked⟩) ∧
    ((∀ slot ∈ slots, node.fits slot = true) →
      walker.walkSlots env (slots.map Slot.name) node = walker.descend env node ∧
      Action.runAll ((slots.map Slot.name).map .walkSlot) walker env node =
        Action.run .descend walker env node) ∧
    ∀ before slot after, slots = before ++ slot :: after →
      (∀ earlier ∈ before, node.fits earlier = true) → node.fits slot = false →
        walker.descend env node = (do
          let _ ← walker.walkSlots env (before.map Slot.name) node
          .fail (.malformed node.kind slot)) := by
  intro walker
  have distinct : (slots.map Slot.name).Nodup := by
    have listed := node.kind.ruleSlots_nodup
    rwa [Kind.ruleSlots, rule] at listed
  have descends : walker.descend env node = walker.walkRuleSlots env slots node := by
    rw [Walker.descend, rule]
  have fitting (fits : ∀ slot ∈ slots, node.fits slot = true) :
      walker.walkSlots env (slots.map Slot.name) node = walker.descend env node :=
    (descends.trans (Walker.walkRuleSlots_of_fits distinct fits)).symm
  have refused : ∀ before slot after, slots = before ++ slot :: after →
      (∀ earlier ∈ before, node.fits earlier = true) → node.fits slot = false →
        walker.descend env node = (do
          let _ ← walker.walkSlots env (before.map Slot.name) node
          .fail (.malformed node.kind slot)) := by
    rintro before slot after rfl fits unfit
    exact descends.trans (Walker.walkRuleSlots_of_unfit distinct fits unfit)
  refine ⟨fun log walked done => ?_, fun fits => ⟨fitting fits, ?_⟩, refused⟩
  -- A run that succeeded met no slot that does not fit: the first one would have ended it.
  · cases found : slots.find? fun slot => !node.fits slot with
    | none =>
      have fits : ∀ slot ∈ slots, node.fits slot = true := by
        simpa using List.find?_eq_none.mp found
      exact (fitting fits).trans done
    | some slot =>
      obtain ⟨unfit, before, after, split, fits⟩ := List.find?_eq_some_iff_append.mp found
      have stopped := refused before slot after split (by simpa using fits) (by simpa using unfit)
      obtain ⟨_, _, _, _, last, _⟩ := Run.bind_eq_ok.mp (stopped.symm.trans done)
      cases last
  · rw [Action.runAll_walkSlots, fitting fits, Action.run]

/-- The table that refuses the identifiers of one name, removes those of another and marks all
others. -/
def pruning (refused removed : String) : Table :=
  .ofScripts [(.identifier, [.refuseNamed refused, .removeNamed removed, .rename "'"])]

/-- A call of `f`. -/
def callWith (arguments : Field Node) : Node :=
  ⟨.callExpression, [("callee", .node (.identifier "f")), ("arguments", arguments)]⟩

theorem callWith_slot_by_slot :
    let walker := (pruning "z" "x").walker 1
    let slots : List Slot := [.node "callee", .list "arguments"]
    let named (name : String) : Option Node := some (.identifier name)
    Kind.callExpression.rule = some (.slots slots) ∧
    walker.walkSlots .root (slots.map Slot.name)
        (callWith (.list [named "x", none, named "y"])) =
      ⟨["f", "x", "y"].map fun name => .intercepted .root (.identifier name),
        .ok ⟨.callExpression, [ ("callee", .node (.identifier "f'")),
          ("arguments", .list [none, none, named "y'"]) ]⟩⟩ ∧
    (walker.walkSlots .root (slots.map Slot.name)
        (callWith (.list [named "y", named "z", named "x"]))).outcome =
      .error (.refused "refused z") ∧
    (walker.descend .root (callWith .absent)).outcome =
      .error (.malformed .callExpression (.list "arguments")) := by
  intro walker slots named
  have rule : Kind.callExpression.rule = some (.slots slots) := rfl
  have descends (arguments : Field Node) := descend_is_slot_by_slot (pruning "z" "x") 1 .root
    (callWith arguments) slots rule
  refine ⟨rule, ?_, ?_, ?_⟩
  · exact (descends _).1 _ _ (by cbv)
  · rw [((descends _).2.1 (by decide)).1]
    cbv
  · rw [(descends .absent).2.2 [.node "callee"] (.list "arguments") [] rfl (by decide) rfl]
    cbv

end EstreeScopes
