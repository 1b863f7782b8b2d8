/-
This file shows that walking a node is following its agenda, for any walker and
any well-formed node (`descend_eq_follow`). The walker takes the fields of a node
one after the other, walks each and puts it back, and it reads the next field off
the node that it has changed so far. Because the names of the fields are distinct
this is the same as reading all fields off the node as it was, collecting the
edits, and making them at the end.

What the visits of the walker give is described by an editor: the edits that turn
the visited node into the outcome of the visit.
-/

import EstreeScopes.Proofs.Agenda
import EstreeScopes.Proofs.Environment

namespace EstreeScopes

namespace Walker

/-- Visiting a well-formed node is making the edits of an editor in it. -/
def EditsBy (walker : Walker) (editor : Env → Node → Run Edits) : Prop :=
  ∀ env (node : Node), node.WellFormed →
    walker.visit env node = (do return node.edit (← editor env node))

/-- What a visit gives as one edit of the visited node. -/
def visitEdits (walker : Walker) (env : Env) (node : Node) : Run Edits := do
  return [([], ← walker.visit env node)]

theorem editsBy_visitEdits (walker : Walker) : walker.EditsBy walker.visitEdits := by
  intro env node _
  simp [visitEdits]

variable {walker : Walker} {editor : Env → Node → Run Edits}

/-! ### Fields -/

theorem visitItems_eq (edits : walker.EditsBy editor) (env : Env) (slot : String) (start : Nat)
    (items : List (Option Node)) (wellFormed : ∀ child, some child ∈ items → child.WellFormed) :
    walker.visitItems env items = (do
      let made ← follow editor
        ((itemPlaces slot start items).map fun (place, child) => .visit [place] env child)
      return Node.editItems slot start items made) := by
  induction items generalizing start with
  | nil => simp [visitItems, itemPlaces, follow, Node.editItems]
  | cons item rest inductionHypothesis =>
    have restEq := inductionHypothesis (start + 1) fun child member =>
      wellFormed child (List.mem_cons_of_mem _ member)
    cases item with
    | none =>
      rw [visitItems, restEq, itemPlaces]
      simp only [bind_assoc, pure_bind, Node.editItems]
    | some child =>
      rw [visitItems, edits env child (wellFormed child List.mem_cons_self), restEq, itemPlaces,
        List.map_cons, follow]
      simp only [bind_assoc, pure_bind]
      refine bind_congr fun made => Run.bind_congr_of_ok fun log others followed => ?_
      have through : ∀ stop ∈ (itemPlaces slot (start + 1) rest).map
          (fun (place, child) => Stop.visit [place] env child),
          stop.Through fun place => place ≠ ⟨slot, some start⟩ := by
        intro stop member
        obtain ⟨⟨place, later⟩, placeMember, rfl⟩ := List.mem_map.mp member
        obtain ⟨offset, rfl, _⟩ := mem_itemPlaces placeMember
        intro equal
        have := Option.some.inj (Place.mk.inj equal).2
        omega
      rw [Node.editItems_some slot start child rest
        ((follow_through through followed).2 _ (not_not_intro rfl))]

theorem visitField_eq (edits : walker.EditsBy editor) (env : Env) (slot : String)
    (held : Field Node) (wellFormed : ∀ child ∈ held.nodes, child.WellFormed) :
    walker.visitField env held = (do
      let made ← follow editor (fieldStops env slot held)
      return Node.editField slot held made) := by
  cases held with
  | absent => simp [visitField, fieldStops, Field.places, follow, Node.editField]
  | value plain => simp [visitField, fieldStops, Field.places, follow, Node.editField]
  | node child =>
    rw [visitField, edits env child (wellFormed child List.mem_cons_self), fieldStops, Field.places,
      List.map_singleton, follow, follow]
    simp only [bind_assoc, pure_bind, Node.editField, List.append_nil, Edits.under_below_self]
  | list items =>
    rw [visitField, visitItems_eq edits env slot 0 items fun child member =>
      wellFormed child (List.mem_filterMap.mpr ⟨_, member, rfl⟩)]
    simp only [bind_assoc, pure_bind, Node.editField]
    rfl

/-- A field that a slot accepts is visited like any field, and no other is visited. -/
theorem visitSlotField_eq_ite (walker : Walker) (env : Env) (kind : Kind) (slot : Slot)
    (held : Field Node) :
    walker.visitSlotField env kind slot held =
      if slot.accepts held then walker.visitField env held else .fail (.malformed kind slot) := by
  obtain ⟨name, arity⟩ := slot
  cases arity <;> cases held <;> rfl

theorem visitSlotField_eq (edits : walker.EditsBy editor) (env : Env) (kind : Kind) (slot : Slot)
    (held : Field Node) (wellFormed : ∀ child ∈ held.nodes, child.WellFormed) :
    walker.visitSlotField env kind slot held = (do
      let made ← follow editor (slotStops env kind slot held)
      return Node.editField slot.name held made) := by
  rw [visitSlotField_eq_ite, slotStops]
  split
  · exact visitField_eq edits env slot.name held wellFormed
  · rw [follow, Run.bind_def, Run.fail_andThen]

/-! ### Slots, one after the other -/

theorem field_editBelow_untouched (node : Node) {before : Edits} {slot : String}
    (untouched : ∀ index, before.under ⟨slot, index⟩ = []) :
    (node.editBelow before).field slot = node.field slot := by
  rw [Node.field, Node.get?_editBelow_of_under_nil node untouched, Node.field]

theorem wellFormed_of_mem_nodes {node : Node} (wellFormed : node.WellFormed) (slot : String) :
    ∀ child ∈ (node.field slot).nodes, child.WellFormed :=
  fun _ member => wellFormed.child (Node.mem_children_of_mem_nodes member)

/-- What comes out of walking a field is the node with something put into this field. -/
theorem exists_set_of_walkSlot {env : Env} {node walked : Node} {slot : String} {log : List Step}
    (done : walker.walkSlot env node slot = ⟨log, .ok walked⟩) :
    ∃ held, walked = node.set slot held := by
  obtain ⟨held, _, equal⟩ := Run.bind_pure_eq_ok.mp done
  exact ⟨held, equal.symm⟩

/-- Walking a field of a node in which other fields have been walked already. -/
theorem walkSlot_eq (edits : walker.EditsBy editor) (env : Env) {node : Node}
    (wellFormed : node.WellFormed) (slot : String) (before : Edits)
    (untouched : ∀ index, before.under ⟨slot, index⟩ = []) :
    walker.walkSlot env (node.editBelow before) slot = (do
      let made ← follow editor (fieldStops env slot (node.field slot))
      return node.editBelow (before ++ made)) := by
  rw [walkSlot, field_editBelow_untouched node untouched,
    visitField_eq edits env slot _ (wellFormed_of_mem_nodes wellFormed slot), bind_assoc]
  refine Run.bind_congr_of_ok fun log made followed => ?_
  rw [pure_bind, Node.set_editBelow wellFormed.here slot untouched
    (follow_through (fieldStops_through env slot _) followed).2]

/-- Walking a slot of a node in which other slots have been walked already. -/
theorem walkRuleSlot_eq (edits : walker.EditsBy editor) (env : Env) {node : Node}
    (wellFormed : node.WellFormed) (slot : Slot) (before : Edits)
    (untouched : ∀ index, before.under ⟨slot.name, index⟩ = []) :
    walker.walkRuleSlot env (node.editBelow before) slot = (do
      let made ← follow editor (slotStops env node.kind slot (node.field slot.name))
      return node.editBelow (before ++ made)) := by
  have kindEq : (node.editBelow before).kind = node.kind := rfl
  rw [walkRuleSlot, field_editBelow_untouched node untouched, kindEq,
    visitSlotField_eq edits env node.kind slot _ (wellFormed_of_mem_nodes wellFormed slot.name),
    bind_assoc]
  refine Run.bind_congr_of_ok fun log made followed => ?_
  rw [pure_bind, Node.set_editBelow wellFormed.here slot.name untouched
    (follow_through (slotStops_through env node.kind slot _) followed).2]

/-- Walks of distinct slots, one after the other, follow the stops of the slots together. The walks
made before concern none of the slots that are left. -/
theorem foldlM_eq_follow {Key : Type} (name : Key → String) (stops : Key → List Stop)
    (walk : Node → Key → Run Node) (node : Node)
    (through : ∀ key, ∀ stop ∈ stops key, stop.Through fun place => place.slot = name key)
    (step : ∀ (key : Key) (before : Edits), (∀ index, before.under ⟨name key, index⟩ = []) →
      walk (node.editBelow before) key = (do
        let made ← follow editor (stops key)
        return node.editBelow (before ++ made)))
    (keys : List Key) (distinct : (keys.map name).Nodup) (before : Edits)
    (untouched : ∀ key ∈ keys, ∀ index, before.under ⟨name key, index⟩ = []) :
    keys.foldlM walk (node.editBelow before) = (do
      let made ← follow editor (keys.flatMap stops)
      return node.editBelow (before ++ made)) := by
  induction keys generalizing before with
  | nil => simp [follow]
  | cons key rest inductionHypothesis =>
    obtain ⟨fresh, restDistinct⟩ := List.nodup_cons.mp distinct
    rw [List.foldlM_cons, step key before (untouched key List.mem_cons_self), List.flatMap_cons,
      follow_append]
    simp only [bind_assoc, pure_bind]
    refine Run.bind_congr_of_ok fun log made followed => ?_
    rw [inductionHypothesis restDistinct (before ++ made) fun other member index => ?_]
    · simp only [List.append_assoc]
    · have different : name other ≠ name key := fun equal =>
        fresh (equal ▸ List.mem_map_of_mem member)
      rw [Edits.under_append, untouched other (List.mem_cons_of_mem _ member) index,
        (follow_through (through key) followed).2 _ different]
      rfl

theorem walkSlots_eq_foldlM (walker : Walker) (env : Env) (slots : List String) (node : Node) :
    walker.walkSlots env slots node = slots.foldlM (walker.walkSlot env) node := by
  induction slots generalizing node with
  | nil => rfl
  | cons slot rest inductionHypothesis =>
    rw [walkSlots, List.foldlM_cons]
    exact bind_congr fun walked => inductionHypothesis walked

theorem walkRuleSlots_eq_foldlM (walker : Walker) (env : Env) (slots : List Slot) (node : Node) :
    walker.walkRuleSlots env slots node = slots.foldlM (walker.walkRuleSlot env) node := by
  induction slots generalizing node with
  | nil => rfl
  | cons slot rest inductionHypothesis =>
    rw [walkRuleSlots, List.foldlM_cons]
    exact bind_congr fun walked => inductionHypothesis walked

theorem walkSlots_eq (edits : walker.EditsBy editor) (env : Env) {node : Node}
    (wellFormed : node.WellFormed) (slots : List String) (distinct : slots.Nodup) :
    walker.walkSlots env slots node = (do
      let made ← follow editor (slots.flatMap fun slot => fieldStops env slot (node.field slot))
      return node.editBelow made) := by
  have together := foldlM_eq_follow id (fun slot => fieldStops env slot (node.field slot))
    (walker.walkSlot env) node (fun slot => fieldStops_through env slot _)
    (walkSlot_eq edits env wellFormed) slots
    (by rwa [List.map_id]) [] fun _ _ _ => rfl
  rwa [Node.editBelow_nil, ← walkSlots_eq_foldlM] at together

theorem walkRuleSlots_eq (edits : walker.EditsBy editor) (env : Env) {node : Node}
    (wellFormed : node.WellFormed) (slots : List Slot) (distinct : (slots.map Slot.name).Nodup) :
    walker.walkRuleSlots env slots node = (do
      let made ← follow editor
        (slots.flatMap fun slot => slotStops env node.kind slot (node.field slot.name))
      return node.editBelow made) := by
  have together := foldlM_eq_follow Slot.name
    (fun slot => slotStops env node.kind slot (node.field slot.name))
    (walker.walkRuleSlot env) node (fun slot => slotStops_through env node.kind slot _)
    (walkRuleSlot_eq edits env wellFormed) slots
    distinct [] fun _ _ _ => rfl
  rwa [Node.editBelow_nil, ← walkRuleSlots_eq_foldlM] at together

/-! ### Patterns -/

/-- Walking a pattern follows its agenda and declares the names that it registers. -/
def FollowsPattern (walker : Walker) (editor : Env → Node → Run Edits) (pattern : Node) : Prop :=
  ∀ outer scope : Env, walker.walkPattern outer scope pattern = (do
    let made ← follow editor (patternStops walker.intercepts outer scope pattern)
    return (scope.declareAll (pattern.registered walker.intercepts), pattern.edit made))

theorem walkPatternItems_eq (outer scope : Env) (slot : String) (start : Nat)
    (items : List (Option Node))
    (each : ∀ child, some child ∈ items → walker.FollowsPattern editor child) :
    walker.walkPatternItems outer scope items = (do
      let made ← follow editor
        (patternItemsStops walker.intercepts outer scope slot start items)
      return (scope.declareAll ((items.filterMap id).flatMap (Node.registered walker.intercepts)),
        Node.editItems slot start items made)) := by
  induction items generalizing scope start with
  | nil =>
    simp [walkPatternItems, patternItemsStops, follow, Node.editItems, Env.declareAll_nil]
  | cons item rest inductionHypothesis =>
    have restEq (scope : Env) := inductionHypothesis scope (start + 1) fun child member =>
      each child (List.mem_cons_of_mem _ member)
    cases item with
    | none =>
      rw [walkPatternItems, restEq, patternItemsStops]
      simp only [bind_assoc, pure_bind, Node.editItems, List.filterMap_cons_none, id]
    | some child =>
      rw [walkPatternItems, each child List.mem_cons_self outer scope, patternItemsStops,
        follow_append, follow_map_below]
      simp only [bind_assoc, pure_bind, restEq]
      refine bind_congr fun made => Run.bind_congr_of_ok fun log others followed => ?_
      have untouched : others.under ⟨slot, some start⟩ = [] := by
        refine (follow_through (patternItemsStops_through _ outer _ slot (start + 1) rest)
          followed).2 _ ?_
        rintro ⟨index, bound, equal⟩
        have := Option.some.inj (Place.mk.inj equal).2
        omega
      rw [Node.editItems_some slot start child rest untouched, ← Env.declareAll_append]
      simp

theorem walkPatternField_eq (outer scope : Env) (kind : Kind) (slot : Slot) (held : Field Node)
    (each : ∀ child ∈ held.nodes, walker.FollowsPattern editor child) :
    walker.walkPatternField outer scope kind slot held = (do
      let made ← follow editor
        (patternFieldStops walker.intercepts outer scope kind slot held)
      return (scope.declareAll (held.registered walker.intercepts),
        Node.editField slot.name held made)) := by
  by_cases accepted : slot.accepts held = true
  · rw [patternFieldStops.eq_def, if_pos accepted]
    obtain ⟨name, arity⟩ := slot
    cases held with
    | absent =>
      obtain rfl : arity = .node := by simpa [Slot.accepts] using accepted
      simp [walkPatternField, follow, Node.editField, Field.registered, Field.nodes]
    | value plain => cases accepted
    | node child =>
      obtain rfl : arity = .node := by simpa [Slot.accepts] using accepted
      rw [walkPatternField, each child List.mem_cons_self outer scope, follow_map_below]
      · simp only [bind_assoc, pure_bind, Node.editField, Edits.under_below_self, Field.registered,
          Field.nodes, List.flatMap_singleton]
      · rfl
    | list items =>
      obtain rfl : arity = .list := by simpa [Slot.accepts] using accepted
      rw [walkPatternField, walkPatternItems_eq outer scope name 0 items fun child member =>
        each child (List.mem_filterMap.mpr ⟨_, member, rfl⟩)]
      · simp only [bind_assoc, pure_bind, Node.editField, Field.registered, Field.nodes]
      · rfl
  · have refused : walker.walkPatternField outer scope kind slot held =
        .fail (.malformed kind slot) := by
      obtain ⟨name, arity⟩ := slot
      rw [walkPatternField.eq_def]
      cases arity <;> cases held <;> first | rfl | exact absurd rfl accepted
    rw [refused, patternFieldStops.eq_def, if_neg accepted, follow, Run.bind_def, Run.fail_andThen]

/-- Putting the first edited field in place. -/
theorem set_editField {node : Node} (wellFormed : node.WellFormed) (slot : String) {made : Edits}
    (within : ∀ place : Place, place.slot ≠ slot → made.under place = []) :
    node.set slot (Node.editField slot (node.field slot) made) = node.editBelow made := by
  have placed : (node.editBelow []).set slot (Node.editField slot (node.field slot) made) =
      node.editBelow ([] ++ made) :=
    Node.set_editBelow wellFormed.here slot (fun _ => rfl) within
  rwa [Node.editBelow_nil] at placed

/-- Putting two edited fields in place, one after the other. -/
theorem set_set_editField {node : Node} (wellFormed : node.WellFormed) {first second : String}
    (different : second ≠ first) {made others : Edits}
    (madeWithin : made.here? = none ∧ ∀ place : Place, place.slot ≠ first → made.under place = [])
    (othersWithin : others.here? = none ∧
      ∀ place : Place, place.slot ≠ second → others.under place = []) :
    some ((node.set first (Node.editField first (node.field first) made)).set second
      (Node.editField second (node.field second) others)) = node.edit (made ++ others) := by
  have elsewhere : (made ++ others).here? = none := by
    rw [Edits.here?_append, madeWithin.1, othersWithin.1]
    rfl
  rw [set_editField wellFormed first madeWithin.2, Node.set_editBelow wellFormed.here second
    (fun index => madeWithin.2 ⟨second, index⟩ different) othersWithin.2,
    Node.edit_of_here?_none elsewhere]

/-- A pattern with one slot to walk. -/
theorem followsPattern_of_single {walker : Walker} {pattern : Node}
    (wellFormed : pattern.WellFormed) (slot : Slot)
    (each : ∀ child ∈ (pattern.field slot.name).nodes, walker.FollowsPattern editor child)
    (outer scope : Env) :
    (do
      let (inner, held) ← walker.walkPatternField outer scope pattern.kind slot
        (pattern.field slot.name)
      return (inner, some (pattern.set slot.name held))) = (do
      let made ← follow editor (patternFieldStops walker.intercepts outer scope pattern.kind slot
        (pattern.field slot.name))
      return (scope.declareAll ((pattern.field slot.name).registered walker.intercepts),
        pattern.edit made)) := by
  rw [walkPatternField_eq outer scope pattern.kind slot _ each]
  simp only [bind_assoc, pure_bind]
  refine Run.bind_congr_of_ok fun log made followed => ?_
  have through := follow_through (patternFieldStops_through _ outer scope _ slot _) followed
  rw [set_editField wellFormed slot.name through.2, Node.edit_of_here?_none through.1]

theorem walkPattern_eq (edits : walker.EditsBy editor) {pattern : Node}
    (wellFormed : pattern.WellFormed) : walker.FollowsPattern editor pattern := by
  induction size : pattern.size using Nat.strongRecOn generalizing pattern with
  | _ bound inductionHypothesis =>
  subst size
  have each (slot : String) (child : Node) (member : child ∈ (pattern.field slot).nodes) :
      walker.FollowsPattern editor child :=
    inductionHypothesis child.size
      (Nat.lt_trans (Node.size_lt_of_mem_nodes member) (Node.fieldSize_lt_size _ _))
      (wellFormed_of_mem_nodes wellFormed slot child member) rfl
  intro outer scope
  rw [walkPattern, patternStops, Node.registered_eq]
  by_cases intercepted : walker.intercepts pattern.kind = true
  · rw [if_pos intercepted, if_pos intercepted, if_pos intercepted]
    simp [edits _ pattern wellFormed, follow, Edits.below]
  rw [if_neg intercepted, if_neg intercepted, if_neg intercepted]
  split
  case h_1 kind => simp [kind, Kind.patternSlot?, follow]
  case h_2 kind =>
    have keyless : pattern.keyNames = [] := by simp [Node.keyNames, kind]
    have stops : pattern.kind.ruleSlots = [.node "left", .node "right"] := by rw [kind]; rfl
    rw [walkPatternField_eq outer scope .assignmentPattern (.node "left") _ (each "left"),
      visitSlotField_eq edits outer .assignmentPattern (.node "right") _
        (wellFormed_of_mem_nodes wellFormed "right"), keyless, stops, Env.declareAll_nil, kind]
    simp only [Kind.patternSlot?, List.flatMap_cons, List.flatMap_nil, List.append_nil, if_true,
      if_neg (show Slot.node "right" ≠ Slot.node "left" by decide), follow_append, bind_assoc,
      pure_bind, List.nil_append]
    refine Run.bind_congr_of_ok fun _ made followed => Run.bind_congr_of_ok fun _ others last => ?_
    exact congrArg (fun walked => pure (_, walked)) (set_set_editField wellFormed (by decide)
      (follow_through (patternFieldStops_through _ outer scope _ (.node "left") _) followed)
      (follow_through (slotStops_through outer _ (.node "right") _) last))
  case h_3 kind =>
    have single := followsPattern_of_single wellFormed (.node "argument") (each "argument") outer
      scope
    rw [kind] at single
    simpa [kind, Kind.patternSlot?, Kind.ruleSlots, Kind.rule, Node.keyNames, Env.declareAll_nil,
      Field.registered, Slot.node] using single
  case h_4 kind =>
    have declared : (if (pattern.child? "value").any fun value => value.kind.isPattern then scope
        else scope.declareAll (pattern.boundNamesOf "key")) =
        scope.declareAll pattern.keyNames := by
      rw [Node.keyNames]
      split <;> simp_all [Env.declareAll_nil]
    have stops : pattern.kind.ruleSlots = [.node "key", .node "value"] := by rw [kind]; rfl
    simp only [declared]
    rw [walkPatternField_eq outer _ .property (.node "value") _ (each "value"),
      visitSlotField_eq edits outer .property (.node "key") _
        (wellFormed_of_mem_nodes wellFormed "key"), stops, kind]
    simp only [Kind.patternSlot?, List.flatMap_cons, List.flatMap_nil, List.append_nil, if_true,
      if_neg (show Slot.node "key" ≠ Slot.node "value" by decide), follow_append, bind_assoc,
      pure_bind, ← Env.declareAll_append]
    refine Run.bind_congr_of_ok fun _ made followed => Run.bind_congr_of_ok fun _ others last => ?_
    exact congrArg (fun walked => pure (_, walked)) (set_set_editField wellFormed (by decide)
      (follow_through (slotStops_through outer _ (.node "key") _) followed)
      (follow_through (patternFieldStops_through _ outer _ _ (.node "value") _) last))
  case h_5 kind =>
    have single := followsPattern_of_single wellFormed (.list "properties") (each "properties")
      outer scope
    rw [kind] at single
    simpa [kind, Kind.patternSlot?, Kind.ruleSlots, Kind.rule, Node.keyNames, Env.declareAll_nil,
      Field.registered, Slot.list] using single
  case h_6 kind =>
    have single := followsPattern_of_single wellFormed (.list "elements") (each "elements") outer
      scope
    rw [kind] at single
    simpa [kind, Kind.patternSlot?, Kind.ruleSlots, Kind.rule, Node.keyNames, Env.declareAll_nil,
      Field.registered, Slot.list] using single
  case h_7 notIdentifier _ _ _ _ _ =>
    have noSlot : pattern.kind.patternSlot? = none := by
      unfold Kind.patternSlot?
      split <;> first | contradiction | rfl
    rw [noSlot, if_neg notIdentifier, if_neg notIdentifier, edits scope pattern wellFormed]
    simp [follow, Edits.below, Env.declareAll_nil]

/-! ### Scopes -/

/-- Walking the body of a scope in a node in which other slots have been walked already. -/
theorem walkBody_eq (edits : walker.EditsBy editor) (scope : Env) {node : Node}
    (wellFormed : node.WellFormed) (slot : Slot) (before : Edits)
    (untouched : ∀ index, before.under ⟨slot.name, index⟩ = []) :
    walker.walkBody scope (node.editBelow before) slot = (do
      let made ← follow editor (bodyStops scope node slot)
      return node.editBelow (before ++ made)) := by
  rw [walkBody, walkRuleSlot_eq edits scope wellFormed slot before untouched, bodyStops, follow,
    bind_assoc]
  rfl

theorem walkPatternSlot_eq (edits : walker.EditsBy editor) (outer scope : Env) {node : Node}
    (wellFormed : node.WellFormed) (slot : Slot) (before : Edits)
    (untouched : ∀ index, before.under ⟨slot.name, index⟩ = []) :
    walker.walkPatternSlot outer scope (node.editBelow before) slot = (do
      let made ← follow editor
        (patternFieldStops walker.intercepts outer scope node.kind slot (node.field slot.name))
      return (scope.declareAll ((node.field slot.name).registered walker.intercepts),
        node.editBelow (before ++ made))) := by
  have kindEq : (node.editBelow before).kind = node.kind := rfl
  rw [walkPatternSlot, field_editBelow_untouched node untouched, kindEq,
    walkPatternField_eq outer scope node.kind slot _ fun child member =>
      walkPattern_eq edits (wellFormed_of_mem_nodes wellFormed slot.name child member)]
  simp only [bind_assoc, pure_bind]
  refine Run.bind_congr_of_ok fun log made followed => ?_
  rw [Node.set_editBelow wellFormed.here slot.name untouched
    (follow_through (patternFieldStops_through _ outer scope _ slot _) followed).2]

/-- The patterns of a scope and then its body. -/
theorem walkScope_eq (edits : walker.EditsBy editor) (outer scope : Env) {node : Node}
    (wellFormed : node.WellFormed) (patterns body : Slot) (different : body.name ≠ patterns.name)
    (before : Edits) (patternsUntouched : ∀ index, before.under ⟨patterns.name, index⟩ = [])
    (bodyUntouched : ∀ index, before.under ⟨body.name, index⟩ = []) :
    (do
      let (inner, walked) ← walker.walkPatternSlot outer scope (node.editBelow before) patterns
      walker.walkBody inner walked body) = (do
      let made ← follow editor (scopeStops walker.intercepts outer scope node patterns body)
      return node.editBelow (before ++ made)) := by
  rw [walkPatternSlot_eq edits outer scope wellFormed patterns before patternsUntouched, scopeStops,
    follow_append]
  simp only [bind_assoc, pure_bind]
  refine Run.bind_congr_of_ok fun log made followed => ?_
  rw [walkBody_eq edits _ wellFormed body (before ++ made) fun index => ?_]
  · simp only [List.append_assoc]
  · have within := follow_through (patternFieldStops_through _ outer scope _ patterns _) followed
    rw [Edits.under_append, bodyUntouched index, within.2 _ different]
    rfl

/-- Walking the nodes below a node is following its agenda. -/
theorem descend_eq_follow (edits : walker.EditsBy editor) (env : Env) {node : Node}
    (wellFormed : node.WellFormed) :
    walker.descend env node = (do
      return node.editBelow (← follow editor (agenda walker.intercepts env node))) := by
  have unedited : node = node.editBelow [] := (Node.editBelow_nil node).symm
  rw [descend, agenda]
  cases rule : node.kind.rule with
  | none => simp [follow]
  | some rule' =>
    cases rule' with
    | slots slots =>
      refine walkRuleSlots_eq edits env wellFormed slots ?_
      have distinct := node.kind.ruleSlots_nodup
      rwa [Kind.ruleSlots, rule] at distinct
    | children => exact walkSlots_eq edits env wellFormed node.slots wellFormed.here
    | program =>
      have entered := walkBody_eq edits (env.child.declareAll node.hoistedNames) wellFormed
        .programBody [] fun _ => rfl
      rwa [← unedited] at entered
    | catchClause =>
      have walked := walkScope_eq edits env (env.child.declareAll node.hoistedNames) wellFormed
        .catchParam .catchBody (by decide) [] (fun _ => rfl) fun _ => rfl
      rwa [← unedited] at walked
    | function =>
      have named := walkRuleSlot_eq edits env wellFormed .functionId [] fun _ => rfl
      rw [← unedited] at named
      simp only [named, follow_append, bind_assoc, pure_bind, List.nil_append]
      refine Run.bind_congr_of_ok fun log made followed => ?_
      have within (slot : String) (different : slot ≠ "id") (index : Option Nat) :
          made.under ⟨slot, index⟩ = [] :=
        (follow_through (slotStops_through env _ .functionId _) followed).2 ⟨slot, index⟩ different
      -- The names are hoisted out of the body as it was: walking the name left it alone.
      have hoisted : (node.editBelow made).hoistedNamesOf "body" = node.hoistedNamesOf "body" := by
        rw [Node.hoistedNamesOf, Node.child?,
          Node.get?_editBelow_of_under_nil node (within "body" (by decide))]
        rfl
      rw [hoisted]
      exact walkScope_eq edits env _ wellFormed .functionParams .functionBody (by decide) made
        (within "params" (by decide)) (within "body" (by decide))

end Walker

end EstreeScopes
