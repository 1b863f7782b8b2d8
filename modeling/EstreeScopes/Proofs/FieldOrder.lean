/-
This file shows that the order of the fields of a node does not matter to the
search for free references (`freeReferences_of_reordered`), except at nodes that
are walked field by field. Two trees that differ in such an order have the same
free references, in the same order, or the same fault.

The walk takes the slots in the order of the rules, but the names of a frame come
in the order of the fields. So the frames of the two searches hold the same names
in different orders. The itineraries of the searches correspond: at each stop the
environments show the same names, and the nodes are the same up to the order of
their fields.
-/

import EstreeScopes.Proofs.Reordered
import EstreeScopes.Proofs.Search

namespace EstreeScopes

/-! ### Environments that show the same names -/

/-- The same names are visible in two environments. -/
def Env.Alike (env other : Env) : Prop := ∀ name, other.contains name = env.contains name

namespace Env.Alike

variable {env other : Env}

theorem child (alike : env.Alike other) : env.child.Alike other.child := alike

theorem declareAll (alike : env.Alike other) {names others : List String}
    (same : SameNames names others) : (env.declareAll names).Alike (other.declareAll others) := by
  intro name
  rw [Bool.eq_iff_iff, contains_declareAll, contains_declareAll, alike name, same name]

end Env.Alike

/-! ### Agendas that correspond -/

/-- Two stops are the same up to the order of fields, under environments that show the same
names. -/
inductive Stop.Alike : Stop → Stop → Prop
  | visit (address : Address) {env other : Env} {node next : Node} (envs : env.Alike other)
      (nodes : node.Alike next) : Alike (.visit address env node) (.visit address other next)
  | enter (kind : Kind) (names others : List String) :
      Alike (.enter kind names) (.enter kind others)
  | fault (reason : Fault) : Alike (.fault reason) (.fault reason)

/-- Two lists of stops correspond, one by one. -/
abbrev SameStops : List Stop → List Stop → Prop := List.Forall₂ Stop.Alike

/-- Lists of stops that are made from keys that are related. -/
theorem SameStops.flatMap_related {Key : Type} {related : Key → Key → Prop} {keys others : List Key}
    (relation : List.Forall₂ related keys others) {stops next : Key → List Stop}
    (each : ∀ key ∈ keys, ∀ other, related key other → SameStops (stops key) (next other)) :
    SameStops (keys.flatMap stops) (others.flatMap next) := by
  induction relation with
  | nil => exact .nil
  | cons first _ inductionHypothesis =>
    rw [List.flatMap_cons, List.flatMap_cons]
    exact List.rel_append (each _ List.mem_cons_self _ first)
      (inductionHypothesis fun key member => each key (List.mem_cons_of_mem _ member))

theorem SameStops.flatMap {Key : Type} {keys : List Key} {stops next : Key → List Stop}
    (each : ∀ key ∈ keys, SameStops (stops key) (next key)) :
    SameStops (keys.flatMap stops) (keys.flatMap next) :=
  .flatMap_related (List.forall₂_same.mpr fun _ _ => rfl) fun key member _ equal =>
    equal ▸ each key member

theorem SameStops.map_under {stops others : List Stop} (same : SameStops stops others)
    (address : Address) :
    SameStops (stops.map (Stop.under address)) (others.map (Stop.under address)) := by
  refine List.forall₂_map_left_iff.mpr (List.forall₂_map_right_iff.mpr (same.imp ?_))
  intro stop other alike
  cases alike with
  | visit rest envs nodes => exact .visit (address ++ rest) envs nodes
  | enter kind names others => exact .enter kind names others
  | fault reason => exact .fault reason

theorem SameStops.map_below {stops others : List Stop} (same : SameStops stops others)
    (place : Place) :
    SameStops (stops.map (Stop.below place)) (others.map (Stop.below place)) := by
  have below : Stop.below place = Stop.under [place] := by
    funext stop
    cases stop <;> rfl
  rw [below]
  exact same.map_under [place]

section

variable {env envOther outer outerOther scope scopeOther : Env}

theorem sameStops_itemPlaces (envs : env.Alike envOther) (slot : String) (start : Nat)
    {items others : List (Option Node)}
    (each : List.Forall₂ (Option.Rel Node.Alike) items others) :
    SameStops
      ((itemPlaces slot start items).map fun (place, child) => .visit [place] env child)
      ((itemPlaces slot start others).map fun (place, child) => .visit [place] envOther child) := by
  induction each generalizing start with
  | nil => exact .nil
  | cons first _ inductionHypothesis =>
    cases first with
    | none => exact inductionHypothesis (start + 1)
    | some nodes => exact .cons (.visit _ envs nodes) (inductionHypothesis (start + 1))

theorem sameStops_fieldStops (envs : env.Alike envOther) (slot : String) {held moved : Field Node}
    (fields : Field.Related Node.Alike held moved) :
    SameStops (fieldStops env slot held) (fieldStops envOther slot moved) := by
  cases fields with
  | absent => exact .nil
  | value plain => exact .nil
  | node nodes => exact .cons (.visit _ envs nodes) .nil
  | list items => exact sameStops_itemPlaces envs slot 0 items

theorem Field.Related.accepts {held moved : Field Node}
    (fields : Field.Related Node.Alike held moved) (slot : Slot) :
    slot.accepts moved = slot.accepts held := by
  cases fields <;> rfl

theorem sameStops_slotStops (envs : env.Alike envOther) (kind : Kind) (slot : Slot)
    {held moved : Field Node} (fields : Field.Related Node.Alike held moved) :
    SameStops (slotStops env kind slot held) (slotStops envOther kind slot moved) := by
  rw [slotStops, slotStops, fields.accepts]
  split
  · exact sameStops_fieldStops envs slot.name fields
  · exact .cons (.fault _) .nil

/-- The agendas of a pattern and its counterpart correspond, whatever the scope. -/
def SamePatterns (intercepts : Kind → Bool) (pattern next : Node) : Prop :=
  ∀ ⦃outer outerOther scope scopeOther : Env⦄, outer.Alike outerOther → scope.Alike scopeOther →
    SameStops (patternStops intercepts outer scope pattern)
      (patternStops intercepts outerOther scopeOther next)

variable {intercepts : Kind → Bool}

theorem sameStops_patternItemsStops (outers : outer.Alike outerOther)
    (scopes : scope.Alike scopeOther) (slot : String) (start : Nat)
    {items others : List (Option Node)}
    (nodes : List.Forall₂ (Option.Rel Node.Alike) items others)
    (each : ∀ child, some child ∈ items → ∀ next, child.Alike next →
      SamePatterns intercepts child next) :
    SameStops (patternItemsStops intercepts outer scope slot start items)
      (patternItemsStops intercepts outerOther scopeOther slot start others) := by
  induction nodes generalizing scope scopeOther start with
  | nil =>
    rw [patternItemsStops, patternItemsStops]
    exact .nil
  | cons first _ inductionHypothesis =>
    have rest {scope scopeOther : Env} (scopes : scope.Alike scopeOther) :=
      inductionHypothesis scopes (start + 1) fun child member =>
        each child (List.mem_cons_of_mem _ member)
    cases first with
    | none =>
      rw [patternItemsStops, patternItemsStops]
      exact rest scopes
    | some alike =>
      rw [patternItemsStops, patternItemsStops]
      refine List.rel_append (SameStops.map_below ?_ _)
        (rest (scopes.declareAll (alike.registered intercepts)))
      exact each _ List.mem_cons_self _ alike outers scopes

theorem sameStops_patternFieldStops (outers : outer.Alike outerOther)
    (scopes : scope.Alike scopeOther) (kind : Kind) (slot : Slot) {held moved : Field Node}
    (fields : Field.Related Node.Alike held moved)
    (each : ∀ child ∈ held.nodes, ∀ next, child.Alike next →
      SamePatterns intercepts child next) :
    SameStops (patternFieldStops intercepts outer scope kind slot held)
      (patternFieldStops intercepts outerOther scopeOther kind slot moved) := by
  rw [patternFieldStops.eq_def, patternFieldStops.eq_def, fields.accepts]
  split
  · cases fields with
    | absent => exact .nil
    | value plain => exact .nil
    | node nodes => exact .map_below (each _ List.mem_cons_self _ nodes outers scopes) _
    | list items =>
      exact sameStops_patternItemsStops outers scopes slot.name 0 items fun child member =>
        each child (List.mem_filterMap.mpr ⟨_, member, rfl⟩)
  · exact .cons (.fault _) .nil

theorem sameStops_patternStops {pattern next : Node} (alike : pattern.Alike next) :
    SamePatterns intercepts pattern next := by
  induction size : pattern.size using Nat.strongRecOn generalizing pattern next with
  | _ bound inductionHypothesis =>
  subst size
  intro outer outerOther scope scopeOther outers scopes
  rw [patternStops, patternStops, alike.kind]
  split
  · exact .cons (.visit [] (scopes.declareAll alike.boundNames) alike) .nil
  split
  · refine SameStops.flatMap fun slot _ => ?_
    split
    · refine sameStops_patternFieldStops outers (scopes.declareAll alike.keyNames) _ slot
        (alike.field slot.name) fun part member other parts => ?_
      have smaller := Nat.lt_trans (Node.size_lt_of_mem_nodes member)
        (Node.fieldSize_lt_size pattern slot.name)
      exact inductionHypothesis part.size smaller parts rfl
    · exact sameStops_slotStops outers _ slot (alike.field slot.name)
  · split
    · exact .nil
    · exact .cons (.visit [] scopes alike) .nil

theorem sameStops_bodyStops {node next : Node} (alike : node.Alike next)
    (scopes : scope.Alike scopeOther) (slot : Slot) :
    SameStops (bodyStops scope node slot) (bodyStops scopeOther next slot) := by
  rw [bodyStops, bodyStops, alike.kind]
  exact .cons (.enter _ _ _) (sameStops_slotStops scopes _ slot (alike.field slot.name))

theorem sameStops_scopeStops {node next : Node} (alike : node.Alike next)
    (outers : outer.Alike outerOther) (scopes : scope.Alike scopeOther) (patterns body : Slot) :
    SameStops (scopeStops intercepts outer scope node patterns body)
      (scopeStops intercepts outerOther scopeOther next patterns body) := by
  have registered : SameNames ((node.field patterns.name).registered intercepts)
      ((next.field patterns.name).registered intercepts) :=
    (alike.matched_field patterns.name).sameNames fun _ _ _ nodes => nodes.registered intercepts
  rw [scopeStops, scopeStops, alike.kind]
  exact List.rel_append
    (sameStops_patternFieldStops outers scopes _ patterns (alike.field patterns.name)
      fun _ _ _ nodes => sameStops_patternStops nodes)
    (sameStops_bodyStops alike (scopes.declareAll registered) body)

/-- The agendas of a node and its counterpart correspond. -/
theorem sameStops_agenda {node next : Node} (alike : node.Alike next) (envs : env.Alike envOther) :
    SameStops (agenda intercepts env node) (agenda intercepts envOther next) := by
  rw [agenda, agenda, alike.kind]
  cases rule : node.kind.rule with
  | none => exact .nil
  | some rule' =>
    cases rule' with
    | slots slots =>
      exact SameStops.flatMap fun slot _ => sameStops_slotStops envs _ slot (alike.field slot.name)
    | children =>
      simp only [alike.slots_eq rule]
      exact SameStops.flatMap fun slot _ => sameStops_fieldStops envs slot (alike.field slot)
    | program =>
      exact sameStops_bodyStops alike (envs.child.declareAll alike.hoistedNames) .programBody
    | function =>
      exact List.rel_append (sameStops_slotStops envs _ .functionId (alike.field "id"))
        (sameStops_scopeStops alike envs (envs.child.declareAll (alike.hoistedNamesOf "body"))
          .functionParams .functionBody)
    | catchClause =>
      exact sameStops_scopeStops alike envs (envs.child.declareAll alike.hoistedNames)
        .catchParam .catchBody

end

/-! ### Itineraries that correspond -/

namespace Reference

variable {env other : Env} {node next : Node}

theorem picks_of_alike (alike : node.Alike next) : picks next = picks node := by
  rw [picks, picks, alike.kind, alike.isSome_child?]

theorem referenceSlots_of_alike (alike : node.Alike next) :
    next.referenceSlots = node.referenceSlots := by
  have visited : next.visitedSlots = node.visitedSlots := by
    rw [Node.visitedSlots, Node.visitedSlots, alike.kind]
    cases rule : node.kind.rule with
    | none => rfl
    | some rule' =>
      cases rule' with
      | children => exact alike.slots_eq rule
      | _ => rfl
  rw [Node.referenceSlots, Node.referenceSlots, alike.kind, alike.flag, alike.isSome_child?,
    visited]

theorem around_of_alike (alike : node.Alike next) (envs : env.Alike other) :
    (around env node).Alike (around other next) := by
  have own : ownNames next = ownNames node := by
    rw [ownNames, ownNames, alike.kind, alike.name?_child?]
  rw [around, around, alike.kind, own]
  split
  · exact envs.child.declareAll (.of_eq rfl)
  · exact envs.child.declareAll (.of_eq rfl)
  · exact envs.child.declareAll (.of_eq rfl)
  · exact envs

theorem sameStops_stops (alike : node.Alike next) (envs : env.Alike other) :
    SameStops (stops env node) (stops other next) := by
  rw [stops, stops, picks_of_alike alike]
  split
  · rw [referenceSlots_of_alike alike]
    exact SameStops.flatMap fun slot _ => sameStops_fieldStops envs slot (alike.field slot)
  · exact sameStops_agenda alike (around_of_alike alike envs)

/-- The itineraries of a node and its counterpart correspond. -/
theorem sameStops_itinerary (alike : node.Alike next) (envs : env.Alike other) :
    SameStops (itinerary env node) (itinerary other next) := by
  induction size : node.size using Nat.strongRecOn generalizing env other node next with
  | _ bound inductionHypothesis =>
  subst size
  rw [itinerary_eq, itinerary_eq]
  have own : SameStops (ownStops env node) (ownStops other next) := by
    rw [ownStops, ownStops, alike.kind]
    split
    · exact .cons (.visit [] envs alike) .nil
    · exact .nil
  refine List.rel_append own ?_
  refine SameStops.flatMap_related (sameStops_stops alike envs)
    fun stop member counterpart stopsAlike => ?_
  cases stopsAlike with
  | visit address innerEnvs nodes =>
    have smaller := (at?_of_mem_stops member).2
    exact (inductionHypothesis _ smaller nodes innerEnvs rfl).map_under address
  | enter kind names others => exact .nil
  | fault reason => exact .cons (.fault reason) .nil

end Reference

/-! ### The references of a reordered tree -/

/-- A tree with fields in another order is well-formed too. -/
theorem Node.Alike.wellFormed_other {node other : Node} (alike : node.Alike other) :
    other.WellFormed := by
  induction size : node.size using Nat.strongRecOn generalizing node other with
  | _ bound inductionHypothesis =>
  subst size
  refine .intro alike.distinct fun next member => ?_
  obtain ⟨child, found, nodes⟩ := alike.matched_children.backward next member
  exact inductionHypothesis child.size (size_lt_of_mem_children found) nodes rfl

theorem Stop.Alike.reference? {stop other : Stop} (alike : stop.Alike other)
    (options : Reference.Options) : other.reference? options = stop.reference? options := by
  cases alike with
  | visit address envs nodes =>
    rw [Stop.reference?, Stop.reference?, Reference.ofStep?, Reference.ofStep?, nodes.kind,
      nodes.name?, nodes.span?]
    simp only [envs _]
  | enter kind names others => rfl
  | fault reason => rfl

/-- Itineraries that correspond show the same references and the same faults. -/
theorem SameStops.outcome_eq {stops others : List Stop} (same : SameStops stops others)
    (options : Reference.Options) :
    others.findSome? Stop.fault? = stops.findSome? Stop.fault? ∧
      others.filterMap (Stop.reference? options) = stops.filterMap (Stop.reference? options) := by
  induction same with
  | nil => exact ⟨rfl, rfl⟩
  | cons first _ inductionHypothesis =>
    obtain ⟨faults, references⟩ := inductionHypothesis
    rw [List.findSome?_cons, List.findSome?_cons, List.filterMap_cons, List.filterMap_cons,
      first.reference? options, faults, references]
    cases first <;> exact ⟨rfl, rfl⟩

/-- The order of the fields does not matter to the search for free references, at nodes that are not
walked field by field: it gives the same references in the same order, or the same fault. -/
theorem freeReferences_of_reordered (options : Reference.Options) (tree other : Node)
    (wellFormed : tree.WellFormed) (reordered : tree.Reordered other) :
    other.freeReferences options = tree.freeReferences options := by
  have alike : tree.Alike other := ⟨wellFormed, reordered⟩
  have envs : (Env.ofNames options.globals).Alike (.ofNames options.globals) := fun _ => rfl
  obtain ⟨faults, references⟩ := (Reference.sameStops_itinerary alike envs).outcome_eq options
  rw [freeReferences_eq_itinerary options wellFormed,
    freeReferences_eq_itinerary options alike.wellFormed_other, faults, references]

/-- The declaration of a variable by the value of another. -/
def copying (name other : String) : Node :=
  ⟨.variableDeclaration, [("declarations", .list [some ⟨.variableDeclarator,
    [("id", .node (.identifier name)), ("init", .node (.identifier other))]⟩])]⟩

/-- The parts of a conditional statement of which both branches declare a variable. -/
def branches : List (String × Field Node) :=
  [ ("test", .node (.identifier "c")), ("consequent", .node (copying "a" "b")),
    ("alternate", .node (copying "b" "d")) ]

/-- A program of one conditional statement with these fields. -/
def branching (fields : List (String × Field Node)) : Node :=
  ⟨.program, [("body", .list [some ⟨.ifStatement, fields⟩])]⟩

/-- With its branches in the other order the program hoists its names in the other order, and has
the same free references. -/
theorem freeReferences_of_branches_reversed :
    (branching branches).WellFormed ∧ (branching branches).Reordered (branching branches.reverse) ∧
      (branching branches).hoistedNames = ["a", "b"] ∧
      (branching branches.reverse).hoistedNames = ["b", "a"] ∧
      (branching branches).freeReferences ⟨[], []⟩ = .ok [⟨"c", none⟩, ⟨"d", none⟩] ∧
      (branching branches.reverse).freeReferences ⟨[], []⟩ = .ok [⟨"c", none⟩, ⟨"d", none⟩] := by
  have wellFormed : (branching branches).WellFormed := by decide
  have same : List.Forall₂ (Entries.Related (Field.Related Node.Reordered)) branches branches :=
    List.forall₂_same.mpr fun _ _ => .intro _ (.refl fun child _ => .refl child)
  have reordered : (branching branches).Reordered (branching branches.reverse) := by
    refine .kept (.cons (.intro "body" (.list (.cons (.some ?_) .nil))) .nil)
    exact .moved (by decide) same (List.reverse_perm branches).symm
  have found : (branching branches).freeReferences ⟨[], []⟩ = .ok [⟨"c", none⟩, ⟨"d", none⟩] := by
    cbv
  refine ⟨wellFormed, reordered, by cbv, by cbv, found, ?_⟩
  rw [freeReferences_of_reordered ⟨[], []⟩ _ _ wellFormed reordered, found]

end EstreeScopes
