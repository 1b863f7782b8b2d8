/-
This file compares the two ways in which the names of a parameter are found. A
walk declares them on its way through the parts of the pattern, and everything
that is no pattern is visited like any other node. The names that are listed for a
pattern are collected on their own: what is no pattern is searched through all its
fields.

So the two agree as long as names stand in place. A part that is no pattern, and
a node that an object or array pattern holds beside its parts, must hold no names
that would be collected, and no property may be the value of a property, since
then the names of both are declared. Any other node may be a parameter, with any
further fields (`walked_patterns_declare_bound_names`). Names out of place are
taken for names of the scope by the one side only (`names_out_of_place`).
-/

import EstreeScopes.Proofs.Interception

namespace EstreeScopes

namespace Node

/-! ### Names in place -/

/-- No names are bound below a node except in one slot. -/
def BindsOnlyIn (node : Node) (slot : String) : Prop :=
  ∀ entry ∈ node.fields, entry.1 ≠ slot → entry.2.nodes.flatMap boundNames = []

/-- A pattern holds names only where a walk looks for them: of a pattern with a list of parts these
are the parts, and what is no pattern holds none. The value of a property is no property. -/
def NamesInPlace (pattern : Node) : Prop :=
  match pattern.kind with
  | .identifier | .assignmentPattern | .restElement => True
  | .property => ∀ value, pattern.child? "value" = some value → value.kind ≠ .property
  | .objectPattern => pattern.BindsOnlyIn "properties"
  | .arrayPattern => pattern.BindsOnlyIn "elements"
  | _ => pattern.boundNames = []

instance (node : Node) (slot : String) : Decidable (node.BindsOnlyIn slot) :=
  inferInstanceAs
    (Decidable (∀ entry ∈ node.fields, entry.1 ≠ slot → entry.2.nodes.flatMap boundNames = []))

/-- The places of names, kind by kind. -/
theorem namesInPlace_iff {pattern : Node} :
    pattern.NamesInPlace ↔
      pattern.kind ∈ [.identifier, .assignmentPattern, .restElement] ∨
        (pattern.kind = .property ∧
          ((pattern.child? "value").all fun value => value.kind ≠ .property) = true) ∨
        (pattern.kind = .objectPattern ∧ pattern.BindsOnlyIn "properties") ∨
        (pattern.kind = .arrayPattern ∧ pattern.BindsOnlyIn "elements") ∨
        (pattern.kind.isPattern = false ∧ pattern.kind ≠ .property ∧ pattern.boundNames = []) := by
  have property : (∀ value, pattern.child? "value" = some value → value.kind ≠ .property) ↔
      ((pattern.child? "value").all fun value => value.kind ≠ .property) = true := by
    cases pattern.child? "value" <;> simp
  rw [NamesInPlace, ← property]
  cases pattern.kind <;> simp [Kind.isPattern]

instance : DecidablePred NamesInPlace := fun _ => decidable_of_iff' _ namesInPlace_iff

/-- The names of a pattern are in place, and so are those of its parts. The value of a property is a
part only if it is a pattern. -/
inductive BindsInPlace : Node → Prop
  | intro {pattern : Node} (here : pattern.NamesInPlace)
      (parts : ∀ slot, pattern.kind.patternSlot? = some slot →
        ∀ part ∈ (pattern.field slot.name).nodes,
          (pattern.kind = .property → part.kind.isPattern = true) → BindsInPlace part) :
      BindsInPlace pattern

theorem bindsInPlace_iff {pattern : Node} :
    pattern.BindsInPlace ↔ pattern.NamesInPlace ∧ ∀ part ∈ pattern.patternParts,
      (pattern.kind = .property → part.kind.isPattern = true) → part.BindsInPlace := by
  rw [forall_patternParts]
  exact ⟨fun ⟨here, parts⟩ => ⟨here, parts⟩, fun ⟨here, parts⟩ => .intro here parts⟩

instance : DecidablePred BindsInPlace :=
  recBySize fun pattern below =>
    letI : Decidable (∀ part ∈ pattern.patternParts,
        (pattern.kind = .property → part.kind.isPattern = true) → part.BindsInPlace) :=
      decideEach pattern.patternParts fun part member =>
        letI := below part (size_lt_of_mem_patternParts member)
        inferInstance
    decidable_of_iff' _ bindsInPlace_iff

/-! ### What a walk declares -/

/-- Nothing is declared by a node that is neither a pattern nor a property. -/
theorem registered_of_noPattern {intercepts : Kind → Bool} {node : Node}
    (passed : ¬ intercepts node.kind = true) (noPattern : node.kind.isPattern = false)
    (noProperty : node.kind ≠ .property) : node.registered intercepts = [] := by
  have noSlot : node.kind.patternSlot? = none := by
    unfold Kind.patternSlot?
    split <;> simp_all [Kind.isPattern]
  have noIdentifier : node.kind ≠ .identifier := fun kind => by
    rw [kind] at noPattern
    cases noPattern
  rw [registered_eq, if_neg passed, noSlot, if_neg noIdentifier]

section

variable {intercepts : Kind → Bool} {pattern : Node}

/-- A pattern whose names come from the nodes of one slot declares what it binds, if the parts in
the slot do. -/
theorem registered_of_parts (passed : ¬ intercepts pattern.kind = true) {slot : Slot}
    (patternSlot : pattern.kind.patternSlot? = some slot)
    (bound : pattern.boundNames =
      pattern.keyNames ++ (pattern.field slot.name).nodes.flatMap boundNames)
    (each : ∀ part ∈ (pattern.field slot.name).nodes,
      part.registered intercepts = part.boundNames) :
    pattern.registered intercepts = pattern.boundNames := by
  rw [registered_eq, if_neg passed, patternSlot, bound]
  exact congrArg _ (List.flatMap_congr each)

/-- A property whose value is no pattern binds the names of its key, and declares them. -/
theorem registered_of_keyed (passed : ∀ kind, ¬ intercepts kind = true)
    (kind : pattern.kind = .property) {value : Node} (held : pattern.field "value" = .node value)
    (noPattern : value.kind.isPattern = false) (noProperty : value.kind ≠ .property) :
    pattern.registered intercepts = pattern.boundNames := by
  have found : pattern.child? "value" = some value := by rw [child?_eq_field, held]
  have silent := registered_of_noPattern (passed value.kind) noPattern noProperty
  have patternSlot : pattern.kind.patternSlot? = some (.node "value") := by rw [kind]; rfl
  rw [registered_eq, if_neg (passed pattern.kind), patternSlot, boundNames_eq]
  simp [kind, bindingParts, keyNames, boundNamesOf, found, noPattern, Slot.node, held, Field.nodes,
    silent]

/-- A property declares what it binds, if its value does or is no pattern. -/
theorem registered_of_property (passed : ∀ kind, ¬ intercepts kind = true)
    (kind : pattern.kind = .property) (here : pattern.NamesInPlace)
    (distinct : pattern.slots.Nodup) {slot : Slot}
    (patternSlot : pattern.kind.patternSlot? = some slot)
    (accepted : slot.accepts (pattern.field slot.name) = true)
    (each : ∀ part ∈ (pattern.field slot.name).nodes,
      (pattern.kind = .property → part.kind.isPattern = true) →
        part.registered intercepts = part.boundNames) :
    pattern.registered intercepts = pattern.boundNames := by
  obtain rfl : .node "value" = slot := by
    rw [kind] at patternSlot
    exact Option.some.inj patternSlot
  have named : (Slot.node "value").name = "value" := rfl
  have byParts (shape : pattern.PatternShape)
      (patterns : ∀ part ∈ (pattern.field "value").nodes, part.kind.isPattern = true) :
      pattern.registered intercepts = pattern.boundNames :=
    registered_of_parts (passed _) patternSlot
      (boundNames_of_shape shape distinct patternSlot accepted)
      fun part member => each part member fun _ => patterns part member
  rw [NamesInPlace, kind] at here
  rw [PatternShape, kind] at byParts
  rw [named] at accepted
  cases held : pattern.field "value" with
  | absent =>
    refine byParts (Or.inl held) ?_
    rw [held]
    exact fun part member => absurd member List.not_mem_nil
  | node value =>
    have found : pattern.child? "value" = some value := by rw [child?_eq_field, held]
    cases isPattern : value.kind.isPattern with
    | true =>
      refine byParts (Or.inr ⟨value, held, isPattern⟩) ?_
      rw [held]
      exact List.forall_mem_singleton.mpr isPattern
    | false => exact registered_of_keyed passed kind held isPattern (here value found)
  | list items =>
    rw [held] at accepted
    cases accepted
  | value plain =>
    rw [held] at accepted
    cases accepted

end

/-- What a pattern with its names in place binds is bound in the slot with its parts. -/
theorem boundNames_of_namesInPlace {pattern : Node} (here : pattern.NamesInPlace)
    (distinct : pattern.slots.Nodup) (noProperty : pattern.kind ≠ .property) {slot : Slot}
    (patternSlot : pattern.kind.patternSlot? = some slot)
    (accepted : slot.accepts (pattern.field slot.name) = true) :
    pattern.boundNames =
      pattern.keyNames ++ (pattern.field slot.name).nodes.flatMap boundNames := by
  rw [NamesInPlace] at here
  have listed {only : String} (bindsOnly : pattern.BindsOnlyIn only) :
      pattern.children.flatMap boundNames = (pattern.field only).nodes.flatMap boundNames :=
    flatMap_children boundNames distinct bindsOnly
  have shape : pattern.kind = .assignmentPattern ∨ pattern.kind = .restElement →
      pattern.PatternShape := by
    rintro (kind | kind) <;> rw [PatternShape, kind] <;> trivial
  cases kind : pattern.kind with
  | assignmentPattern =>
    exact boundNames_of_shape (shape (Or.inl kind)) distinct patternSlot accepted
  | restElement =>
    exact boundNames_of_shape (shape (Or.inr kind)) distinct patternSlot accepted
  | objectPattern =>
    rw [kind] at here patternSlot
    obtain rfl := Option.some.inj patternSlot
    rw [← show _ = (pattern.field (Slot.list "properties").name).nodes.flatMap _ from listed here]
    simp [boundNames_eq pattern, kind, bindingParts, keyNames]
  | arrayPattern =>
    rw [kind] at here patternSlot
    obtain rfl := Option.some.inj patternSlot
    rw [← show _ = (pattern.field (Slot.list "elements").name).nodes.flatMap _ from listed here]
    simp [boundNames_eq pattern, kind, bindingParts, keyNames]
  | property => exact absurd kind noProperty
  | _ =>
    rw [kind] at patternSlot
    cases patternSlot

/-- A pattern with its names in place declares the names it binds when it is walked part by part. -/
theorem BindsInPlace.registersBound {intercepts : Kind → Bool}
    (passed : ∀ kind, ¬ intercepts kind = true) {pattern : Node}
    (inPlace : pattern.BindsInPlace) (wellFormed : pattern.WellFormed) :
    pattern.RegistersBound intercepts := by
  induction inPlace with
  | @intro pattern here _ inductionHypothesis =>
    intro outer scope faultFree
    cases patternSlot : pattern.kind.patternSlot? with
    | none =>
      rw [registered_eq, if_neg (passed pattern.kind), patternSlot]
      by_cases identifier : pattern.kind = .identifier
      · rw [if_pos identifier, boundNames_eq, if_pos identifier]
      · rw [if_neg identifier]
        rw [NamesInPlace] at here
        split at here
        all_goals first | exact here.symm | simp_all [Kind.patternSlot?]
    | some slot =>
      obtain ⟨accepted, partsFree⟩ := faultFree.of_patternStops (passed _) patternSlot
      have each (part : Node) (member : part ∈ (pattern.field slot.name).nodes)
          (isPart : pattern.kind = .property → part.kind.isPattern = true) :
          part.registered intercepts = part.boundNames := by
        obtain ⟨_, partFree⟩ := partsFree part member
        exact inductionHypothesis slot patternSlot part member isPart
          (wellFormed.child (mem_children_of_mem_nodes member)) _ _ partFree
      by_cases property : pattern.kind = .property
      · exact registered_of_property passed property here wellFormed.here patternSlot accepted each
      · exact registered_of_parts (passed _) patternSlot
          (boundNames_of_namesInPlace here wellFormed.here property patternSlot accepted)
          fun part member => each part member fun kind => absurd kind property

end Node

/-! ### The frame of a walk without transforms -/

/-- The names that are listed for a scope have no repeats, so its frame holds them as they are. -/
theorem names_declareAll_of_scope? {node : Node} {depth : Nat} {scope : Scope}
    (opens : node.scope? depth = some scope) (env : Env) :
    (env.child.declareAll scope.names).names = scope.names := by
  obtain ⟨names, _, rfl⟩ := Option.map_eq_some_iff.mp opens
  show addNames [] (addNames [] names) = addNames [] names
  have distinct := nodup_addNames List.nodup_nil names
  rw [addNames_eq_eraseDups List.nodup_nil (addNames [] names), List.nil_append,
    eraseDups_of_nodup distinct]

/-- A walk without transforms declares the names that a pattern binds, as long as names are in
place: the frame then holds the names it held before and those of the pattern, each at its first
occurrence, and the frames around it are as they were. So the body of a scope whose patterns have
their names in place is walked in a new frame with exactly the names that are listed for it. -/
theorem walked_patterns_declare_bound_names (budget : Nat) :
    (∀ (outer scope : Env) (pattern : Node), pattern.WellFormed → pattern.BindsInPlace →
      ∀ (log : List Step) (after : Env) (walked : Option Node),
        (Table.empty.walker budget).walkPattern outer scope pattern =
            ⟨log, .ok (after, walked)⟩ →
          after.outer = scope.outer ∧
          after.names = scope.names ++ (pattern.boundNames.removeAll scope.names).eraseDups ∧
          (scope.names.Nodup → after.names = (scope.names ++ pattern.boundNames).eraseDups)) ∧
      ∀ (env : Env) (node : Node) (depth : Nat) (scope : Scope), node.WellFormed →
        (∀ pattern ∈ node.scopePatterns, pattern.BindsInPlace) →
        node.scope? depth = some scope →
        ∀ (log : List Step) (walked : Node),
          (Table.empty.walker budget).descend env node = ⟨log, .ok walked⟩ →
            (env.child.declareAll scope.names).names = scope.names ∧
            (Table.empty.walker budget).WalksBody env node scope.names log := by
  constructor
  · intro outer scope pattern wellFormed inPlace log after walked ok
    have bound : pattern.RegistersBound (Table.empty.walker budget).intercepts :=
      inPlace.registersBound Table.empty_passes wellFormed
    rw [Walker.walkPattern_of_registersBound wellFormed bound ok]
    exact ⟨rfl, addNames_eq_append _ _, fun distinct => addNames_eq_eraseDups distinct _⟩
  · intro env node depth scope wellFormed inPlace opens log walked ok
    have holds := names_declareAll_of_scope? opens env
    refine ⟨holds, ?_⟩
    obtain ⟨names, listed, rfl⟩ := Option.map_eq_some_iff.mp opens
    have walks := Walker.walksBody_of_registersBound wellFormed (fun pattern member =>
      (inPlace pattern member).registersBound Table.empty_passes
        (wellFormed.child (Node.mem_children_of_mem_scopePatterns member))) listed ok
    have sameFrame : env.child.declareAll (addNames [] names) = env.child.declareAll names :=
      congrArg (Env.mk · _) holds
    rw [Walker.WalksBody, sameFrame]
    exact walks

/-- A parameter with a property whose value is no pattern, an annotated identifier, a part that is
no pattern at all, and an annotation. -/
def oddParameter : Node :=
  ⟨.objectPattern,
    [ ("properties", .list
        [ some ⟨.property,
            [ ("key", .node (.identifier "a")),
              ("value", .node ⟨.memberExpression,
                [("object", .node (.identifier "o")), ("property", .node (.identifier "p"))]⟩) ]⟩,
          some ⟨.restElement, [("argument", .node ⟨.identifier,
            [ ("name", .value (.string "r")),
              ("typeAnnotation", .node ⟨.other "TSTypeReference",
                [("typeName", .node (.identifier "T"))]⟩) ]⟩)]⟩,
          some ⟨.literal, [("value", .value (.bool true))]⟩ ]),
      ("typeAnnotation", .node ⟨.other "TSAnyKeyword", []⟩) ]⟩

/-- A function with this parameter. -/
def takesOddParameter : Node :=
  ⟨.functionExpression,
    [ ("params", .list [some oddParameter]),
      ("body", .node ⟨.blockStatement, [("body", .list [])]⟩) ]⟩

theorem takesOddParameter_wellFormed : takesOddParameter.WellFormed := by decide

theorem oddParameter_bindsInPlace : oddParameter.BindsInPlace := by decide +kernel

theorem oddParameter_declared :
    oddParameter.WellFormed ∧ oddParameter.BindsInPlace ∧ takesOddParameter.WellFormed ∧
      (∃ log after walked,
        (Table.empty.walker 9).walkPattern .root (.ofNames ["r"]) oddParameter =
          ⟨log, .ok (after, walked)⟩ ∧ after.names = ["r", "a"]) ∧
      ∃ log walked, (Table.empty.walker 9).descend .root takesOddParameter = ⟨log, .ok walked⟩ ∧
        (Table.empty.walker 9).WalksBody .root takesOddParameter ["a", "r"] log := by
  have wellFormed : oddParameter.WellFormed :=
    takesOddParameter_wellFormed.child (by simp [takesOddParameter, Node.children, Field.nodes])
  obtain ⟨patterns, scopes⟩ := walked_patterns_declare_bound_names 9
  obtain ⟨patternLog, ⟨after, walkedPattern⟩, patternOk⟩ := Run.exists_eq_ok
    (show ((Table.empty.walker 9).walkPattern .root (.ofNames ["r"]) oddParameter).outcome.isOk =
      true by cbv)
  obtain ⟨log, walked, ok⟩ := Run.exists_eq_ok
    (show ((Table.empty.walker 9).descend .root takesOddParameter).outcome.isOk = true by cbv)
  have declared := (patterns _ _ _ wellFormed oddParameter_bindsInPlace _ _ _ patternOk).2.1
  have bound : oddParameter.boundNames = ["a", "r"] := by cbv
  refine ⟨wellFormed, oddParameter_bindsInPlace, takesOddParameter_wellFormed,
    ⟨patternLog, after, walkedPattern, patternOk, ?_⟩, log, walked, ok, ?_⟩
  · rw [declared, bound]
    decide
  · have listed : takesOddParameter.scope? 0 =
        some ⟨.functionExpression, none, 0, ["a", "r"]⟩ := by cbv
    exact (scopes .root takesOddParameter 0 _ takesOddParameter_wellFormed
      (List.forall_mem_singleton.mpr oddParameter_bindsInPlace) listed log walked ok).2

/-! ### Names out of place -/

/-- The names of an empty frame after a pattern is walked in it without transforms. -/
def namesAfter (pattern : Node) : Except Fault (List String) :=
  ((Table.empty.walker 9).walkPattern .root .root pattern).outcome.map fun (after, _) => after.names

/-- A parameter of a kind outside the schema. -/
def parameterProperty : Node :=
  ⟨.other "TSParameterProperty", [("parameter", .node (.identifier "x"))]⟩

/-- An empty object pattern with an annotation that holds a name. -/
def annotatedPattern : Node :=
  ⟨.objectPattern,
    [ ("properties", .list []),
      ("typeAnnotation", .node ⟨.other "TSTypeReference",
        [("typeName", .node (.identifier "T"))]⟩) ]⟩

/-- A property that is the value of a property. -/
def nestedProperty : Node :=
  ⟨.property,
    [ ("key", .node (.identifier "a")),
      ("value", .node ⟨.property, [("key", .node (.identifier "b"))]⟩) ]⟩

/-- A function with a parameter of a kind outside the schema. -/
def takesParameterProperty : Node :=
  ⟨.functionExpression,
    [ ("params", .list [some parameterProperty]),
      ("body", .node ⟨.blockStatement, [("body", .list [])]⟩) ]⟩

/-- Names out of place are names of the scope to one side only. A walk declares none of those below
a part that is no pattern or beside the parts of a pattern, and it declares the names of a property
that is the value of another. -/
theorem names_out_of_place :
    (namesAfter parameterProperty = .ok [] ∧ parameterProperty.boundNames = ["x"]) ∧
      (namesAfter annotatedPattern = .ok [] ∧ annotatedPattern.boundNames = ["T"]) ∧
      (namesAfter nestedProperty = .ok ["a", "b"] ∧ nestedProperty.boundNames = ["a"]) ∧
      takesParameterProperty.WellFormed ∧
      (takesParameterProperty.scope? 0).map Scope.names = some ["x"] ∧
      ((Table.empty.walker 9).descend .root takesParameterProperty).outcome.isOk = true ∧
      entries ((Table.empty.walker 9).descend .root takesParameterProperty).log =
        [(.functionExpression, [])] := by
  exact ⟨⟨by cbv, by cbv⟩, ⟨by cbv, by cbv⟩, ⟨by cbv, by cbv⟩, by decide, by cbv, by cbv,
    by cbv⟩

end EstreeScopes
