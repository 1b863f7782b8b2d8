/-
This file shows that the search for free references never reports an identifier
that binds a name (`bindings_are_not_reported`).

The names of declarations are visible since hoisted names are. Those of parameters
and caught patterns are declared while the search goes through the pattern, and
those of function and class expressions just before it goes on. After that they
stay visible, since every environment further down shows at least the same names.
-/

import EstreeScopes.Proofs.Coverage

namespace EstreeScopes

/-! ### Visits of identifiers that bind names -/

namespace Reference

variable {env inner : Env} {node target : Node} {address : Address} {name : String}

/-- A pattern without parts is an identifier. -/
theorem eq_identifier_of_madeOfPatterns {pattern : Node} (made : pattern.MadeOfPatterns)
    (noSlot : pattern.kind.patternSlot? = none) : pattern.kind = .identifier := by
  cases made with
  | intro kind _ =>
    rcases kind with isPattern | property
    · unfold Kind.isPattern at isPattern
      split at isPattern
      all_goals simp_all [Kind.patternSlot?]
    · rw [property] at noSlot
      cases noSlot

/-- An identifier that a pattern binds is visited where its name is declared. -/
theorem visible_of_boundAt {outer scope : Env} {pattern deepest : Node} {rest : Address}
    (visit : PatternVisit table.contains outer inner target scope pattern address)
    (made : pattern.MadeOfPatterns) (wellFormed : pattern.WellFormed)
    (bound : pattern.BoundAt (address ++ rest))
    (found : pattern.at? (address ++ rest) = some deepest) (named : deepest.name? = some name) :
    inner.contains name = true := by
  induction visit with
  | handedOver shown =>
    refine shown ▸ Env.contains_declareAll.mpr (Or.inr ?_)
    exact (Node.mem_boundNames_iff wellFormed).mpr ⟨_, deepest, bound, found, named⟩
  | noPattern passed noSlot =>
    rw [eq_identifier_of_madeOfPatterns made noSlot] at passed
    cases passed
  | outside passed patternSlot outerSlot =>
    -- Default values bind nothing, and properties with a key are handed over.
    cases bound with
    | part through =>
      unfold Kind.outerSlot? at outerSlot
      split at outerSlot
      · rename_i kind
        simp_all [Node.bindsThrough]
      · rename_i kind
        rw [kind] at passed
        cases passed
      · cases outerSlot
  | inPart patternSlot inSlot held _ inductionHypothesis =>
    rw [List.cons_append] at bound found
    have inField := Node.mem_nodes_of_held? held
    rw [Node.at?, held] at found
    cases made with
    | intro _ parts =>
      cases bound with
      | part through partHeld partBound =>
        obtain rfl := Option.some.inj (partHeld.symm.trans held)
        exact inductionHypothesis (parts _ patternSlot _ (inSlot ▸ inField))
          (wellFormed.child (Node.mem_children_of_held? held)) partBound found

/-- A binding position in a pattern that is not bound by the pattern is one further below. -/
theorem bindsAt_of_patternVisit {intercepts : Kind → Bool} {outer scope : Env} {pattern : Node}
    {rest : Address} (visit : PatternVisit intercepts outer inner target scope pattern address)
    (binds : pattern.BindsAt (address ++ rest)) : target.BindsAt rest := by
  induction visit with
  | handedOver => exact binds
  | noPattern => exact binds
  | outside _ patternSlot _ held => exact binds.part patternSlot held
  | inPart patternSlot _ held _ inductionHypothesis =>
    exact inductionHypothesis (binds.part patternSlot held)

/-- The name of a function or a class is visible below it. -/
theorem Covers.named (covers : Covers env node) (named : node.kind.isNamed = true)
    (child : node.child? "id" = some target) (text : target.name? = some name) :
    (around env node).contains name = true := by
  have ofChild : name ∈ ((node.child? "id").bind Node.name?).toList := by
    rw [child, Option.bind_some, text]
    exact Option.mem_toList.mpr rfl
  unfold Kind.isNamed at named
  split at named
  case h_1 kind | h_2 kind =>
    refine within_around env node name (covers.declared (by rw [kind]; rfl) ?_)
    rw [Node.declaredNames, kind]
    exact ofChild
  case h_3 kind | h_4 kind =>
    have own : name ∈ ownNames node := by
      rw [ownNames, kind]
      exact List.mem_append_left _ ofChild
    rw [around, kind]
    exact Env.contains_declareAll.mpr (Or.inr own)
  case h_5 => cases named

/-- The names of a declarator are visible. -/
theorem Covers.declarator {pattern : Node} (covers : Covers env node)
    (kind : node.kind = .variableDeclarator) (held : node.child? "id" = some pattern)
    (bound : name ∈ pattern.boundNames) : env.contains name = true := by
  refine covers.declared (by rw [kind]; rfl) ?_
  rw [Node.declaredNames, kind]
  simp only [Node.boundNamesOf, held]
  exact List.mem_flatMap.mpr ⟨pattern, List.mem_singleton.mpr rfl, bound⟩

/-- An identifier that binds a name is visited where the name is visible. -/
theorem visible_of_bindsAt (covers : Covers env node) (wellFormed : node.WellFormed)
    (patterns : node.TakesPatterns) (member : .visit address inner target ∈ itinerary env node)
    (binds : node.BindsAt address) (named : target.name? = some name) :
    inner.contains name = true := by
  induction size : node.size using Nat.strongRecOn generalizing env node address with
  | _ bound inductionHypothesis =>
  subst size
  have found := at?_of_mem_itinerary member
  obtain ⟨rfl, _, _⟩ | ⟨first, middle, child, rest, rfl, stopMember, visited⟩ :=
    mem_itinerary member
  · cases binds
  obtain ⟨childFound, smaller⟩ := at?_of_mem_stops stopMember
  have visits := visitsFrom_of_mem_stops stopMember
  have below : middle.Within inner := within_of_mem_itinerary visited
  have further (binds : child.BindsAt rest) : inner.contains name = true :=
    inductionHypothesis child.size smaller (covers.step (within_around env node) visits)
      (wellFormed.at? childFound) (patterns.at? childFound) visited binds rfl
  -- The name of a function or a class is visible at all visits below, whatever their sort.
  have ofName (owns : node.kind.isNamed = true) (single : first ++ rest = [⟨"id", none⟩]) :
      inner.contains name = true := by
    rw [single, Node.at?, Node.held?_single, Option.bind_eq_some_iff] at found
    obtain ⟨only, only?, same⟩ := found
    obtain rfl := Option.some.inj same
    exact below name (visits.within name (covers.named owns only? named))
  cases visits with
  | directly visits =>
    obtain ⟨owns, single⟩ | ⟨pattern, held, inside | ⟨owns, bound⟩⟩ := binds.of_cons
    · exact ofName owns single
    · obtain rfl := Option.some.inj (held.symm.trans visits.held)
      exact further inside
    · have kind := visits.noPattern owns
      rw [kind] at owns
      obtain rfl := eq_of_beq owns
      rw [List.singleton_append, Node.at?, held] at found
      have bound := (Node.mem_boundNames_iff
        (wellFormed.child (Node.mem_children_of_held? held))).mpr
          ⟨rest, target, bound, found, named⟩
      rw [Node.held?_single] at held
      exact below name (visits.within name
        (within_around env node name (covers.declarator kind held bound)))
  | inPattern held ofScope _ _ _ visit =>
    obtain ⟨owns, single⟩ | ⟨_, partHeld, inside | ⟨_, bound⟩⟩ := binds.of_cons
    · exact ofName owns single
    · obtain rfl := Option.some.inj (partHeld.symm.trans held)
      exact further (bindsAt_of_patternVisit visit inside)
    · obtain rfl := Option.some.inj (partHeld.symm.trans held)
      rw [List.cons_append, Node.at?, held] at found
      exact below name (visible_of_boundAt visit (patterns.here _ ofScope)
        (wellFormed.child (Node.mem_children_of_held? held)) bound found named)

end Reference

/-! ### Binding positions in the outcome -/

/-- There is no scope around a program, and it needs none. -/
theorem Node.Hoists.covers {tree : Node} (program : tree.kind = .program)
    (hoists : tree.Hoists Kind.shieldsOrImports false) (env : Env) :
    Reference.Covers env tree := by
  refine ⟨true, .intro (fun declaration => ?_) fun entry member child inEntry => ?_,
    fun absurd => nomatch absurd⟩
  · rw [program] at declaration
    cases declaration
  · have inside := (Node.hoists_iff.mp hoists).2 entry member child inEntry
    rw [program] at inside ⊢
    exact inside

/-- An identifier that is visible shows no free reference. -/
theorem reference?_of_visible {options : Reference.Options} {address : Address} {env : Env}
    {node : Node} (visible : ∀ name, node.name? = some name → env.contains name = true) :
    (Stop.visit address env node).reference? options = none := by
  rw [Stop.reference?, Reference.ofStep?]
  split
  · cases named : node.name? with
    | none => rfl
    | some name => simp [visible name named]
  · rfl

/-- The search for free references in a program reports no identifier that binds a name, if its
parameters and caught patterns are made of patterns and no declaration is shielded from the
innermost program, function body or catch body around it. The patterns of declarators may be
anything. The search hands over the nodes of its itinerary, which stand at their addresses, and the
references that it gives are those that these nodes show. A node that binds a name shows none. -/
theorem bindings_are_not_reported (options : Reference.Options) (tree : Node)
    (program : tree.kind = .program) (wellFormed : tree.WellFormed)
    (patterns : tree.TakesPatterns) (hoists : tree.Hoists Kind.shieldsOrImports false)
    (references : List Reference) (found : tree.freeReferences options = .ok references) :
    let stops := Reference.itinerary (.ofNames options.globals) tree
    handOvers (Reference.search options tree).log = stops.filterMap Stop.handOver? ∧
      references = stops.filterMap (Stop.reference? options) ∧
      ∀ address env node, .visit address env node ∈ stops →
        tree.at? address = some node ∧
          (tree.BindsAt address → (Stop.visit address env node).reference? options = none) := by
  intro stops
  obtain ⟨handedOver, shown⟩ := search_of_ok options wellFormed found
  refine ⟨handedOver, shown, fun address env node member => ?_⟩
  refine ⟨Reference.at?_of_mem_itinerary member, fun binds => reference?_of_visible ?_⟩
  intro name named
  exact Reference.visible_of_bindsAt (hoists.covers program _) wellFormed patterns member binds
    named

/-- A program with a destructured variable, a parameter with a default value, a caught exception and
a named class. -/
def manyBindings : Node :=
  ⟨.program, [("body", .list
    [ some ⟨.variableDeclaration, [("declarations", .list [some ⟨.variableDeclarator,
        [ ("id", .node ⟨.objectPattern, [("properties", .list [some ⟨.property,
            [ ("key", .node (.identifier "a")),
              ("value", .node ⟨.assignmentPattern,
                [("left", .node (.identifier "b")), ("right", .node (.identifier "c"))]⟩) ]⟩])]⟩),
          ("init", .node (.identifier "d")) ]⟩])]⟩,
      some ⟨.functionDeclaration,
        [ ("id", .node (.identifier "f")),
          ("params", .list [some ⟨.assignmentPattern,
            [("left", .node (.identifier "g")), ("right", .node (.identifier "h"))]⟩]),
          ("body", .node ⟨.blockStatement, [("body", .list [])]⟩) ]⟩,
      some ⟨.tryStatement,
        [ ("block", .node ⟨.blockStatement, [("body", .list [])]⟩),
          ("handler", .node ⟨.catchClause,
            [ ("param", .node (.identifier "e")),
              ("body", .node ⟨.blockStatement, [("body", .list [])]⟩) ]⟩) ]⟩,
      some ⟨.expressionStatement, [("expression", .node ⟨.classExpression,
        [ ("id", .node (.identifier "k")),
          ("body", .node ⟨.classBody, [("body", .list [])]⟩) ]⟩)]⟩ ])]⟩

theorem manyBindings_wellFormed : manyBindings.WellFormed := by decide

theorem manyBindings_takesPatterns : manyBindings.TakesPatterns := by decide

theorem manyBindings_hoists : manyBindings.Hoists Kind.shieldsOrImports false := by decide

/-- The variable `b` is bound deep in the pattern of the declarator. -/
def addressOfB : Address :=
  [ ⟨"body", some 0⟩, ⟨"declarations", some 0⟩, ⟨"id", none⟩, ⟨"properties", some 0⟩,
    ⟨"value", none⟩, ⟨"left", none⟩ ]

theorem manyBindings_bindsAt : manyBindings.BindsAt addressOfB :=
  .further rfl (.further rfl (.pattern rfl rfl
    (.part rfl rfl (.part rfl rfl (.part rfl rfl (.identifier rfl))))))

theorem manyBindings_visited :
    .visit addressOfB ((Env.ofNames []).child.declareAll manyBindings.hoistedNames)
        (.identifier "b") ∈ Reference.itinerary (.ofNames []) manyBindings := by
  refine Reference.mem_itinerary_of_stop 1 rfl ?_
  iterate 5 refine Reference.mem_itinerary_of_stop 0 rfl ?_
  exact Reference.self_mem_itinerary rfl

/-- The search comes to the binding of `b` and reports only what the program takes from outside. -/
theorem bindings_in_manyBindings_are_not_reported :
    manyBindings.kind = .program ∧ manyBindings.WellFormed ∧ manyBindings.TakesPatterns ∧
      manyBindings.Hoists Kind.shieldsOrImports false ∧
      manyBindings.freeReferences ⟨[], []⟩ = .ok [⟨"c", none⟩, ⟨"d", none⟩, ⟨"h", none⟩] ∧
      manyBindings.BindsAt addressOfB ∧
      ∃ env, .visit addressOfB env (.identifier "b") ∈
          Reference.itinerary (.ofNames []) manyBindings ∧
        (Stop.visit addressOfB env (.identifier "b")).reference? ⟨[], []⟩ = none := by
  have found : manyBindings.freeReferences ⟨[], []⟩ =
      .ok [⟨"c", none⟩, ⟨"d", none⟩, ⟨"h", none⟩] := by cbv
  have shown := (bindings_are_not_reported ⟨[], []⟩ manyBindings rfl manyBindings_wellFormed
    manyBindings_takesPatterns manyBindings_hoists _ found).2.2 _ _ _ manyBindings_visited
  exact ⟨rfl, manyBindings_wellFormed, manyBindings_takesPatterns, manyBindings_hoists, found,
    manyBindings_bindsAt, _, manyBindings_visited, shown.2 manyBindings_bindsAt⟩

/-- A program with a declarator in the slot of an import specifier that holds the name in the other
module. Hoisting takes the local name of an import specifier only, and it does not get to `x`. -/
def declaratorInImport : Node :=
  ⟨.program, [("body", .list [some ⟨.importSpecifier,
    [ ("imported", .node ⟨.variableDeclarator,
        [("id", .node (.identifier "x")), ("init", .absent)]⟩),
      ("local", .absent) ]⟩])]⟩

def addressOfX : Address :=
  [⟨"body", some 0⟩, ⟨"imported", none⟩, ⟨"id", none⟩]

theorem declaratorInImport_visited :
    .visit addressOfX ((Env.ofNames []).child.declareAll declaratorInImport.hoistedNames)
        (.identifier "x") ∈ Reference.itinerary (.ofNames []) declaratorInImport := by
  refine Reference.mem_itinerary_of_stop 1 rfl ?_
  iterate 2 refine Reference.mem_itinerary_of_stop 0 rfl ?_
  exact Reference.self_mem_itinerary rfl

/-- Import specifiers have to be left out: no declarator, function, class or caught pattern shields
the declarator of `x`, and still its binding is reported. -/
theorem binding_in_import_is_reported :
    declaratorInImport.kind = .program ∧ declaratorInImport.WellFormed ∧
      declaratorInImport.GrammaticalPatterns ∧ (Node.identifier "x").Grammatical ∧
      declaratorInImport.Hoists Kind.shields false ∧
      declaratorInImport.freeReferences ⟨[], []⟩ = .ok [⟨"x", none⟩] ∧
      declaratorInImport.BindsAt addressOfX ∧
      ∃ env, .visit addressOfX env (.identifier "x") ∈
          Reference.itinerary (.ofNames []) declaratorInImport ∧
        (Stop.visit addressOfX env (.identifier "x")).reference? ⟨[], []⟩ = some ⟨"x", none⟩ := by
  exact ⟨rfl, by decide, by decide, by decide, by decide, by cbv,
    .further rfl (.further rfl (.pattern rfl rfl (.identifier rfl))), _,
    declaratorInImport_visited, by cbv⟩

end EstreeScopes
