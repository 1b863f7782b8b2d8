/-
This file shows that interception does not change which names a scope has. A
pattern that a transform takes declares its names all at once, and one that is
walked part by part declares them one by one, while transforms replace the very
nodes that the names come from. For a grammatical pattern the frame that comes
out is the same in all cases: the names that were there, and then the names that
the pattern bound before the walk.

So the body of a scope is walked under the same names whatever the table is: the
names that are listed for the scope, in a frame of their own.
-/

import EstreeScopes.Proofs.Entered

namespace EstreeScopes

namespace Walker

variable {walker : Walker} {outer scope env : Env} {log : List Step}

/-! ### The frame after a pattern -/

/-- Walking a pattern that declares what it binds leaves the frame with the names that the pattern
bound before. -/
theorem walkPattern_of_registersBound {pattern : Node} (wellFormed : pattern.WellFormed)
    (bound : pattern.RegistersBound walker.intercepts) {after : Env} {walked : Option Node}
    (ok : walker.walkPattern outer scope pattern = ⟨log, .ok (after, walked)⟩) :
    after = scope.declareAll pattern.boundNames := by
  rw [walkPattern_eq walker.editsBy_visitEdits wellFormed] at ok
  obtain ⟨made, followed, equal⟩ := Run.bind_pure_eq_ok.mp ok
  rw [← (Prod.mk.inj equal).1, bound outer scope (followed_of_follow followed).faultFree]

/-- Walking a grammatical pattern declares the names that it bound before. -/
theorem walkPattern_declares {pattern : Node} (wellFormed : pattern.WellFormed)
    (grammatical : pattern.Grammatical) {after : Env} {walked : Option Node}
    (ok : walker.walkPattern outer scope pattern = ⟨log, .ok (after, walked)⟩) :
    after = scope.declareAll pattern.boundNames :=
  walkPattern_of_registersBound wellFormed (grammatical.registersBound wellFormed) ok

/-! ### The frame of a body -/

/-- The last thing that a run does is to enter the body of a node and to walk it, inside a new frame
with the given names. -/
def WalksBody (walker : Walker) (env : Env) (node : Node) (names : List String)
    (log : List Step) : Prop :=
  let inner := env.child.declareAll names
  ∃ early late body held, body.name = "body" ∧
    log = early ++ .entered node.kind inner.names :: late ∧
    walker.visitSlotField inner node.kind body (node.field "body") = ⟨late, .ok held⟩

theorem exists_of_follow_append {editor : Env → Node → Run Edits} {first second : List Stop}
    {edits : Edits} (ok : follow editor (first ++ second) = ⟨log, .ok edits⟩) :
    ∃ early made late others, follow editor first = ⟨early, .ok made⟩ ∧
      follow editor second = ⟨late, .ok others⟩ ∧ log = early ++ late := by
  rw [follow_append] at ok
  obtain ⟨early, made, _, inFirst, rest, rfl⟩ := Run.bind_eq_ok.mp ok
  obtain ⟨others, inSecond, _⟩ := Run.bind_pure_eq_ok.mp rest
  exact ⟨early, made, _, others, inFirst, inSecond, rfl⟩

theorem walksBody_of_follow {node : Node} {names : List String} {body : Slot}
    (wellFormed : node.WellFormed) (named : body.name = "body") {edits : Edits}
    (followed : follow walker.visitEdits (bodyStops (env.child.declareAll names) node body) =
      ⟨log, .ok edits⟩) : walker.WalksBody env node names log := by
  obtain ⟨_, _, late, recorded, inBody, rfl⟩ := Run.bind_eq_ok.mp followed
  obtain ⟨rfl, _⟩ := Run.mk.inj recorded
  rw [named] at inBody
  have visited := visitSlotField_eq walker.editsBy_visitEdits (env.child.declareAll names) node.kind
    body _ (wellFormed_of_mem_nodes wellFormed "body")
  rw [inBody] at visited
  exact ⟨[], late, body, _, named, rfl, visited.trans
    (Run.bind_eq_ok.mpr ⟨late, edits, [], rfl, rfl, (List.append_nil late).symm⟩)⟩

theorem WalksBody.append {node : Node} {names : List String} {late : List Step}
    (walks : walker.WalksBody env node names late) (early : List Step) :
    walker.WalksBody env node names (early ++ late) := by
  obtain ⟨before, after, body, held, named, rfl, visited⟩ := walks
  exact ⟨early ++ before, after, body, held, named, (List.append_assoc _ _ _).symm, visited⟩

/-- The patterns of a scope and then its body: the body is walked under the names that the scope had
before, and those that its patterns bind. -/
theorem walksBody_of_follow_scopeStops {node : Node} {names : List String} {patterns body : Slot}
    (wellFormed : node.WellFormed)
    (bound : ∀ pattern ∈ node.scopePatterns, pattern.RegistersBound walker.intercepts)
    (inSlot : (node.field patterns.name).nodes = node.scopePatterns) (named : body.name = "body")
    {edits : Edits}
    (followed : follow walker.visitEdits (scopeStops walker.intercepts env
      (env.child.declareAll names) node patterns body) = ⟨log, .ok edits⟩) :
    patterns.accepts (node.field patterns.name) = true ∧
      walker.WalksBody env node (names ++ node.scopePatterns.flatMap Node.boundNames) log := by
  obtain ⟨early, _, late, _, inPatterns, inBody, rfl⟩ := exists_of_follow_append followed
  have faultFree := (followed_of_follow inPatterns).faultFree
  rw [← inSlot] at bound ⊢
  rw [Node.registered_field bound faultFree, ← Env.declareAll_append] at inBody
  exact ⟨faultFree.of_patternFieldStops.1, (walksBody_of_follow wellFormed named inBody).append _⟩

/-- The body of a scope is walked under the names that are listed for the scope, if the patterns of
the scope declare what they bind. -/
theorem walksBody_of_registersBound {node : Node} {names : List String}
    (wellFormed : node.WellFormed)
    (bound : ∀ pattern ∈ node.scopePatterns, pattern.RegistersBound walker.intercepts)
    (opens : node.scopeNames? = some names) {walked : Node}
    (ok : walker.descend env node = ⟨log, .ok walked⟩) : walker.WalksBody env node names log := by
  rw [descend_eq_follow walker.editsBy_visitEdits env wellFormed, agenda] at ok
  obtain ⟨_, followed, _⟩ := Run.bind_pure_eq_ok.mp ok
  rw [Node.scopeNames?] at opens
  split at opens
  case h_1 rule =>
    obtain rfl := Option.some.inj opens
    rw [rule] at followed
    exact walksBody_of_follow wellFormed rfl followed
  case h_2 rule =>
    obtain rfl := Option.some.inj opens
    have inSlot : (node.field Slot.catchParam.name).nodes = node.scopePatterns := by
      rw [Node.scopePatterns, rule]
      rfl
    rw [rule] at followed
    obtain ⟨accepted, walks⟩ :=
      walksBody_of_follow_scopeStops wellFormed bound inSlot rfl followed
    -- What the caught pattern binds is hoisted already.
    have present := Node.boundNames_subset_hoistedNames rule accepted
    rw [WalksBody, Env.declareAll_append, Env.declareAll_of_subset] at walks
    · exact walks
    · exact fun name member => mem_addNames.mpr (Or.inr (present member))
  case h_3 rule =>
    obtain rfl := Option.some.inj opens
    have inSlot : (node.field Slot.functionParams.name).nodes = node.scopePatterns := by
      rw [Node.scopePatterns, rule]
      rfl
    rw [rule] at followed
    obtain ⟨early, _, late, _, _, inScope, rfl⟩ := exists_of_follow_append followed
    obtain ⟨accepted, walks⟩ :=
      walksBody_of_follow_scopeStops wellFormed bound inSlot rfl inScope
    rw [paramNames_eq rule accepted]
    exact walks.append early
  case h_4 => cases opens

/-- The body of a scope with grammatical patterns is walked under the names that are listed for the
scope. -/
theorem walksBody_of_descend {node : Node} {names : List String} (wellFormed : node.WellFormed)
    (grammatical : ∀ pattern ∈ node.scopePatterns, pattern.Grammatical)
    (opens : node.scopeNames? = some names) {walked : Node}
    (ok : walker.descend env node = ⟨log, .ok walked⟩) : walker.WalksBody env node names log :=
  walksBody_of_registersBound wellFormed (fun pattern member =>
    (grammatical pattern member).registersBound
      (wellFormed.child (Node.mem_children_of_mem_scopePatterns member))) opens ok

end Walker

/-! ### Any table -/

/-- Interception changes neither the names that a pattern declares nor those that the body of a
scope sees. After a grammatical pattern has been walked, under any table, the frame holds the names
it held before and then those that the pattern bound before the walk, each at its first occurrence;
the frames around it are as they were. And the body of a scope with grammatical patterns is walked
in a new frame with the names that are listed for the scope, in which no table has a part. -/
theorem interception_keeps_declared_names (table : Table) (budget : Nat) :
    (∀ (outer scope : Env) (pattern : Node), pattern.WellFormed → pattern.Grammatical →
      ∀ (log : List Step) (after : Env) (walked : Option Node),
        (table.walker budget).walkPattern outer scope pattern = ⟨log, .ok (after, walked)⟩ →
          after.outer = scope.outer ∧
          after.names = scope.names ++ (pattern.boundNames.removeAll scope.names).eraseDups ∧
          (scope.names.Nodup → after.names = (scope.names ++ pattern.boundNames).eraseDups)) ∧
      ∀ (env : Env) (node : Node) (names : List String), node.WellFormed →
        (∀ pattern ∈ node.scopePatterns, pattern.Grammatical) → node.scopeNames? = some names →
        ∀ (log : List Step) (walked : Node),
          (table.walker budget).descend env node = ⟨log, .ok walked⟩ →
            (table.walker budget).WalksBody env node names log := by
  refine ⟨fun outer scope pattern wellFormed grammatical log after walked ok => ?_,
    fun env node names wellFormed grammatical opens log walked ok =>
      Walker.walksBody_of_descend wellFormed grammatical opens ok⟩
  rw [Walker.walkPattern_declares wellFormed grammatical ok]
  exact ⟨rfl, addNames_eq_append _ _, fun distinct => addNames_eq_eraseDups distinct _⟩

/-- The table that goes on below patterns with a default value, and turns every identifier into
another one. -/
def anonymize : Table :=
  .ofList
    [ (.assignmentPattern, fun walker env node => do return some (← walker.descend env node)),
      (.identifier, fun _ _ _ => pure (some (.identifier "anonymous"))) ]

/-- A pattern with a default value inside a pattern that is not intercepted. -/
def pairWithDefault : Node :=
  ⟨.arrayPattern, [("elements", .list
    [ some (.identifier "b"), none,
      some ⟨.assignmentPattern,
        [("left", .node (.identifier "a")), ("right", .node (.identifier "c"))]⟩,
      some ⟨.restElement, [("argument", .node (.identifier "b"))]⟩ ])]⟩

/-- A function that takes the pair. -/
def takesPair : Node :=
  ⟨.functionExpression,
    [ ("params", .list [some pairWithDefault]),
      ("body", .node ⟨.blockStatement, [("body", .list [])]⟩) ]⟩

theorem takesPair_wellFormed : takesPair.WellFormed := by decide

theorem pairWithDefault_grammatical : pairWithDefault.Grammatical := by decide

theorem anonymize_keeps_declared_names :
    pairWithDefault.WellFormed ∧ pairWithDefault.Grammatical ∧ takesPair.WellFormed ∧
      (∃ log after walked,
        (anonymize.walker 9).walkPattern .root (.ofNames ["a"]) pairWithDefault =
          ⟨log, .ok (after, walked)⟩ ∧ after.names = ["a", "b"]) ∧
      ∃ log walked, (anonymize.walker 9).descend .root takesPair = ⟨log, .ok walked⟩ ∧
        (anonymize.walker 9).WalksBody .root takesPair ["b", "a", "b"] log := by
  have wellFormed : pairWithDefault.WellFormed :=
    takesPair_wellFormed.child (by simp [takesPair, Node.children, Field.nodes])
  obtain ⟨patterns, scopes⟩ := interception_keeps_declared_names anonymize 9
  obtain ⟨patternLog, ⟨after, walkedPattern⟩, patternOk⟩ := Run.exists_eq_ok
    (show ((anonymize.walker 9).walkPattern .root (.ofNames ["a"]) pairWithDefault).outcome.isOk =
      true by cbv)
  obtain ⟨log, walked, ok⟩ := Run.exists_eq_ok
    (show ((anonymize.walker 9).descend .root takesPair).outcome.isOk = true by cbv)
  have declared := (patterns _ _ _ wellFormed pairWithDefault_grammatical _ _ _ patternOk).2.1
  have bound : pairWithDefault.boundNames = ["b", "a", "b"] := by cbv
  refine ⟨wellFormed, pairWithDefault_grammatical, takesPair_wellFormed,
    ⟨patternLog, after, walkedPattern, patternOk, ?_⟩, log, walked, ok, ?_⟩
  · rw [declared, bound]
    decide
  · refine scopes .root takesPair _ takesPair_wellFormed ?_ (by cbv) log walked ok
    exact List.forall_mem_singleton.mpr pairWithDefault_grammatical

end EstreeScopes
