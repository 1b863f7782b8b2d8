/-
This file says under which environment a node is handed over. The way from the
root to the node goes through some programs, functions and catch clauses. Each of
them adds one frame, outer ones first, if the way goes into its body or into its
patterns, unless the way leaves the patterns again by a default value or by a key:
these are walked under the environment around the scope. Nothing else adds a
frame.

A frame holds the hoisted names of the scope first. In the body it holds all
names of the patterns after them, and on a way into the patterns the names that
are declared by the time the walk gets there. The names are read off the tree
that went in: what the transforms make of it has no part in them.
-/

import EstreeScopes.Proofs.Grammar
import EstreeScopes.Proofs.Substitution
import EstreeScopes.Proofs.Visits

namespace EstreeScopes

/-! ### The way through a pattern -/

namespace Node

/-- Whether a way down from a pattern leaves it by a default value or a key. It stays in the pattern
through the slots with the parts. -/
def leaves : Address → Node → Bool
  | [], _ => false
  | place :: rest, pattern =>
    if pattern.kind.outerSlot? = some place.slot then true
    else if pattern.kind.patternSlot?.map Slot.name = some place.slot then
      match pattern.held? place with
      | some part => part.leaves rest
      | none => false
    else false

/-- The names of a pattern that are declared when the walk gets to an address below: those of the
parts before it, and those of the node there if the pattern ends with it. -/
def declaredAt (intercepts : Kind → Bool) : Address → Node → List String
  | [], pattern => if intercepts pattern.kind then pattern.boundNames else []
  | place :: rest, pattern =>
    if pattern.kind.patternSlot?.map Slot.name = some place.slot then
      match pattern.held? place with
      | some part =>
        pattern.keyNames ++ (pattern.earlier place).flatMap (registered intercepts) ++
          part.declaredAt intercepts rest
      | none => []
    else []

end Node

/-! ### The legs of a way -/

/-- A leg of a way down a tree: a node that the way goes through, the place at which it goes on, and
the way from there. -/
structure Leg where
  node : Node
  place : Place
  rest : Address

/-- The legs of the way from a node to an address, from the outside in. -/
def Node.legs : Address → Node → List Leg
  | [], _ => []
  | place :: rest, node =>
    ⟨node, place, rest⟩ ::
      match node.held? place with
      | some child => child.legs rest
      | none => []

namespace Leg

/-- Whether the way leaves the patterns of a scope that it goes into. -/
def leaves (leg : Leg) : Bool :=
  (leg.node.held? leg.place).any (Node.leaves leg.rest)

/-- Whether a leg opens a frame: it goes into a program, or into the patterns or the body of a
function or a catch clause, and does not leave the patterns again. -/
def opens (leg : Leg) : Bool :=
  match leg.node.kind.rule, leg.place.slot with
  | some .program, "body" | some .function, "body" | some .catchClause, "body" => true
  | some .function, "params" | some .catchClause, "param" => !leg.leaves
  | _, _ => false

/-- The names that the scope of a leg hoists: those of the node, for a function those of its
body. -/
def hoisted (leg : Leg) : List String :=
  match leg.node.kind.rule with
  | some .function => leg.node.hoistedNamesOf "body"
  | _ => leg.node.hoistedNames

/-- The names that the patterns of a scope have declared on a leg: all of them in the body, and in
the patterns those that come before. -/
def declared (intercepts : Kind → Bool) (leg : Leg) : List String :=
  if leg.place.slot = "body" then leg.node.scopePatterns.flatMap (Node.registered intercepts)
  else
    (leg.node.earlier leg.place).flatMap (Node.registered intercepts) ++
      (leg.node.held? leg.place).toList.flatMap (Node.declaredAt intercepts leg.rest)

/-- The names of the frame that a leg opens. -/
def frame (intercepts : Kind → Bool) (leg : Leg) : List String :=
  leg.hoisted ++ leg.declared intercepts

end Leg

/-- The frames on the way from a node to an address, from the outside in. -/
def Node.frames (intercepts : Kind → Bool) (node : Node) (address : Address) :
    List (List String) :=
  ((node.legs address).filter Leg.opens).map (Leg.frame intercepts)

/-! ### The environment of a visit in a pattern -/

section

variable {intercepts : Kind → Bool} {outer scope env : Env} {pattern target : Node}
  {address : Address}

/-- A leg through a pattern opens no frame. -/
theorem Leg.not_opens_of_patternSlot? {node : Node} {inner : Slot}
    (patternSlot : node.kind.patternSlot? = some inner) (place : Place) (rest : Address) :
    (Leg.mk node place rest).opens = false := by
  rw [opens]
  simp only [Kind.rule_of_patternSlot? patternSlot]

theorem Node.frames_cons {node child : Node} {place : Place} (held : node.held? place = some child)
    (rest : Address) :
    node.frames intercepts (place :: rest) =
      (if (Leg.mk node place rest).opens then [(Leg.mk node place rest).frame intercepts]
        else []) ++ child.frames intercepts rest := by
  rw [frames, legs, held, List.filter_cons]
  split <;> rfl

theorem env_of_mem_patternStops {rest : Address} {deepest : Node}
    (member : .visit address env target ∈ patternStops intercepts outer scope pattern)
    (met : (rest, deepest) ∈ target.frontier intercepts) :
    env = (if pattern.leaves (address ++ rest) then outer
      else scope.declareAll (pattern.declaredAt intercepts (address ++ rest))) ∧
    pattern.frames intercepts (address ++ rest) = target.frames intercepts rest := by
  induction address generalizing pattern scope with
  | nil =>
    obtain ⟨_, rfl, ⟨intercepted, rfl⟩ | ⟨passed, noSlot, rfl⟩⟩ | ⟨_, _, _, _, _, equal, _⟩ :=
      mem_patternStops member
    · obtain ⟨_, rfl, rfl⟩ | ⟨passed, _⟩ := Node.mem_frontier met
      · simp [Node.leaves, Node.declaredAt, intercepted]
      · exact absurd intercepted passed
    · refine ⟨?_, rfl⟩
      cases rest with
      | nil => simp [Node.leaves, Node.declaredAt, passed, Env.declareAll_nil]
      | cons place deeper =>
        simp [Node.leaves, Node.declaredAt, noSlot, Kind.outerSlot?_eq_none noSlot,
          Env.declareAll_nil]
    · cases equal
  | cons place deeper inductionHypothesis =>
    obtain ⟨equal, _⟩ | ⟨inner, _, part, _, patternSlot, equal, held, inside⟩ :=
      mem_patternStops member
    · cases equal
    obtain ⟨rfl, rfl⟩ := List.cons.inj equal
    have through := Leg.not_opens_of_patternSlot? patternSlot place (deeper ++ rest)
    rw [List.cons_append, Node.frames_cons held, through, if_neg Bool.false_ne_true,
      List.nil_append, Node.leaves]
    obtain ⟨outerSlot, rfl, rfl, rfl⟩ | ⟨inSlot, visited⟩ := inside
    · simp [outerSlot]
    · have stays : ¬ pattern.kind.outerSlot? = some place.slot := by
        rw [inSlot]
        exact Kind.outerSlot?_ne_patternSlot? patternSlot
      obtain ⟨envEq, framesEq⟩ := inductionHypothesis visited
      rw [if_neg stays, patternSlot, inSlot, Option.map_some, if_pos rfl, held, Node.declaredAt,
        patternSlot, inSlot, Option.map_some, if_pos rfl, held, Env.declareAll_append, ← envEq]
      exact ⟨rfl, framesEq⟩

end

/-! ### The environment of a visit -/

section

variable {intercepts : Kind → Bool} {env inner : Env} {node target deepest : Node}
  {address rest : Address}

/-- A visit in the body of a scope is made inside the frame that the leg into the body opens. -/
theorem extend_of_mem_bodyStops {body : Slot}
    (opens : ∀ place rest, place.slot = body.name → (Leg.mk node place rest).opens = true)
    {names : List String} (frame : ∀ place rest, place.slot = body.name →
      (Leg.mk node place rest).frame intercepts = names)
    (member : .visit address inner target ∈ bodyStops (env.child.declareAll names) node body) :
    env.extend (node.frames intercepts (address ++ rest)) =
      inner.extend (target.frames intercepts rest) := by
  rcases List.mem_cons.mp member with equal | visited
  · cases equal
  obtain ⟨rfl, place, rfl, inSlot, held⟩ := mem_slotStops visited
  rw [List.cons_append, List.nil_append, Node.frames_cons held, if_pos (opens _ _ inSlot),
    frame _ _ inSlot]
  rfl

/-- A visit in a slot of a node that opens no frame is made in the environment of the node. -/
theorem extend_of_mem_slotStops {kind : Kind} {slot : Slot}
    (closed : ∀ place rest, place.slot = slot.name → (Leg.mk node place rest).opens = false)
    (member : .visit address inner target ∈ slotStops env kind slot (node.field slot.name)) :
    env.extend (node.frames intercepts (address ++ rest)) =
      inner.extend (target.frames intercepts rest) := by
  obtain ⟨rfl, place, rfl, inSlot, held⟩ := mem_slotStops member
  rw [List.cons_append, List.nil_append, Node.frames_cons held, closed _ _ inSlot]
  rfl

/-- A visit in the patterns of a scope is made inside the frame of the scope, with the names that
are declared so far, or outside if the way leaves the patterns. -/
theorem extend_of_mem_patternFieldStops {patterns : Slot}
    (opens : ∀ place rest, place.slot = patterns.name →
      (Leg.mk node place rest).opens = !(Leg.mk node place rest).leaves)
    {names : List String}
    (hoisted : ∀ place rest, (Leg.mk node place rest).hoisted = names)
    (notBody : patterns.name ≠ "body")
    (member : .visit address inner target ∈ patternFieldStops intercepts env
      (env.child.declareAll names) node.kind patterns (node.field patterns.name))
    (met : (rest, deepest) ∈ target.frontier intercepts) :
    env.extend (node.frames intercepts (address ++ rest)) =
      inner.extend (target.frames intercepts rest) := by
  obtain ⟨place, part, deeper, rfl, inSlot, held, visited⟩ := mem_patternFieldStops member
  obtain ⟨envEq, framesEq⟩ := env_of_mem_patternStops visited met
  rw [List.cons_append, Node.frames_cons held, opens _ _ inSlot, framesEq, Leg.leaves]
  simp only [held, Option.any_some]
  cases leaves : part.leaves (deeper ++ rest) with
  | true =>
    rw [leaves, if_pos rfl] at envEq
    rw [envEq]
    rfl
  | false =>
    rw [leaves, if_neg Bool.false_ne_true, ← Env.declareAll_append,
      ← Env.declareAll_append] at envEq
    rw [envEq, Leg.frame, hoisted, Leg.declared]
    simp only [inSlot, if_neg notBody, held, Option.toList_some, List.flatMap_singleton]
    rfl

/-- A visit in the agenda of a node: the frames on the way from the node are those between the
environments of the node and of the visit, and then those on the way from the visited node. -/
theorem extend_of_mem_agenda
    (member : .visit address inner target ∈ agenda intercepts env node)
    (met : (rest, deepest) ∈ target.frontier intercepts) :
    env.extend (node.frames intercepts (address ++ rest)) =
      inner.extend (target.frames intercepts rest) := by
  rw [agenda] at member
  cases rule : node.kind.rule with
  | none =>
    rw [rule] at member
    cases member
  | some rule' =>
    rw [rule] at member
    cases rule' with
    | slots slots =>
      obtain ⟨slot, _, visited⟩ := List.mem_flatMap.mp member
      exact extend_of_mem_slotStops (fun _ _ _ => by simp only [Leg.opens, rule]) visited
    | children =>
      obtain ⟨slot, _, visited⟩ := List.mem_flatMap.mp member
      obtain ⟨⟨place, child⟩, placeMember, equal⟩ := List.mem_map.mp visited
      obtain ⟨rfl, rfl, rfl⟩ := Stop.visit.inj equal
      rw [List.cons_append, List.nil_append,
        Node.frames_cons (Node.held?_of_mem_places placeMember)]
      simp only [Leg.opens, rule]
      rfl
    | program =>
      refine extend_of_mem_bodyStops (fun _ _ inSlot => ?_) (fun _ _ inSlot => ?_) member
      · simp only [Leg.opens, rule, inSlot, Slot.programBody, Slot.list]
      · simp [Leg.frame, Leg.hoisted, Leg.declared, Node.scopePatterns, rule, inSlot,
          Slot.programBody, Slot.list]
    | function =>
      rcases List.mem_append.mp member with named | within
      · have visited : .visit address inner target ∈
            slotStops env node.kind .functionId (node.field Slot.functionId.name) := named
        refine extend_of_mem_slotStops (fun _ _ inSlot => ?_) visited
        simp [Leg.opens, rule, inSlot, Slot.functionId, Slot.node]
      rcases List.mem_append.mp within with inPatterns | inBody
      · refine extend_of_mem_patternFieldStops (fun _ _ inSlot => ?_) (fun _ _ => ?_) (by decide)
          inPatterns met
        · simp only [Leg.opens, rule, inSlot, Slot.functionParams, Slot.list]
        · simp only [Leg.hoisted, rule]
      · rw [← Env.declareAll_append] at inBody
        refine extend_of_mem_bodyStops (fun _ _ inSlot => ?_) (fun _ _ inSlot => ?_) inBody
        · simp only [Leg.opens, rule, inSlot, Slot.functionBody, Slot.node]
        · simp [Leg.frame, Leg.hoisted, Leg.declared, Node.scopePatterns, rule, inSlot,
            Slot.functionBody, Slot.functionParams, Slot.node, Slot.list, Field.registered]
    | catchClause =>
      rcases List.mem_append.mp member with inPatterns | inBody
      · refine extend_of_mem_patternFieldStops (fun _ _ inSlot => ?_) (fun _ _ => ?_) (by decide)
          inPatterns met
        · simp only [Leg.opens, rule, inSlot, Slot.catchParam, Slot.node]
        · simp only [Leg.hoisted, rule]
      · rw [← Env.declareAll_append] at inBody
        refine extend_of_mem_bodyStops (fun _ _ inSlot => ?_) (fun _ _ inSlot => ?_) inBody
        · simp only [Leg.opens, rule, inSlot, Slot.catchBody, Slot.node]
        · simp [Leg.frame, Leg.hoisted, Leg.declared, Node.scopePatterns, rule, inSlot,
            Slot.catchBody, Slot.catchParam, Slot.node, Field.registered]

end

/-! ### The scopes on the way -/

section

variable {intercepts : Kind → Bool} {outer scope env inner : Env} {node pattern target : Node}
  {address : Address}

theorem Node.wellFormed_of_mem_legs {leg : Leg} (wellFormed : node.WellFormed)
    (member : leg ∈ node.legs address) : leg.node.WellFormed := by
  induction address generalizing node with
  | nil => cases member
  | cons place rest inductionHypothesis =>
    rw [legs] at member
    rcases List.mem_cons.mp member with rfl | deeper
    · exact wellFormed
    · split at deeper
      · rename_i child held
        exact inductionHypothesis (wellFormed.child (mem_children_of_held? held)) deeper
      · cases deeper

/-- The scopes on a way through a pattern come after the visit that the way goes through. -/
theorem legs_of_mem_patternStops {rest : Address} {leg : Leg}
    (member : .visit address env target ∈ patternStops intercepts outer scope pattern)
    (onWay : leg ∈ pattern.legs (address ++ rest)) :
    leg.node.scopePatterns = [] ∨ leg ∈ target.legs rest := by
  induction address generalizing pattern scope with
  | nil =>
    obtain ⟨_, rfl, _⟩ | ⟨_, _, _, _, _, equal, _⟩ := mem_patternStops member
    · exact Or.inr onWay
    · cases equal
  | cons place deeper inductionHypothesis =>
    obtain ⟨equal, _⟩ | ⟨inner, _, part, _, patternSlot, equal, held, inside⟩ :=
      mem_patternStops member
    · cases equal
    obtain ⟨rfl, rfl⟩ := List.cons.inj equal
    rw [List.cons_append, Node.legs, held] at onWay
    rcases List.mem_cons.mp onWay with rfl | further
    · exact Or.inl (by rw [Node.scopePatterns, Kind.rule_of_patternSlot? patternSlot])
    · obtain ⟨_, rfl, rfl, rfl⟩ | ⟨_, visited⟩ := inside
      · exact Or.inr further
      · exact inductionHypothesis visited further

/-- The scopes on a way from a node are the node itself and those that come after the visit that the
way goes through. -/
theorem legs_of_mem_agenda {rest : Address} {leg : Leg}
    (member : .visit address inner target ∈ agenda intercepts env node)
    (onWay : leg ∈ node.legs (address ++ rest)) :
    leg.node = node ∨ leg.node.scopePatterns = [] ∨ leg ∈ target.legs rest := by
  obtain ⟨place, part, deeper, rfl, held, inside⟩ := mem_agenda member
  rw [List.cons_append, Node.legs, held] at onWay
  rcases List.mem_cons.mp onWay with rfl | further
  · exact Or.inl rfl
  · obtain ⟨rfl, rfl⟩ | ⟨outer, scope, visited⟩ := inside
    · exact Or.inr (Or.inr further)
    · exact Or.inr (legs_of_mem_patternStops visited further)

end

/-! ### The walk -/

/-- The nodes that a stop hands over, with their environments. -/
def Stop.handOvers (intercepts : Kind → Bool) : Stop → List (Env × Node)
  | .visit _ env node =>
    (node.frontier intercepts).map fun (rest, target) =>
      (env.extend (node.frames intercepts rest), target)
  | .enter _ _ | .fault _ => []

theorem handOvers_of_followed {intercepts : Kind → Bool} {editor : Env → Node → Run Edits}
    (each : ∀ {env node log made}, editor env node = ⟨log, .ok made⟩ →
      handOvers log = (node.frontier intercepts).map fun (address, target) =>
        (env.extend (node.frames intercepts address), target))
    {stops : List Stop} {log : List Step} {edits : Edits}
    (followed : Followed editor stops log edits) :
    handOvers log = stops.flatMap (Stop.handOvers intercepts) := by
  induction followed with
  | nil => rfl
  | visit visited _ inductionHypothesis =>
    rw [handOvers_append, each visited, inductionHypothesis, List.flatMap_cons, Stop.handOvers]
  | enter _ inductionHypothesis => exact inductionHypothesis

/-- The agenda of a node hands its frontier over, each node inside the frames on the way to it. -/
theorem agenda_handOvers {intercepts : Kind → Bool} {env : Env} {node : Node}
    (passed : ¬ intercepts node.kind = true) (faultFree : FaultFree (agenda intercepts env node)) :
    (agenda intercepts env node).flatMap (Stop.handOvers intercepts) =
      (node.frontier intercepts).map fun (address, target) =>
        (env.extend (node.frames intercepts address), target) := by
  rw [← agenda_frontier passed faultFree, List.map_flatMap]
  refine List.flatMap_congr fun stop member => ?_
  cases stop with
  | visit address inner target =>
    rw [Stop.handOvers, Stop.frontier, List.map_map]
    refine List.map_congr_left fun entry met => ?_
    exact congrArg (·, entry.2) (extend_of_mem_agenda member met).symm
  | enter kind names => rfl
  | fault fault => rfl

theorem handOvers_of_editor {table : Table} (still : table.Still) {budget : Nat} {env : Env}
    {node : Node} {log : List Step} {edits : Edits}
    (visited : table.editor budget env node = ⟨log, .ok edits⟩) :
    handOvers log = (node.frontier table.contains).map fun (address, target) =>
      (env.extend (node.frames table.contains address), target) := by
  induction budget generalizing env node log edits with
  | zero => cases visited
  | succ budget inductionHypothesis =>
    obtain ⟨contained, rfl, _⟩ | ⟨passed, followed⟩ := still.editor_cases visited
    · rw [Node.frontier_eq, if_pos contained]
      rfl
    · rw [← agenda_handOvers passed followed.faultFree]
      exact handOvers_of_followed inductionHypothesis followed

theorem Followed.visit_of_mem {editor : Env → Node → Run Edits} {stops : List Stop}
    {log : List Step} {edits : Edits} (followed : Followed editor stops log edits)
    {address : Address} {env : Env} {node : Node} (member : .visit address env node ∈ stops) :
    ∃ log made, editor env node = ⟨log, .ok made⟩ := by
  induction followed with
  | nil => cases member
  | visit visited _ inductionHypothesis =>
    rcases List.mem_cons.mp member with equal | later
    · obtain ⟨_, rfl, rfl⟩ := Stop.visit.inj equal
      exact ⟨_, _, visited⟩
    · exact inductionHypothesis later
  | enter _ inductionHypothesis =>
    rcases List.mem_cons.mp member with equal | later
    · cases equal
    · exact inductionHypothesis later

/-- A visit that succeeds has found no fault in the patterns of the scopes on the ways to the nodes
that it hands over. -/
theorem faultFree_of_editor {table : Table} (still : table.Still) {budget : Nat} {env : Env}
    {node : Node} {log : List Step} {edits : Edits}
    (visited : table.editor budget env node = ⟨log, .ok edits⟩) {address : Address} {target : Node}
    (met : (address, target) ∈ node.frontier table.contains) {leg : Leg}
    (onWay : leg ∈ node.legs address) :
    ∀ pattern ∈ leg.node.scopePatterns,
      ∃ outer scope, FaultFree (patternStops table.contains outer scope pattern) := by
  induction budget generalizing env node log edits address with
  | zero => cases visited
  | succ budget inductionHypothesis =>
    obtain ⟨contained, _⟩ | ⟨passed, followed⟩ := still.editor_cases visited
    · rw [Node.frontier_eq, if_pos contained] at met
      obtain ⟨rfl, _⟩ := Prod.mk.inj (List.mem_singleton.mp met)
      cases onWay
    · rw [← agenda_frontier passed followed.faultFree] at met
      obtain ⟨stop, member, inStop⟩ := List.mem_flatMap.mp met
      cases stop with
      | visit first inner child =>
        obtain ⟨⟨rest, _⟩, restMet, equal⟩ := List.mem_map.mp inStop
        obtain ⟨rfl, rfl⟩ := Prod.mk.inj equal
        obtain ⟨_, _, childVisited⟩ := followed.visit_of_mem member
        rcases legs_of_mem_agenda member onWay with atNode | noPatterns | deeper
        · rw [atNode]
          exact Node.faultFree_scopePatterns followed.faultFree
        · rw [noPatterns]
          exact fun _ absent => absurd absent List.not_mem_nil
        · exact inductionHypothesis childVisited restMet deeper
      | enter kind names => cases inStop
      | fault fault => cases inStop

/-- Every node is handed over under the environment of the walk with one more frame for each
leg that opens one, on the way to the node in the tree that went in, outer ones first. Such a frame
holds the hoisted names of its scope, and the patterns of the scope declare the names that they bind
if they are grammatical. -/
theorem walk_hands_over_inside_frames (table : Table) (still : table.Still) (budget : Nat)
    (env : Option Env) (tree : Node) (wellFormed : tree.WellFormed) (log : List Step)
    (result : Option Node) (succeeds : table.walk budget env (some tree) = ⟨log, .ok result⟩) :
    let around := env.getD .root
    let frames := fun address => ((tree.legs address).filter Leg.opens).map
      (Leg.frame table.contains)
    handOvers log = (tree.frontier table.contains).map (fun (address, node) =>
        (around.extend (frames address), node)) ∧
      ∀ address node, (address, node) ∈ tree.frontier table.contains →
        tree.at? address = some node ∧
          (around.extend (frames address)).frames =
            ((frames address).map (addNames [])).reverse ++ around.frames ∧
          ∀ leg ∈ tree.legs address,
            (∀ name ∈ leg.hoisted, name ∈ addNames [] (leg.frame table.contains)) ∧
              ∀ pattern ∈ leg.node.scopePatterns, pattern.Grammatical →
                pattern.registered table.contains = pattern.boundNames := by
  intro around frames
  obtain ⟨edits, made, _⟩ := editor_of_walk wellFormed succeeds
  refine ⟨handOvers_of_editor still made, fun address node met => ?_⟩
  refine ⟨Node.at?_of_mem_frontier met, Env.frames_extend _ _, fun leg onWay => ⟨?_, ?_⟩⟩
  · intro name member
    exact mem_addNames.mpr (Or.inr (List.mem_append_left _ member))
  · intro pattern member grammatical
    obtain ⟨_, _, faultFree⟩ := faultFree_of_editor still made met onWay pattern member
    have inside := Node.wellFormed_of_mem_legs wellFormed onWay
    exact Node.registered_eq_boundNames grammatical
      (inside.child (Node.mem_children_of_mem_scopePatterns member)) faultFree

/-- A program with a function whose second parameter has a default value. -/
def withDefault : Node :=
  ⟨.program, [("body", .list [some ⟨.functionDeclaration,
    [ ("id", .node (.identifier "f")),
      ("params", .list
        [ some (.identifier "a"),
          some ⟨.assignmentPattern,
            [("left", .node (.identifier "b")), ("right", .node (.identifier "c"))]⟩ ]),
      ("body", .node ⟨.blockStatement, [("body", .list
        [some ⟨.returnStatement, [("argument", .node (.identifier "a"))]⟩])]⟩) ]⟩])]⟩

theorem withDefault_wellFormed : withDefault.WellFormed := by decide

theorem withDefault_handed_over_inside_frames :
    (markAllBut "b").Still ∧ withDefault.WellFormed ∧
      ∃ log result, (markAllBut "b").walk 6 (some (.ofNames ["g"])) (some withDefault) =
          ⟨log, .ok result⟩ ∧
        ((handOvers log).map fun (env, node) => (node.name?, env.frames)) =
          [ (some "f", [["f"], ["g"]]), (some "a", [["a"], ["f"], ["g"]]),
            (some "b", [["a", "b"], ["f"], ["g"]]), (some "c", [["f"], ["g"]]),
            (some "a", [["a", "b"], ["f"], ["g"]]) ] := by
  have still := markAllBut_still "b"
  obtain ⟨log, result, succeeds⟩ := Run.exists_eq_ok
    (show ((markAllBut "b").walk 6 (some (.ofNames ["g"])) (some withDefault)).outcome.isOk = true
      by cbv)
  have handed := (walk_hands_over_inside_frames (markAllBut "b") still 6 (some (.ofNames ["g"]))
    withDefault withDefault_wellFormed log result succeeds).1
  refine ⟨still, withDefault_wellFormed, log, result, succeeds, ?_⟩
  rw [handed]
  cbv

end EstreeScopes
