/-
This file shows that a walk is a substitution at the frontier, as long as the
transforms do not go on with the walk themselves. The nodes that are handed over
are the frontier for the kinds of the table, each once and in order, and the tree
that comes out is the tree that went in with each frontier node replaced by what
its transform gave for it.

A visit is described first by the edits it makes (`Table.editor`): one edit at
the node itself where a transform takes it, and the edits along the agenda
elsewhere. This holds for all tables. The frontier comes in by the law that the
agenda of a node leads to it.
-/

import EstreeScopes.Proofs.Descend
import EstreeScopes.Proofs.Frontier
import EstreeScopes.Walk.Table

namespace EstreeScopes

/-! ### Agendas that are followed to the end -/

/-- An agenda is followed to its end, with these steps and these edits. -/
inductive Followed (editor : Env → Node → Run Edits) : List Stop → List Step → Edits → Prop
  | nil : Followed editor [] [] []
  | visit {address : Address} {env : Env} {node : Node} {rest : List Stop}
      {log later : List Step} {made others : Edits} (visited : editor env node = ⟨log, .ok made⟩)
      (followed : Followed editor rest later others) :
      Followed editor (.visit address env node :: rest) (log ++ later)
        (made.below address ++ others)
  | enter {kind : Kind} {names : List String} {rest : List Stop} {later : List Step}
      {others : Edits} (followed : Followed editor rest later others) :
      Followed editor (.enter kind names :: rest) (.entered kind names :: later) others

theorem followed_of_follow {editor : Env → Node → Run Edits} {stops : List Stop} {log : List Step}
    {edits : Edits} (ok : follow editor stops = ⟨log, .ok edits⟩) :
    Followed editor stops log edits := by
  induction stops generalizing log edits with
  | nil =>
    obtain ⟨rfl, rfl⟩ := Run.pure_eq_ok.mp ok
    exact .nil
  | cons stop rest inductionHypothesis =>
    cases stop with
    | visit address env node =>
      obtain ⟨_, made, _, visited, rest, rfl⟩ := Run.bind_eq_ok.mp ok
      obtain ⟨others, followed, rfl⟩ := Run.bind_pure_eq_ok.mp rest
      exact .visit visited (inductionHypothesis followed)
    | enter kind names =>
      obtain ⟨_, _, _, recorded, followed, rfl⟩ := Run.bind_eq_ok.mp ok
      obtain ⟨rfl, _⟩ := Run.mk.inj recorded
      exact .enter (inductionHypothesis followed)
    | fault fault => cases ok

theorem Followed.of_append {editor : Env → Node → Run Edits} {first second : List Stop}
    {log : List Step} {edits : Edits} (followed : Followed editor (first ++ second) log edits) :
    ∃ early late made others, log = early ++ late ∧ Followed editor first early made ∧
      Followed editor second late others := by
  induction first generalizing log edits with
  | nil => exact ⟨[], log, [], edits, rfl, .nil, followed⟩
  | cons stop rest inductionHypothesis =>
    cases followed with
    | visit visited later =>
      obtain ⟨_, _, _, _, rfl, inRest, inSecond⟩ := inductionHypothesis later
      exact ⟨_, _, _, _, (List.append_assoc _ _ _).symm, .visit visited inRest, inSecond⟩
    | enter later =>
      obtain ⟨_, _, _, _, rfl, inRest, inSecond⟩ := inductionHypothesis later
      exact ⟨_, _, _, _, rfl, .enter inRest, inSecond⟩

theorem Followed.of_map_below {editor : Env → Node → Run Edits} {place : Place} {stops : List Stop}
    {log : List Step} {edits : Edits}
    (followed : Followed editor (stops.map (Stop.below place)) log edits) :
    ∃ made, Followed editor stops log made := by
  induction stops generalizing log edits with
  | nil =>
    cases followed
    exact ⟨[], .nil⟩
  | cons stop rest inductionHypothesis =>
    cases stop with
    | visit address env node =>
      cases followed with
      | visit visited later =>
        obtain ⟨_, inRest⟩ := inductionHypothesis later
        exact ⟨_, .visit visited inRest⟩
    | enter kind names =>
      cases followed with
      | enter later =>
        obtain ⟨_, inRest⟩ := inductionHypothesis later
        exact ⟨_, .enter inRest⟩
    | fault fault => cases followed

theorem Followed.faultFree {editor : Env → Node → Run Edits} {stops : List Stop} {log : List Step}
    {edits : Edits} (followed : Followed editor stops log edits) : FaultFree stops := by
  induction followed with
  | nil => exact fun _ member => absurd member List.not_mem_nil
  | visit _ _ inductionHypothesis =>
    intro fault member
    rcases List.mem_cons.mp member with head | tail
    · cases head
    · exact inductionHypothesis fault tail
  | enter _ inductionHypothesis =>
    intro fault member
    rcases List.mem_cons.mp member with head | tail
    · cases head
    · exact inductionHypothesis fault tail

/-! ### A visit as edits -/

namespace Table

/-- A kind has a transform when one is found. -/
theorem contains_eq_isSome (table : Table) (kind : Kind) :
    table.contains kind = (table.find? kind).isSome := by
  rw [contains, find?, Option.isSome_map, Bool.eq_iff_iff, List.any_eq_true, List.find?_isSome]

/-- The edits that a visit makes: what a transform gives in place of the node, or the edits along
the agenda. -/
def editor (table : Table) : Nat → Env → Node → Run Edits
  | 0, _, _ => .fail .exhausted
  | budget + 1, env, node =>
    match table.find? node.kind with
    | some transform => do
      Run.record (.intercepted env node)
      return [([], ← transform (table.walker budget) env node)]
    | none => follow (table.editor budget) (agenda table.contains env node)

/-- Every visit is the making of its edits. -/
theorem editsBy_editor (table : Table) (budget : Nat) :
    (table.walker budget).EditsBy (table.editor budget) := by
  induction budget with
  | zero =>
    intro env node _
    rfl
  | succ budget inductionHypothesis =>
    intro env node wellFormed
    show table.visit (budget + 1) env node = _
    rw [visit_succ, editor]
    cases table.find? node.kind with
    | some transform =>
      simp
    | none =>
      simp only [Walker.descend_eq_follow inductionHypothesis env wellFormed, bind_assoc, pure_bind]
      refine Run.bind_congr_of_ok fun log made followed => ?_
      rw [Node.edit_of_here?_none (follow_through (agenda_through _ env node) followed).1]

end Table

/-! ### Transforms that do not go on -/

/-- A transform that does not go on with the walk: it takes no step, and it is the same whatever
walker it is given. -/
structure Transform.Still (transform : Transform) : Prop where
  log_eq : ∀ walker env node, (transform walker env node).log = []
  same : ∀ first second env node, transform first env node = transform second env node

/-- No transform of a table goes on with the walk. -/
def Table.Still (table : Table) : Prop :=
  ∀ kind transform, table.find? kind = some transform → Transform.Still transform

theorem Table.still_of_forall {table : Table}
    (each : ∀ entry ∈ table.transforms, Transform.Still entry.2) : table.Still := by
  intro kind transform found
  obtain ⟨entry, listed, rfl⟩ := Option.map_eq_some_iff.mp found
  exact each entry (List.mem_of_find?_eq_some listed)

/-- The transform of a node gives an answer when the node is handed to it, by whatever walker. -/
def Table.Answers (table : Table) (handOver : Env × Node) (answer : Option Node) : Prop :=
  ∃ transform, table.find? handOver.2.kind = some transform ∧
    ∀ walker, (transform walker handOver.1 handOver.2).outcome = .ok answer

/-- The node that a step hands over, with its environment. -/
def Step.handOver? : Step → Option (Env × Node)
  | .intercepted env node => some (env, node)
  | .entered _ _ => none

/-- The nodes that are handed over, with their environments. -/
def handOvers (log : List Step) : List (Env × Node) := log.filterMap Step.handOver?

theorem handOvers_append (first second : List Step) :
    handOvers (first ++ second) = handOvers first ++ handOvers second :=
  List.filterMap_append

/-- Steps and edits of a walk match a list of nodes with their addresses: these nodes are handed
over, and the edits put the answers at these addresses. -/
structure Substitutes (table : Table) (frontier : List (Address × Node)) (log : List Step)
    (edits : Edits) : Prop where
  nodes : (handOvers log).map Prod.snd = frontier.map Prod.snd
  addresses : edits.map Prod.fst = frontier.map Prod.fst
  answers : List.Forall₂ table.Answers (handOvers log) (edits.map Prod.snd)

namespace Substitutes

variable {table : Table} {first second : List (Address × Node)} {log later : List Step}
  {made others : Edits}

theorem append (early : Substitutes table first log made)
    (late : Substitutes table second later others) :
    Substitutes table (first ++ second) (log ++ later) (made ++ others) where
  nodes := by rw [handOvers_append, List.map_append, List.map_append, early.nodes, late.nodes]
  addresses := by rw [List.map_append, List.map_append, early.addresses, late.addresses]
  answers := by
    rw [handOvers_append, List.map_append]
    exact List.rel_append early.answers late.answers

theorem below (inner : Substitutes table first log made) (address : Address) :
    Substitutes table (first.map fun (rest, target) => (address ++ rest, target)) log
      (made.below address) where
  nodes := by
    rw [inner.nodes, List.map_map]
    rfl
  addresses := by
    have prefixed := congrArg (List.map (address ++ ·)) inner.addresses
    rw [List.map_map, List.map_map] at prefixed
    rw [Edits.below, List.map_map, List.map_map]
    exact prefixed
  answers := by
    rw [Edits.below, List.map_map]
    exact inner.answers

end Substitutes

theorem substitutes_of_followed {table : Table} {editor : Env → Node → Run Edits}
    (each : ∀ {env node log made}, editor env node = ⟨log, .ok made⟩ →
      Substitutes table (node.frontier table.contains) log made)
    {stops : List Stop} {log : List Step} {edits : Edits}
    (followed : Followed editor stops log edits) :
    Substitutes table (stops.flatMap (Stop.frontier table.contains)) log edits := by
  induction followed with
  | nil => exact ⟨rfl, rfl, .nil⟩
  | @visit address env node _ _ _ _ _ visited _ inductionHypothesis =>
    rw [List.flatMap_cons]
    exact ((each visited).below address).append inductionHypothesis
  | enter _ inductionHypothesis =>
    exact ⟨inductionHypothesis.nodes, inductionHypothesis.addresses, inductionHypothesis.answers⟩

/-- A visit that succeeds hands the node over and takes its answer, or follows its agenda. -/
theorem Table.Still.editor_cases {table : Table} (still : table.Still) {budget : Nat} {env : Env}
    {node : Node} {log : List Step} {edits : Edits}
    (visited : table.editor (budget + 1) env node = ⟨log, .ok edits⟩) :
    (table.contains node.kind = true ∧ log = [.intercepted env node] ∧
      ∃ answer, edits = [([], answer)] ∧ table.Answers (env, node) answer) ∨
    (¬ table.contains node.kind = true ∧
      Followed (table.editor budget) (agenda table.contains env node) log edits) := by
  have contained := table.contains_eq_isSome node.kind
  rw [Table.editor] at visited
  cases found : table.find? node.kind with
  | none =>
    rw [found] at visited contained
    exact Or.inr ⟨by simp [contained], followed_of_follow visited⟩
  | some transform =>
    rw [found] at visited contained
    obtain ⟨_, _, _, recorded, rest, rfl⟩ := Run.bind_eq_ok.mp visited
    obtain ⟨rfl, _⟩ := Run.mk.inj recorded
    obtain ⟨answer, given, rfl⟩ := Run.bind_pure_eq_ok.mp rest
    have silent := (still _ _ found).log_eq (table.walker budget) env node
    rw [given] at silent
    obtain rfl : _ = [] := silent
    refine Or.inl ⟨contained, rfl, answer, rfl, transform, found, fun walker => ?_⟩
    rw [(still _ _ found).same walker (table.walker budget), given]

/-- A visit that succeeds hands over the frontier and puts the answers in its place. -/
theorem substitutes_of_editor {table : Table} (still : table.Still) {budget : Nat} {env : Env}
    {node : Node} {log : List Step} {edits : Edits}
    (visited : table.editor budget env node = ⟨log, .ok edits⟩) :
    Substitutes table (node.frontier table.contains) log edits := by
  induction budget generalizing env node log edits with
  | zero => cases visited
  | succ budget inductionHypothesis =>
    obtain ⟨contained, rfl, answer, rfl, answers⟩ | ⟨passed, followed⟩ := still.editor_cases visited
    · rw [Node.frontier_eq, if_pos contained]
      exact ⟨rfl, rfl, .cons answers .nil⟩
    · rw [← agenda_frontier passed followed.faultFree]
      exact substitutes_of_followed inductionHypothesis followed

/-! ### The walk -/

/-- A walk that succeeds has made the edits of its first visit. -/
theorem editor_of_walk {table : Table} {budget : Nat} {env : Option Env} {tree : Node}
    (wellFormed : tree.WellFormed) {log : List Step} {result : Option Node}
    (succeeds : table.walk budget env (some tree) = ⟨log, .ok result⟩) :
    ∃ edits, table.editor budget (env.getD .root) tree = ⟨log, .ok edits⟩ ∧
      result = tree.edit edits := by
  have visited : (table.walker budget).visit (env.getD .root) tree = ⟨log, .ok result⟩ := succeeds
  rw [table.editsBy_editor budget _ tree wellFormed] at visited
  obtain ⟨edits, made, rfl⟩ := Run.bind_pure_eq_ok.mp visited
  exact ⟨edits, made, rfl⟩

theorem answers_eq_of_unchanged {table : Table} {given : List (Env × Node)}
    {answers : List (Option Node)} (answered : List.Forall₂ table.Answers given answers)
    (unchanged : ∀ handOver ∈ given, ∀ answer,
      table.Answers handOver answer → answer = some handOver.2) :
    answers = (given.map Prod.snd).map some := by
  induction answered with
  | nil => rfl
  | cons first _ inductionHypothesis =>
    have restUnchanged := inductionHypothesis fun handOver member =>
      unchanged handOver (List.mem_cons_of_mem _ member)
    rw [unchanged _ List.mem_cons_self _ first, restUnchanged]
    rfl

/-- Edits at the frontier that put every node back keep the tree. -/
theorem keeps_of_substitutes {table : Table} {tree : Node} {log : List Step} {edits : Edits}
    (substitutes : Substitutes table (tree.frontier table.contains) log edits)
    (unchanged : ∀ handOver ∈ handOvers log, ∀ answer,
      table.Answers handOver answer → answer = some handOver.2) : tree.Keeps edits := by
  have answered := answers_eq_of_unchanged substitutes.answers unchanged
  rw [substitutes.nodes, List.map_map] at answered
  rw [List.zip_of_prod substitutes.addresses answered, List.zip_map']
  intro address answer member
  obtain ⟨⟨_, node⟩, frontierMember, equal⟩ := List.mem_map.mp member
  obtain ⟨rfl, rfl⟩ := Prod.mk.inj equal
  exact ⟨node, rfl, Node.at?_of_mem_frontier frontierMember⟩

/-- A walk under transforms that do not go on is a substitution at the frontier. The nodes that are
handed over are the frontier nodes, in order, and no address of the frontier comes twice. The tree
that comes out is the tree that went in, edited at these addresses and nowhere else: what stands
there is what the transform of the node gave for it. In particular the tree comes out as it went in
if every transform gives back the node it is handed, or if there is nothing to hand over. -/
theorem walk_substitutes_at_frontier (table : Table) (still : table.Still) (budget : Nat)
    (env : Option Env) (tree : Node) (wellFormed : tree.WellFormed) (log : List Step)
    (result : Option Node) (succeeds : table.walk budget env (some tree) = ⟨log, .ok result⟩) :
    let frontier := tree.frontier table.contains
    (handOvers log).map Prod.snd = frontier.map Prod.snd ∧
      (frontier.map Prod.fst).Nodup ∧
      (∀ entry ∈ frontier, tree.at? entry.1 = some entry.2) ∧
      (∃ answers : List (Option Node), List.Forall₂ table.Answers (handOvers log) answers ∧
        result = tree.edit ((frontier.map Prod.fst).zip answers)) ∧
      ((∀ handOver ∈ handOvers log, ∀ answer,
        table.Answers handOver answer → answer = some handOver.2) → result = some tree) := by
  intro frontier
  obtain ⟨edits, made, rfl⟩ := editor_of_walk wellFormed succeeds
  have substitutes := substitutes_of_editor still made
  have zipped : edits = (frontier.map Prod.fst).zip (edits.map Prod.snd) :=
    List.zip_of_prod substitutes.addresses rfl
  refine ⟨substitutes.nodes, Node.frontier_nodup _ wellFormed,
    fun entry member => Node.at?_of_mem_frontier member,
    ⟨edits.map Prod.snd, substitutes.answers, by rw [← zipped]⟩, fun unchanged => ?_⟩
  exact Node.edit_of_keeps wellFormed (keeps_of_substitutes substitutes unchanged)

/-- The table that removes the identifiers of one name and marks all others. -/
def markAllBut (dropped : String) : Table :=
  .ofList [(.identifier, fun _ _ node => pure
    (if node.name? = some dropped then none else some (node.set "seen" (.ofBool true))))]

theorem markAllBut_still (dropped : String) : (markAllBut dropped).Still :=
  Table.still_of_forall (List.forall_mem_singleton.mpr ⟨fun _ _ _ => rfl, fun _ _ _ _ => rfl⟩)

/-- A function that takes a pattern and a plain parameter, and gives back the second. -/
def secondOf : Node :=
  ⟨.functionDeclaration,
    [ ("id", .node (.identifier "f")),
      ("params", .list
        [ some ⟨.arrayPattern, [("elements", .list [some (.identifier "x"), none])]⟩,
          some (.identifier "y") ]),
      ("body", .node ⟨.blockStatement,
        [("body", .list [some ⟨.returnStatement, [("argument", .node (.identifier "y"))]⟩])]⟩) ]⟩

theorem secondOf_wellFormed : secondOf.WellFormed := by decide

theorem walk_substitutes_in_secondOf :
    (markAllBut "x").Still ∧ secondOf.WellFormed ∧
      ∃ log result, (markAllBut "x").walk 5 none (some secondOf) = ⟨log, .ok result⟩ ∧
        (handOvers log).map Prod.snd = ["f", "x", "y", "y"].map .identifier ∧
        ∃ answers, List.Forall₂ (markAllBut "x").Answers (handOvers log) answers ∧
          result = secondOf.edit
            (((secondOf.frontier (markAllBut "x").contains).map Prod.fst).zip answers) := by
  have still := markAllBut_still "x"
  obtain ⟨log, result, succeeds⟩ := Run.exists_eq_ok
    (show ((markAllBut "x").walk 5 none (some secondOf)).outcome.isOk = true by cbv)
  have frontier : (secondOf.frontier (markAllBut "x").contains).map Prod.snd =
      ["f", "x", "y", "y"].map .identifier := by cbv
  obtain ⟨nodes, _, _, answered, _⟩ := walk_substitutes_at_frontier (markAllBut "x") still 5 none
    secondOf secondOf_wellFormed log result succeeds
  exact ⟨still, secondOf_wellFormed, log, result, succeeds, nodes.trans frontier, answered⟩

end EstreeScopes
