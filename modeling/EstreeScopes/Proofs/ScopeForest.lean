/-
This file says what the list of the scopes of a tree tells about the tree. A trail
leads from a node down to a node below it and says at each step which of the nodes
directly below is taken, so trails in lexical order are the nodes in pre-order.
The scopes are listed along the trails to programs, functions and catch clauses,
each once and in order, and the depth of a scope counts those that its trail
passes.

The nesting is not listed, but the depths tell it: the scope around a scope is the
last one listed before it whose depth is one less. The reason is one of order. What
is listed between a scope and a scope inside it stands inside the outer one too, so
it is deeper.
-/

import EstreeScopes.Proofs.Entered

namespace EstreeScopes

/-- The way from a node to a node below it: at each step, which of the nodes directly below. -/
abbrev Trail := List Nat

/-- Whether nodes of a kind open a scope: programs, functions and catch clauses do. -/
def Kind.opensScope : Kind → Bool
  | .program | .functionDeclaration | .functionExpression | .arrowFunctionExpression
  | .catchClause => true
  | _ => false

namespace Node

/-! ### Trails in a tree -/

/-- The node that a trail leads to. -/
def along? (node : Node) : Trail → Option Node
  | [] => some node
  | index :: rest => node.children[index]?.bind fun child => child.along? rest

/-- Whether a trail leads to a node that opens a scope. -/
def isScopeAt (tree : Node) (trail : Trail) : Bool :=
  (tree.along? trail).any fun node => node.kind.opensScope

/-- The scopes that a trail passes on its way, without the node that it leads to, from the outside
in. -/
def scopesAbove (tree : Node) (trail : Trail) : List Trail :=
  trail.inits.dropLast.filter tree.isScopeAt

/-- All trails in a tree, in pre-order: a node comes before the nodes below it, and these come in
the order of the fields. -/
def trails (node : Node) : List Trail :=
  [] :: (List.finRange node.children.length).flatMap fun index =>
    (trails node.children[index]).map (index.val :: ·)
termination_by node.size
decreasing_by exact size_lt_of_mem_children (List.getElem_mem _)

/-- The trails that lead to nodes that open a scope. -/
def scopeTrails (tree : Node) : List Trail :=
  tree.trails.filter tree.isScopeAt

/-- A scope is listed for the node that a trail leads to, and its depth counts the scopes that the
trail passes. -/
structure ListedAt (tree : Node) (trail : Trail) (scope : Scope) : Prop where
  depth : scope.depth = (tree.scopesAbove trail).length
  entry : (tree.along? trail).bind (scope? scope.depth) = some scope

@[simp]
theorem along?_nil (node : Node) : node.along? [] = some node := rfl

theorem along?_cons (node : Node) (index : Fin node.children.length) (rest : Trail) :
    node.along? (index.val :: rest) = node.children[index].along? rest := by
  rw [along?, List.getElem?_eq_getElem index.isLt]
  rfl

theorem isScopeAt_cons (node : Node) (index : Fin node.children.length) (rest : Trail) :
    node.isScopeAt (index.val :: rest) = node.children[index].isScopeAt rest := by
  rw [isScopeAt, along?_cons, isScopeAt]

theorem mem_trails {node : Node} {trail : Trail} :
    trail ∈ node.trails ↔ (node.along? trail).isSome = true := by
  induction trail generalizing node with
  | nil => rw [trails]; simp
  | cons index rest inductionHypothesis =>
    rw [trails, List.mem_cons, List.mem_flatMap]
    constructor
    · rintro (equal | ⟨place, _, member⟩)
      · cases equal
      · obtain ⟨inner, innerMember, equal⟩ := List.mem_map.mp member
        obtain ⟨rfl, rfl⟩ := List.cons.inj equal
        rw [along?_cons]
        exact inductionHypothesis.mp innerMember
    · intro found
      rw [along?] at found
      obtain ⟨below, step⟩ := Option.isSome_iff_exists.mp (Option.isSome_of_isSome_bind found)
      obtain ⟨bound, rfl⟩ := List.getElem?_eq_some_iff.mp step
      rw [step] at found
      exact Or.inr ⟨⟨index, bound⟩, List.mem_finRange _,
        List.mem_map.mpr ⟨rest, inductionHypothesis.mpr found, rfl⟩⟩

/-- The trails are listed in lexical order. -/
theorem trails_pairwise (node : Node) : node.trails.Pairwise (· < ·) := by
  induction size : node.size using Nat.strongRecOn generalizing node with
  | _ bound inductionHypothesis =>
  subst size
  rw [trails, List.pairwise_cons, List.pairwise_flatMap]
  refine ⟨fun trail member => ?_, fun index _ => ?_, ?_⟩
  · obtain ⟨index, _, below⟩ := List.mem_flatMap.mp member
    obtain ⟨rest, _, rfl⟩ := List.mem_map.mp below
    exact List.nil_lt_cons _ _
  · have smaller := size_lt_of_mem_children (List.getElem_mem index.isLt)
    refine List.pairwise_map.mpr ((inductionHypothesis _ smaller _ rfl).imp fun before => ?_)
    exact List.cons_lt_cons_iff.mpr (Or.inr ⟨rfl, before⟩)
  · refine (List.pairwise_lt_finRange _).imp fun before trail member other otherMember => ?_
    obtain ⟨_, _, rfl⟩ := List.mem_map.mp member
    obtain ⟨_, _, rfl⟩ := List.mem_map.mp otherMember
    exact List.cons_lt_cons_iff.mpr (Or.inl before)

theorem mem_scopeTrails {tree : Node} {trail : Trail} :
    trail ∈ tree.scopeTrails ↔ tree.isScopeAt trail = true := by
  rw [scopeTrails, List.mem_filter, mem_trails]
  refine ⟨And.right, fun opens => ⟨?_, opens⟩⟩
  rw [isScopeAt] at opens
  cases found : tree.along? trail with
  | none => rw [found] at opens; cases opens
  | some node => rfl

theorem scopeTrails_pairwise (tree : Node) : tree.scopeTrails.Pairwise (· < ·) :=
  tree.trails_pairwise.filter _

/-! ### Scopes along the trails -/

theorem filter_map_cons (node : Node) (index : Fin node.children.length) (list : List Trail) :
    (list.map (index.val :: ·)).filter node.isScopeAt =
      (list.filter node.children[index].isScopeAt).map (index.val :: ·) := by
  rw [List.filter_map]
  exact congrArg _ (List.filter_congr fun trail _ => isScopeAt_cons node index trail)

theorem filter_cons_nil (node : Node) (list : List Trail) :
    (([] : Trail) :: list).filter node.isScopeAt =
      (if node.kind.opensScope then [[]] else []) ++ list.filter node.isScopeAt := by
  rw [List.filter_cons]
  show (if node.kind.opensScope then _ else _) = _
  split <;> rfl

theorem scopeTrails_eq (node : Node) :
    node.scopeTrails = (if node.kind.opensScope then [[]] else []) ++
      (List.finRange node.children.length).flatMap fun index =>
        node.children[index].scopeTrails.map (index.val :: ·) := by
  rw [scopeTrails, trails, filter_cons_nil, List.filter_flatMap]
  simp only [filter_map_cons]
  rfl

theorem scopesAbove_cons (node : Node) (index : Fin node.children.length) (rest : Trail) :
    node.scopesAbove (index.val :: rest) = (if node.kind.opensScope then [[]] else []) ++
      (node.children[index].scopesAbove rest).map (index.val :: ·) := by
  have inits : rest.inits.map (index.val :: ·) ≠ [] := by
    cases rest <;> simp
  rw [scopesAbove, List.inits_cons, List.dropLast_cons_of_ne_nil inits, ← List.map_dropLast,
    filter_cons_nil, filter_map_cons]
  rfl

/-- Only nodes of certain kinds open a scope. -/
theorem isSome_scope? (depth : Nat) (node : Node) :
    (node.scope? depth).isSome = node.kind.opensScope := by
  obtain ⟨kind, fields⟩ := node
  cases kind <;> rfl

theorem depth_of_scope? {depth : Nat} {node : Node} {scope : Scope}
    (opened : node.scope? depth = some scope) : scope.depth = depth := by
  obtain ⟨names, _, rfl⟩ := Option.map_eq_some_iff.mp opened
  rfl

theorem flatMap_children_eq {α : Type} (list : Node → List α) (node : Node) :
    node.children.flatMap list =
      (List.finRange node.children.length).flatMap fun index => list node.children[index] := by
  nth_rewrite 1 [← List.map_getElem_finRange node.children]
  rw [List.flatMap_map]
  rfl

/-- The scopes from a node on are listed along the trails to the nodes that open them, `depth`
deeper than the trails tell. -/
theorem scopesAt_along_trails (depth : Nat) (node : Node) :
    List.Forall₂ (fun trail scope => scope.depth = depth + (node.scopesAbove trail).length ∧
      (node.along? trail).bind (scope? scope.depth) = some scope)
      node.scopeTrails (node.scopesAt depth) := by
  induction size : node.size using Nat.strongRecOn generalizing depth node with
  | _ bound inductionHypothesis =>
  subst size
  -- The scopes below the node are as deep as the node is, or one deeper if it opens one.
  have below (deeper : Nat)
      (passed : deeper = depth + (if node.kind.opensScope then [([] : Trail)] else []).length) :
      List.Forall₂ (fun trail scope => scope.depth = depth + (node.scopesAbove trail).length ∧
        (node.along? trail).bind (scope? scope.depth) = some scope)
        ((List.finRange node.children.length).flatMap fun index =>
          node.children[index].scopeTrails.map (index.val :: ·))
        (node.children.flatMap (scopesAt deeper)) := by
    rw [flatMap_children_eq]
    refine List.rel_flatMap (List.forall₂_same.mpr fun _ _ => rfl) ?_
    rintro index _ rfl
    refine List.forall₂_map_left_iff.mpr ?_
    refine (inductionHypothesis _ (size_lt_of_mem_children (List.getElem_mem index.isLt)) deeper _
      rfl).imp fun trail scope ⟨deep, entry⟩ => ⟨?_, ?_⟩
    · rw [deep, passed, scopesAbove_cons, List.length_append, List.length_map, Nat.add_assoc]
      rfl
    · rw [along?_cons]
      exact entry
  rw [scopeTrails_eq, scopesAt_eq, ← isSome_scope? depth]
  rw [← isSome_scope? depth] at below
  cases opened : node.scope? depth with
  | none =>
    rw [opened] at below
    exact below depth rfl
  | some scope =>
    rw [opened] at below
    have here : scope.depth = depth := depth_of_scope? opened
    refine .cons ⟨here, ?_⟩ (below (depth + 1) rfl)
    rw [here]
    exact opened

theorem scopes_along_trails (tree : Node) :
    List.Forall₂ tree.ListedAt tree.scopeTrails tree.scopes :=
  (tree.scopesAt_along_trails 0).imp fun _ _ ⟨depth, entry⟩ =>
    ⟨depth.trans (Nat.zero_add _), entry⟩

theorem map_depth_scopes (tree : Node) :
    tree.scopes.map Scope.depth =
      tree.scopeTrails.map fun trail => (tree.scopesAbove trail).length := by
  have depths := tree.scopes_along_trails.imp fun _ _ listed => listed.depth.symm
  rwa [← List.forall₂_map_right_iff, ← List.forall₂_map_left_iff, List.forall₂_eq_eq_eq,
    eq_comm] at depths

end Node

/-! ### The scopes that a trail passes -/

namespace Trail

/-- The trails that lead the same way end with the whole trail. -/
theorem inits_eq (trail : Trail) : trail.inits = trail.inits.dropLast ++ [trail] := by
  induction trail with
  | nil => rfl
  | cons index rest inductionHypothesis =>
    have inits : rest.inits.map (index :: ·) ≠ [] := by
      cases rest <;> simp
    rw [List.inits_cons, List.dropLast_cons_of_ne_nil inits, ← List.map_dropLast, List.cons_append]
    nth_rewrite 1 [inductionHypothesis]
    rw [List.map_append]
    rfl

theorem inits_nodup (trail : Trail) : trail.inits.Nodup := by
  induction trail with
  | nil => exact List.nodup_singleton _
  | cons index rest inductionHypothesis =>
    rw [List.inits_cons, List.nodup_cons]
    exact ⟨by simp, inductionHypothesis.map List.cons_injective⟩

theorem exists_append_of_mem {trail outer : Trail} (member : outer ∈ trail.inits.dropLast) :
    ∃ onward, onward ≠ [] ∧ outer ++ onward = trail := by
  obtain ⟨onward, rfl⟩ := (List.mem_inits outer trail).mp (List.mem_of_mem_dropLast member)
  refine ⟨onward, ?_, rfl⟩
  rintro rfl
  have distinct := inits_nodup (outer ++ [])
  rw [inits_eq] at distinct
  rw [List.append_nil] at member distinct
  exact List.disjoint_of_nodup_append distinct member (List.mem_singleton.mpr rfl)

theorem inits_isPrefix (outer : Trail) {onward : Trail} (further : onward ≠ []) :
    outer.inits <+: (outer ++ onward).inits.dropLast := by
  obtain ⟨index, rest, rfl⟩ := List.exists_cons_of_ne_nil further
  have longer : (index :: rest).inits.tail.map (outer ++ ·) ≠ [] := by
    cases rest <;> simp
  rw [List.inits_append, List.dropLast_append_of_ne_nil longer]
  exact List.prefix_append _ _

/-- What stands in lexical order between a trail and a trail that goes on from it goes on from it
too. -/
theorem isPrefix_of_between {outer between trail : Trail} (leads : outer <+: trail)
    (behind : outer < between) (before : between < trail) : outer <+: between := by
  induction outer generalizing between trail with
  | nil => exact List.nil_prefix
  | cons index rest inductionHypothesis =>
    obtain ⟨onward, rfl⟩ := leads
    cases between with
    | nil => exact absurd behind (List.not_lt_nil _)
    | cons other others =>
      rw [List.cons_append] at before
      rcases List.cons_lt_cons_iff.mp behind with less | ⟨rfl, restBehind⟩
      · rcases List.cons_lt_cons_iff.mp before with more | ⟨rfl, _⟩
        · omega
        · omega
      · rcases List.cons_lt_cons_iff.mp before with more | ⟨_, restBefore⟩
        · omega
        · exact (List.prefix_cons_inj _).mpr
            (inductionHypothesis (List.prefix_append _ _) restBehind restBefore)

end Trail

namespace Node

variable {tree : Node} {trail outer : Trail}

/-- Behind a scope, a trail has passed the scopes around it and the scope itself. -/
theorem scopesAbove_append (opens : tree.isScopeAt outer = true) {onward : Trail}
    (further : onward ≠ []) :
    tree.scopesAbove outer ++ [outer] <+: tree.scopesAbove (outer ++ onward) := by
  have passed : tree.scopesAbove outer ++ [outer] = outer.inits.filter tree.isScopeAt := by
    rw [Trail.inits_eq, List.filter_append, List.filter_singleton, opens]
    rfl
  rw [passed]
  exact (Trail.inits_isPrefix outer further).filter _

/-- The innermost of the scopes that a trail passes: the trail leads through it, and the others are
the scopes around it. -/
theorem scopesAbove_of_getLast? (innermost : (tree.scopesAbove trail).getLast? = some outer) :
    tree.isScopeAt outer = true ∧ (∃ onward, onward ≠ [] ∧ outer ++ onward = trail) ∧
      tree.scopesAbove trail = tree.scopesAbove outer ++ [outer] := by
  obtain ⟨passed, opens⟩ := List.mem_filter.mp (List.mem_of_getLast? innermost)
  obtain ⟨onward, further, rfl⟩ := Trail.exists_append_of_mem passed
  refine ⟨opens, ⟨onward, further, rfl⟩, ?_⟩
  obtain ⟨others, split⟩ := scopesAbove_append opens further
  cases others using List.reverseRecOn with
  | nil => rw [← split, List.append_nil]
  | append_singleton others last =>
    -- A further scope would be the innermost one, and be passed twice.
    have distinct : (tree.scopesAbove (outer ++ onward)).Nodup :=
      ((Trail.inits_nodup _).sublist (List.dropLast_sublist _)).filter _
    rw [← split] at innermost distinct
    rw [← List.append_assoc, List.getLast?_concat] at innermost
    obtain rfl : last = outer := Option.some.inj innermost
    have atEnd (front : List Trail) : last ∈ front ++ [last] :=
      List.mem_append_right front (List.mem_singleton.mpr rfl)
    exact absurd (atEnd others) (List.disjoint_of_nodup_append distinct (atEnd _))

end Node

/-! ### The nesting from the depths -/

/-- The last entry before the one of that index whose depth is one less. -/
def Scope.enclosing? (depths : List Nat) (index : Nat) : Option Nat :=
  (List.range index).reverse.find? fun earlier => depths[earlier]?.map (· + 1) == depths[index]?

theorem find?_reverse_range {holds : Nat → Bool} {bound found : Nat} (within : found < bound)
    (here : holds found = true)
    (after : ∀ later, found < later → later < bound → holds later = false) :
    (List.range bound).reverse.find? holds = some found := by
  induction bound with
  | zero => omega
  | succ bound inductionHypothesis =>
    rw [List.range_succ, List.reverse_append, List.reverse_singleton, List.singleton_append,
      List.find?_cons]
    rcases Nat.lt_or_eq_of_le (Nat.le_of_lt_succ within) with less | rfl
    · rw [after bound less (Nat.lt_succ_self bound)]
      exact inductionHypothesis less fun later behind before =>
        after later behind (Nat.lt_succ_of_lt before)
    · rw [here]

namespace Node

/-- The trails to scopes are listed in their order. -/
theorem index_lt_iff {tree : Node} {index other : Nat} {trail next : Trail}
    (listed : tree.scopeTrails[index]? = some trail)
    (otherListed : tree.scopeTrails[other]? = some next) : index < other ↔ trail < next := by
  have ordered {first second : Nat} {one two : Trail} (before : first < second)
      (firstListed : tree.scopeTrails[first]? = some one)
      (secondListed : tree.scopeTrails[second]? = some two) : one < two := by
    obtain ⟨firstBound, rfl⟩ := List.getElem?_eq_some_iff.mp firstListed
    obtain ⟨secondBound, rfl⟩ := List.getElem?_eq_some_iff.mp secondListed
    exact List.pairwise_iff_getElem.mp tree.scopeTrails_pairwise _ _ firstBound secondBound before
  refine ⟨fun before => ordered before listed otherListed, fun before => ?_⟩
  rcases Nat.lt_trichotomy index other with less | rfl | greater
  · exact less
  · rw [listed] at otherListed
    exact absurd (Option.some.inj otherListed ▸ before) (lt_irrefl _)
  · exact absurd (ordered greater otherListed listed) (lt_asymm before)

/-- The depths tell which scope is the innermost one around another. -/
theorem enclosing?_eq {tree : Node} {index : Nat} {trail : Trail}
    (listed : tree.scopeTrails[index]? = some trail) :
    (Scope.enclosing? (tree.scopes.map Scope.depth) index).bind (tree.scopeTrails[·]?) =
      (tree.scopesAbove trail).getLast? := by
  have depthAt (place : Nat) : (tree.scopes.map Scope.depth)[place]? =
      tree.scopeTrails[place]?.map fun trail => (tree.scopesAbove trail).length := by
    rw [map_depth_scopes, List.getElem?_map]
  unfold Scope.enclosing?
  simp only [depthAt, listed, Option.map_some, Option.map_map]
  cases innermost : (tree.scopesAbove trail).getLast? with
  | none =>
    -- Nothing is less deep than a scope that stands in no other.
    have outermost : tree.scopesAbove trail = [] := List.getLast?_eq_none_iff.mp innermost
    rw [List.find?_eq_none.mpr fun earlier _ => ?_]
    · rfl
    rw [outermost]
    cases tree.scopeTrails[earlier]? <;> simp
  | some outer =>
    obtain ⟨opens, ⟨onward, further, rfl⟩, passed⟩ := scopesAbove_of_getLast? innermost
    obtain ⟨place, found⟩ := List.mem_iff_getElem?.mp (mem_scopeTrails.mpr opens)
    have leads : outer < outer ++ onward := by
      obtain ⟨step, rest, rfl⟩ := List.exists_cons_of_ne_nil further
      have longer : outer ++ [] < outer ++ step :: rest :=
        List.append_left_lt (List.nil_lt_cons step rest)
      rwa [List.append_nil] at longer
    rw [find?_reverse_range ((index_lt_iff found listed).mpr leads)]
    · exact found
    · rw [found, passed]
      simp
    · intro later behind before
      obtain ⟨bound, _⟩ := List.getElem?_eq_some_iff.mp listed
      have laterListed := List.getElem?_eq_getElem (Nat.lt_trans before bound)
      -- What is listed in between stands inside the outer scope too.
      obtain ⟨between, equal⟩ := Trail.isPrefix_of_between (List.prefix_append outer onward)
        ((index_lt_iff found laterListed).mp behind) ((index_lt_iff laterListed listed).mp before)
      have inside : between ≠ [] := by
        rintro rfl
        rw [List.append_nil] at equal
        exact lt_irrefl _ (equal ▸ (index_lt_iff found laterListed).mp behind)
      have deeper := (scopesAbove_append opens inside).length_le
      rw [laterListed, ← equal, passed]
      simp at deeper ⊢
      omega

end Node

/-- The list of the scopes of a tree has one entry for each program, function and catch clause of
the tree, in pre-order, with the number of the scopes around it. The innermost of these is the last
one listed before it whose depth is one less. No entry lists a name twice. -/
theorem scopes_encode_forest (tree : Node) :
    tree.scopeTrails.Pairwise (· < ·) ∧
      (∀ trail, trail ∈ tree.scopeTrails ↔
        ∃ node, tree.along? trail = some node ∧ node.kind.opensScope = true) ∧
      List.Forall₂ tree.ListedAt tree.scopeTrails tree.scopes ∧
      (∀ index trail, tree.scopeTrails[index]? = some trail →
        (Scope.enclosing? (tree.scopes.map Scope.depth) index).bind (tree.scopeTrails[·]?) =
          (tree.scopesAbove trail).getLast?) ∧
      ∀ scope ∈ tree.scopes, scope.names.Nodup := by
  refine ⟨tree.scopeTrails_pairwise, fun trail => ?_, tree.scopes_along_trails,
    fun index trail listed => Node.enclosing?_eq listed, fun scope member => ?_⟩
  · rw [Node.mem_scopeTrails, Node.isScopeAt, Option.any_eq_true]
  · exact tree.scopeEntries_nodup (scope.kind, scope.names) (List.mem_map.mpr ⟨scope, member, rfl⟩)

theorem fourScopes_forest :
    fourScopes.scopes.map Scope.depth = [0, 1, 1, 2] ∧
      fourScopes.scopeTrails[3]? = some [1, 1, 1] ∧
      (Scope.enclosing? [0, 1, 1, 2] 3).bind (fourScopes.scopeTrails[·]?) = some [1] ∧
      ∃ scope ∈ fourScopes.scopes, scope.names = ["e", "f"] ∧ scope.names.Nodup := by
  have depths : fourScopes.scopes.map Scope.depth = [0, 1, 1, 2] := by cbv
  have listed : fourScopes.scopeTrails[3]? = some [1, 1, 1] := by cbv
  have above : (fourScopes.scopesAbove [1, 1, 1]).getLast? = some [1] := by cbv
  have names : fourScopes.scopes.head?.map Scope.names = some ["e", "f"] := by cbv
  obtain ⟨program, found, named⟩ := Option.map_eq_some_iff.mp names
  have first : program ∈ fourScopes.scopes := List.mem_of_head? found
  obtain ⟨_, _, _, nested, distinct⟩ := scopes_encode_forest fourScopes
  refine ⟨depths, listed, ?_, program, first, named, distinct program first⟩
  rw [← depths, nested 3 [1, 1, 1] listed, above]

end EstreeScopes
