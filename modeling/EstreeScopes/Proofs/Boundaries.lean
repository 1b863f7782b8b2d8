/-
This file shows that hoisting stops at its boundaries. Two trees may differ in all
that hoisting does not look at: in functions and classes that are expressions, in
initial values, in what a declared function or class holds beside its name, in
what an import specifier holds beside the local name, in default values, and in
all plain values that are no names. Then the same names are hoisted out of both,
in the same order (`hoisting_stops_at_boundaries`).

A boundary is one only outside of patterns. In a pattern, a node that is no
pattern is searched for names through all its fields, and it makes no difference
whether it is a declaration or a function (`declarations_in_patterns_are_searched`).
So there are two relations between trees: one for the nodes that hoisting goes
through, and one for the patterns that it comes to.
-/

import EstreeScopes.Proofs.Coverage

namespace EstreeScopes

/-! ### Trees that differ behind boundaries -/

/-- Whether a field holds a plain value or nothing. -/
def Field.isPlain {α : Type} : Field α → Bool
  | .absent | .value _ => true
  | .node _ | .list _ => false

/-- Two entries of the same name hold nodes that are related, one by one, or plain values. The plain
values are the same if they are a name. -/
inductive Entries.Corresponds (related : Node → Node → Prop) :
    String × Field Node → String × Field Node → Prop
  | held (slot : String) {first second : Field Node} (fields : Field.Related related first second) :
      Corresponds related (slot, first) (slot, second)
  | plain {slot : String} {first second : Field Node} (noName : slot ≠ "name")
      (isPlain : first.isPlain = true) (otherPlain : second.isPlain = true) :
      Corresponds related (slot, first) (slot, second)

/-- Two patterns differ only in plain values that are no names, and in what patterns with a default
value hold beside their left side. -/
inductive Node.BindsAlike : Node → Node → Prop
  | default {pattern other : Node} (kind : pattern.kind = .assignmentPattern)
      (otherKind : other.kind = .assignmentPattern)
      (left : Option.Rel BindsAlike (pattern.child? "left") (other.child? "left")) :
      BindsAlike pattern other
  | fields {kind : Kind} {fields others : List (String × Field Node)}
      (each : List.Forall₂ (Entries.Corresponds BindsAlike) fields others) :
      BindsAlike ⟨kind, fields⟩ ⟨kind, others⟩

namespace Kind

/-- Functions and classes that are expressions. -/
def isScopedExpression : Kind → Bool
  | .functionExpression | .arrowFunctionExpression | .classExpression => true
  | _ => false

/-- Functions and classes that are declared. -/
def isScopedDeclaration : Kind → Bool
  | .functionDeclaration | .classDeclaration => true
  | _ => false

/-- Whether hoisting goes through the nodes of a kind to all nodes below. -/
def hoistsThrough (kind : Kind) : Bool :=
  !(kind.isScopedExpression || kind.isScopedDeclaration || kind.isImportSpecifier ||
    kind == .variableDeclarator || kind == .catchClause)

end Kind

/-- Two trees differ only behind the boundaries of hoisting, and in plain values that are no
names. -/
inductive Node.HoistsAlike : Node → Node → Prop
  | expression {node other : Node} (kind : node.kind.isScopedExpression = true)
      (otherKind : other.kind.isScopedExpression = true) : HoistsAlike node other
  | declarator {node other : Node} (kind : node.kind = .variableDeclarator)
      (otherKind : other.kind = .variableDeclarator)
      (id : Option.Rel Node.BindsAlike (node.child? "id") (other.child? "id")) :
      HoistsAlike node other
  | declaration {node other : Node} (kind : node.kind.isScopedDeclaration = true)
      (sameKind : other.kind = node.kind)
      (name : (other.child? "id").bind Node.name? = (node.child? "id").bind Node.name?) :
      HoistsAlike node other
  | specifier {node other : Node} (kind : node.kind.isImportSpecifier = true)
      (sameKind : other.kind = node.kind)
      (name : Option.Rel Node.BindsAlike (node.child? "local") (other.child? "local")) :
      HoistsAlike node other
  | caught {node other : Node} (kind : node.kind = .catchClause)
      (otherKind : other.kind = .catchClause)
      (param : Option.Rel Node.BindsAlike (node.child? "param") (other.child? "param"))
      (body : Option.Rel HoistsAlike (node.child? "body") (other.child? "body")) :
      HoistsAlike node other
  | fields {kind : Kind} {fields others : List (String × Field Node)}
      (through : kind.hoistsThrough = true)
      (each : List.Forall₂ (Entries.Corresponds HoistsAlike) fields others) :
      HoistsAlike ⟨kind, fields⟩ ⟨kind, others⟩

/-! ### Nodes that correspond -/

section

variable {related : Node → Node → Prop} {fields others : List (String × Field Node)}

theorem Entries.Corresponds.nodes {entry other : String × Field Node}
    (corresponds : Entries.Corresponds related entry other) :
    List.Forall₂ related entry.2.nodes other.2.nodes := by
  cases corresponds with
  | held slot fields => exact fields.nodes
  | @plain slot first second noName isPlain otherPlain =>
    have nothing {held : Field Node} (plain : held.isPlain = true) : held.nodes = [] := by
      cases held <;> first | rfl | cases plain
    show List.Forall₂ related first.nodes second.nodes
    rw [nothing isPlain, nothing otherPlain]
    exact .nil

theorem Entries.Corresponds.find?
    (each : List.Forall₂ (Entries.Corresponds related) fields others) (slot : String) :
    Option.Rel (fun first second => Entries.Corresponds related (slot, first) (slot, second))
      (Entries.find? fields slot) (Entries.find? others slot) := by
  induction each with
  | nil => exact .none
  | cons first _ inductionHypothesis =>
    cases first with
    | held key values =>
      rw [Entries.find?, Entries.find?]
      split
      · exact .some (.held slot values)
      · exact inductionHypothesis
    | @plain key _ _ noName isPlain otherPlain =>
      rw [Entries.find?, Entries.find?]
      split
      · rename_i equal
        exact .some (.plain (equal ▸ noName) isPlain otherPlain)
      · exact inductionHypothesis

variable {kind : Kind} (each : List.Forall₂ (Entries.Corresponds related) fields others)
include each

theorem Entries.Corresponds.children :
    List.Forall₂ related (Node.mk kind fields).children (Node.mk kind others).children :=
  List.rel_flatMap each fun _ _ entries => entries.nodes

theorem Entries.Corresponds.child? (slot : String) :
    Option.Rel related ((Node.mk kind fields).child? slot) ((Node.mk kind others).child? slot) := by
  have found := Entries.Corresponds.find? each slot
  rw [Node.child?, Node.child?, Node.get?, Node.get?]
  generalize Entries.find? fields slot = first at found ⊢
  generalize Entries.find? others slot = second at found ⊢
  cases found with
  | none => exact .none
  | @some held other entries =>
    cases entries with
    | held _ values =>
      cases values with
      | node nodes => exact .some nodes
      | _ => exact .none
    | plain _ isPlain otherPlain =>
      cases held <;> cases other <;> first | exact .none | contradiction

/-- Names are the same in both. -/
theorem Entries.Corresponds.name? : (Node.mk kind others).name? = (Node.mk kind fields).name? := by
  have found := Entries.Corresponds.find? each "name"
  rw [Node.name?, Node.name?, Node.value?, Node.value?, Node.get?, Node.get?]
  generalize Entries.find? fields "name" = first at found ⊢
  generalize Entries.find? others "name" = second at found ⊢
  cases found with
  | none => rfl
  | some entries =>
    cases entries with
    | held _ values => cases values <;> rfl
    | plain noName => contradiction

end

/-! ### Names that patterns bind alike -/

/-- What is collected from nodes that are related is the same, if it is the same for each two. -/
theorem flatMap_of_forall₂ {related : Node → Node → Prop} {nodes others : List Node}
    {collect : Node → List String} (each : List.Forall₂ related nodes others)
    (same : ∀ node ∈ nodes, ∀ other, related node other → collect other = collect node) :
    others.flatMap collect = nodes.flatMap collect := by
  induction each with
  | nil => rfl
  | @cons node other _ _ first _ inductionHypothesis =>
    rw [List.flatMap_cons, List.flatMap_cons, same node List.mem_cons_self other first,
      inductionHypothesis fun node member => same node (List.mem_cons_of_mem _ member)]

namespace Node

namespace BindsAlike

variable {pattern other : Node} (alike : pattern.BindsAlike other)
include alike

theorem kind : other.kind = pattern.kind := by
  cases alike with
  | default kind otherKind => rw [kind, otherKind]
  | fields => rfl

/-- The parts that bind names bind alike. -/
theorem bindingParts : List.Forall₂ BindsAlike pattern.bindingParts other.bindingParts := by
  cases alike with
  | default kind otherKind left =>
    rw [Node.bindingParts, Node.bindingParts, kind, otherKind]
    exact forall₂_toList left
  | @fields kind fields others each =>
    have part (slot : String) :
        Option.Rel BindsAlike (child? ⟨kind, fields⟩ slot) (child? ⟨kind, others⟩ slot) :=
      Entries.Corresponds.child? each slot
    by_cases property : kind = .property
    · have values := part "value"
      rw [bindingParts_property property, bindingParts_property property]
      generalize child? ⟨kind, fields⟩ "value" = first at values ⊢
      generalize child? ⟨kind, others⟩ "value" = second at values ⊢
      cases values with
      | none => exact forall₂_toList (part "key")
      | some nodes =>
        rw [Option.any_some, Option.any_some, nodes.kind]
        split
        · exact .cons nodes .nil
        · exact forall₂_toList (part "key")
    · rw [Node.bindingParts, Node.bindingParts]
      dsimp only
      split
      · exact .nil
      · exact forall₂_toList (part "left")
      · exact forall₂_toList (part "argument")
      · contradiction
      · exact Entries.Corresponds.children each

/-- Patterns that bind alike bind the same names, in the same order. -/
theorem boundNames : other.boundNames = pattern.boundNames := by
  induction size : pattern.size using Nat.strongRecOn generalizing pattern other with
  | _ bound inductionHypothesis =>
  subst size
  rw [boundNames_eq, boundNames_eq, alike.kind]
  split
  · rename_i identifier
    cases alike with
    | default kind => rw [kind] at identifier; cases identifier
    | fields each => rw [Entries.Corresponds.name? each]
  · refine flatMap_of_forall₂ alike.bindingParts fun part member next parts => ?_
    have smaller := size_lt_of_mem_children (mem_children_of_mem_bindingParts member)
    exact inductionHypothesis part.size smaller parts rfl

end BindsAlike

theorem boundNamesOf_of_bindsAlike {node other : Node} {slot : String}
    (patterns : Option.Rel BindsAlike (node.child? slot) (other.child? slot)) :
    other.boundNamesOf slot = node.boundNamesOf slot :=
  flatMap_of_forall₂ (forall₂_toList patterns) fun _ _ _ alike => alike.boundNames

/-! ### Names that are hoisted alike -/

/-- Hoisting goes through to all nodes below, and finds no name on the way. -/
theorem hoistsThrough_parts (node : Node) (through : node.kind.hoistsThrough = true) :
    node.hoistingParts = node.children ∧ node.declaredNames = [] := by
  rw [hoistingParts, Node.declaredNames]
  cases kind : node.kind
  all_goals first
    | exact ⟨rfl, rfl⟩
    | rw [kind] at through; cases through

/-- Nothing is hoisted out of functions and classes that are expressions. -/
theorem scopedExpression_parts {node : Node} (belongs : node.kind.isScopedExpression = true) :
    node.hoistingParts = [] ∧ node.declaredNames = [] := by
  unfold Kind.isScopedExpression at belongs
  split at belongs
  case h_4 => cases belongs
  all_goals
    rename_i kind
    rw [hoistingParts, Node.declaredNames, kind]
    exact ⟨rfl, rfl⟩

/-- Of a declared function or class only the name is hoisted. -/
theorem scopedDeclaration_parts {node : Node} (belongs : node.kind.isScopedDeclaration = true) :
    node.hoistingParts = [] ∧
      node.declaredNames = ((node.child? "id").bind Node.name?).toList := by
  unfold Kind.isScopedDeclaration at belongs
  split at belongs
  case h_3 => cases belongs
  all_goals
    rename_i kind
    rw [hoistingParts, Node.declaredNames, kind]
    exact ⟨rfl, rfl⟩

/-- Of an import specifier only the local name is hoisted. -/
theorem importSpecifier_parts {node : Node} (belongs : node.kind.isImportSpecifier = true) :
    node.hoistingParts = [] ∧ node.declaredNames = node.boundNamesOf "local" := by
  unfold Kind.isImportSpecifier at belongs
  split at belongs
  case h_4 => cases belongs
  all_goals
    rename_i kind
    rw [hoistingParts, Node.declaredNames, kind]
    exact ⟨rfl, rfl⟩

/-- One step of hoisting on two trees that hoist alike: it goes on to parts that hoist alike, and
the nodes declare the same names. -/
theorem HoistsAlike.step {node other : Node} (alike : node.HoistsAlike other) :
    List.Forall₂ HoistsAlike node.hoistingParts other.hoistingParts ∧
      other.declaredNames = node.declaredNames := by
  cases alike with
  | expression kind otherKind =>
    -- The two nodes may be of different kinds, but nothing is hoisted out of either.
    obtain ⟨parts, names⟩ := scopedExpression_parts kind
    obtain ⟨otherParts, otherNames⟩ := scopedExpression_parts otherKind
    rw [parts, otherParts, names, otherNames]
    exact ⟨.nil, rfl⟩
  | declarator kind otherKind id =>
    rw [hoistingParts, hoistingParts, Node.declaredNames, Node.declaredNames, kind, otherKind]
    exact ⟨.nil, boundNamesOf_of_bindsAlike id⟩
  | declaration kind sameKind name =>
    obtain ⟨parts, names⟩ := scopedDeclaration_parts kind
    obtain ⟨otherParts, otherNames⟩ := scopedDeclaration_parts (sameKind ▸ kind)
    rw [parts, otherParts, names, otherNames, name]
    exact ⟨.nil, rfl⟩
  | specifier kind sameKind name =>
    obtain ⟨parts, names⟩ := importSpecifier_parts kind
    obtain ⟨otherParts, otherNames⟩ := importSpecifier_parts (sameKind ▸ kind)
    rw [parts, otherParts, names, otherNames]
    exact ⟨.nil, boundNamesOf_of_bindsAlike name⟩
  | caught kind otherKind param body =>
    rw [hoistingParts, hoistingParts, Node.declaredNames, Node.declaredNames, kind, otherKind]
    exact ⟨forall₂_toList body, boundNamesOf_of_bindsAlike param⟩
  | @fields kind fields others through each =>
    obtain ⟨parts, names⟩ := hoistsThrough_parts ⟨kind, fields⟩ through
    obtain ⟨otherParts, otherNames⟩ := hoistsThrough_parts ⟨kind, others⟩ through
    rw [parts, otherParts, names, otherNames]
    exact ⟨Entries.Corresponds.children each, rfl⟩

/-- The same names are hoisted out of trees that hoist alike, in the same order. -/
theorem HoistsAlike.hoistedNames {node other : Node} (alike : node.HoistsAlike other) :
    other.hoistedNames = node.hoistedNames := by
  induction size : node.size using Nat.strongRecOn generalizing node other with
  | _ bound inductionHypothesis =>
  subst size
  obtain ⟨parts, names⟩ := alike.step
  rw [hoistedNames_eq, hoistedNames_eq, names]
  refine congrArg (· ++ _) (flatMap_of_forall₂ parts fun part member next alike => ?_)
  have smaller := size_lt_of_mem_children (mem_children_of_mem_hoistingParts member)
  exact inductionHypothesis part.size smaller alike rfl

/-! ### Names of nested functions -/

/-- A node stands in a tree, and in none of the functions of the tree. -/
inductive OutsideFunctions : Node → Node → Prop
  | here (tree : Node) : OutsideFunctions tree tree
  | inside {tree child node : Node} (noFunction : tree.kind.isFunction = false)
      (member : child ∈ tree.children) (outside : OutsideFunctions child node) :
      OutsideFunctions tree node

/-- Nothing is hoisted through a function. -/
theorem not_isFunction_of_mem_hoistingParts {node part : Node}
    (member : part ∈ node.hoistingParts) : node.kind.isFunction = false := by
  rw [hoistingParts] at member
  cases kind : node.kind <;> rw [kind] at member <;> first | rfl | cases member

/-- Every hoisted name is declared by a node that stands in no function. -/
theorem declared_outsideFunctions {tree : Node} {name : String}
    (hoisted : name ∈ tree.hoistedNames) :
    ∃ node, tree.OutsideFunctions node ∧ name ∈ node.declaredNames := by
  induction size : tree.size using Nat.strongRecOn generalizing tree with
  | _ bound inductionHypothesis =>
  subst size
  rw [hoistedNames_eq] at hoisted
  rcases List.mem_append.mp hoisted with inParts | declared
  · obtain ⟨part, member, inPart⟩ := List.mem_flatMap.mp inParts
    have below := mem_children_of_mem_hoistingParts member
    obtain ⟨node, outside, declared⟩ :=
      inductionHypothesis part.size (size_lt_of_mem_children below) inPart rfl
    exact ⟨node, .inside (not_isFunction_of_mem_hoistingParts member) below outside, declared⟩
  · exact ⟨tree, .here tree, declared⟩

end Node

/-- Trees that differ only behind the boundaries of hoisting have the same names hoisted out of
them, in the same order, and no name that a function declares inside is among them. -/
theorem hoisting_stops_at_boundaries (tree other : Node) (alike : tree.HoistsAlike other) :
    other.hoistedNames = tree.hoistedNames ∧
      ∀ name ∈ tree.hoistedNames,
        ∃ node, tree.OutsideFunctions node ∧ name ∈ node.declaredNames :=
  ⟨alike.hoistedNames, fun _ hoisted => Node.declared_outsideFunctions hoisted⟩

/-- A program that declares names and has room behind all the boundaries of hoisting. -/
def bounded (source : String) (hidden : Node) : Node :=
  ⟨.program,
    [ ("sourceType", .value (.string source)),
      ("body", .list
        [ some ⟨.importSpecifier,
            [("imported", .node hidden), ("local", .node (.identifier "i"))]⟩,
          some ⟨.variableDeclarator,
            [ ("id", .node ⟨.arrayPattern,
                [("elements", .list [none, some ⟨.assignmentPattern,
                  [("left", .node (.identifier "x")), ("right", .node hidden)]⟩])]⟩),
              ("init", .node hidden) ]⟩,
          some ⟨.functionDeclaration,
            [("id", .node (.identifier "f")), ("params", .list [some hidden])]⟩,
          some ⟨.catchClause,
            [ ("param", .node (.identifier "e")),
              ("body", .node ⟨.arrowFunctionExpression, [("body", .node hidden)]⟩),
              ("extra", .node hidden) ]⟩ ]) ]⟩

/-- Only what stands behind the boundaries differs. -/
theorem bounded_hoistsAlike (source other : String) (hidden next : Node) :
    (bounded source hidden).HoistsAlike (bounded other next) := by
  have sameName (name : String) : (Node.identifier name).BindsAlike (.identifier name) :=
    .fields (.cons (.held _ (.value _)) .nil)
  refine .fields rfl (.cons (.plain (by decide) rfl rfl) (.cons (.held _ (.list ?_)) .nil))
  refine .cons (.some ?specifier) (.cons (.some ?declarator)
    (.cons (.some ?declaration) (.cons (.some ?caught) .nil)))
  case specifier => exact .specifier rfl rfl (.some (sameName _))
  case declarator =>
    refine .declarator rfl rfl (.some (.fields (.cons (.held _ (.list ?_)) .nil)))
    exact .cons .none (.cons (.some (.default rfl rfl (.some (sameName _)))) .nil)
  case declaration => exact .declaration rfl rfl rfl
  case caught => exact .caught rfl rfl (.some (sameName _)) (.some (.expression rfl rfl))

/-- The names of a function that is put behind every boundary are hoisted nowhere. -/
theorem bounded_hidesFunction :
    (bounded "module" (.identifier "y")).HoistsAlike
        (bounded "script" ⟨.functionDeclaration, [("id", .node (.identifier "y"))]⟩) ∧
      (bounded "script" ⟨.functionDeclaration,
        [("id", .node (.identifier "y"))]⟩).hoistedNames = ["i", "x", "f", "e"] := by
  have alike := bounded_hoistsAlike "module" "script" (.identifier "y")
    ⟨.functionDeclaration, [("id", .node (.identifier "y"))]⟩
  have names : (bounded "module" (.identifier "y")).hoistedNames = ["i", "x", "f", "e"] := by cbv
  exact ⟨alike, (hoisting_stops_at_boundaries _ _ alike).1.trans names⟩

/-! ### Boundaries in patterns -/

/-- A declarator with a node for its pattern that is none. -/
def declares (kind : Kind) (slot : String) (held : Field Node) : Node :=
  ⟨.variableDeclarator, [("id", .node ⟨kind, [(slot, held)]⟩)]⟩

/-- In a pattern no declaration is a boundary. The parameters of a function, the superclass of a
class, an initial value, the imported name and any further part of a catch clause are all names that
the pattern binds. -/
theorem declarations_in_patterns_are_searched :
    ((declares .functionDeclaration "params" (.list [])).hoistedNames = [] ∧
        (declares .functionDeclaration "params"
          (.list [some (.identifier "y")])).hoistedNames = ["y"]) ∧
      ((declares .classDeclaration "superClass" .absent).hoistedNames = [] ∧
        (declares .classDeclaration "superClass"
          (.node (.identifier "y"))).hoistedNames = ["y"]) ∧
      ((declares .variableDeclarator "init" .absent).hoistedNames = [] ∧
        (declares .variableDeclarator "init" (.node (.identifier "y"))).hoistedNames = ["y"]) ∧
      ((declares .importSpecifier "imported" .absent).hoistedNames = [] ∧
        (declares .importSpecifier "imported" (.node (.identifier "y"))).hoistedNames = ["y"]) ∧
      (declares .catchClause "extra" .absent).hoistedNames = [] ∧
        (declares .catchClause "extra" (.node (.identifier "y"))).hoistedNames = ["y"] := by
  refine ⟨⟨?_, ?_⟩, ⟨?_, ?_⟩, ⟨?_, ?_⟩, ⟨?_, ?_⟩, ?_, ?_⟩ <;> cbv

end EstreeScopes
