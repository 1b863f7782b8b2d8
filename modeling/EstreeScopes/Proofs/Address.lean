/-
This file gives addresses in a tree and edits at addresses. An address leads down
from a node, one place after the other: a place is a field, and for a list an
item of it. An edit says what comes to stand at an address: another node, or
nothing. A tree is edited at all the addresses of a list of edits at once, and
everything else about it stays: the kinds, the names and the order of the fields,
the lengths of the lists and the holes in them.

Walking a field and putting it back is an edit. If edits that concern one slot
only are made by putting the edited field in place, the outcome is the same as
making them together with all edits that were made before (`set_editBelow`).
-/

import EstreeScopes.Proofs.WellFormed

namespace EstreeScopes

/-! ### Places and addresses -/

/-- One step down a tree: into a field, and in a list to the item of that index. -/
structure Place where
  slot : String
  index : Option Nat
deriving DecidableEq

/-- The way from a node to a node below it. -/
abbrev Address := List Place

/-- The nodes among the items of a list with their places, counted from `start`. -/
def itemPlaces (slot : String) (start : Nat) : List (Option Node) → List (Place × Node)
  | [] => []
  | none :: rest => itemPlaces slot (start + 1) rest
  | some child :: rest => (⟨slot, some start⟩, child) :: itemPlaces slot (start + 1) rest

/-- The nodes of a field with their places. -/
def Field.places (slot : String) : Field Node → List (Place × Node)
  | .node child => [(⟨slot, none⟩, child)]
  | .list items => itemPlaces slot 0 items
  | .absent | .value _ => []

namespace Node

/-- The node at a place. -/
def held? (node : Node) (place : Place) : Option Node :=
  match node.field place.slot, place.index with
  | .node child, none => some child
  | .list items, some index => items[index]?.join
  | _, _ => none

/-- The node at an address. -/
def at? (node : Node) : Address → Option Node
  | [] => some node
  | place :: rest => (node.held? place).bind fun child => child.at? rest

end Node

theorem itemPlaces_map_snd (slot : String) (start : Nat) (items : List (Option Node)) :
    (itemPlaces slot start items).map Prod.snd = items.filterMap id := by
  induction items generalizing start with
  | nil => rfl
  | cons item rest inductionHypothesis =>
    cases item <;> simp [itemPlaces, inductionHypothesis]

theorem Field.places_map_snd (slot : String) (held : Field Node) :
    (held.places slot).map Prod.snd = held.nodes := by
  cases held with
  | list items => exact itemPlaces_map_snd slot 0 items
  | _ => rfl

theorem mem_itemPlaces {slot : String} {start : Nat} {items : List (Option Node)} {place : Place}
    {child : Node} (member : (place, child) ∈ itemPlaces slot start items) :
    ∃ offset, place = ⟨slot, some (start + offset)⟩ ∧ items[offset]? = some (some child) := by
  induction items generalizing start with
  | nil => cases member
  | cons item rest inductionHypothesis =>
    have later (tail : (place, child) ∈ itemPlaces slot (start + 1) rest) :
        ∃ offset, place = ⟨slot, some (start + offset)⟩ ∧
          (item :: rest)[offset]? = some (some child) := by
      obtain ⟨offset, equal, found⟩ := inductionHypothesis tail
      exact ⟨offset + 1, by rw [equal, Nat.add_assoc, Nat.add_comm 1], found⟩
    cases item with
    | none => exact later member
    | some first =>
      rcases List.mem_cons.mp member with head | tail
      · injection head with equalPlace equalChild
        exact ⟨0, equalPlace, by rw [equalChild]; rfl⟩
      · exact later tail

/-- The places of a field are places of its slot. -/
theorem Field.slot_of_mem_places {slot : String} {held : Field Node} {place : Place} {child : Node}
    (member : (place, child) ∈ held.places slot) : place.slot = slot := by
  cases held with
  | node only => rw [(Prod.mk.inj (List.mem_singleton.mp member)).1]
  | list items =>
    obtain ⟨offset, rfl, _⟩ := mem_itemPlaces member
    rfl
  | _ => cases member

theorem Field.mem_nodes_of_mem_places {slot : String} {held : Field Node} {place : Place}
    {child : Node} (member : (place, child) ∈ held.places slot) : child ∈ held.nodes := by
  rw [← places_map_snd slot held]
  exact List.mem_map_of_mem member

namespace Node

/-- The places of a field hold the nodes that they are listed with. -/
theorem held?_of_mem_places {node child : Node} {slot : String} {place : Place}
    (member : (place, child) ∈ (node.field slot).places slot) :
    node.held? place = some child := by
  rw [held?, Field.slot_of_mem_places member]
  cases held : node.field slot with
  | node only =>
    rw [held] at member
    obtain ⟨rfl, rfl⟩ := Prod.mk.inj (List.mem_singleton.mp member)
    rfl
  | list items =>
    rw [held] at member
    obtain ⟨offset, rfl, found⟩ := mem_itemPlaces member
    simp [found]
  | absent => rw [held] at member; cases member
  | value plain => rw [held] at member; cases member

/-- The node at a place is one of those in its slot. -/
theorem mem_nodes_of_held? {node child : Node} {place : Place}
    (held : node.held? place = some child) : child ∈ (node.field place.slot).nodes := by
  rw [held?] at held
  split at held
  · rename_i found _
    rw [found, Option.some.inj held]
    exact List.mem_cons_self
  · rename_i found _
    rw [found]
    exact List.mem_filterMap.mpr
      ⟨_, List.mem_of_getElem? (Option.join_eq_some_iff.mp held), rfl⟩
  · cases held

/-- The node at a place is one of the nodes directly below. -/
theorem mem_children_of_held? {node child : Node} {place : Place}
    (held : node.held? place = some child) : child ∈ node.children :=
  mem_children_of_mem_nodes (mem_nodes_of_held? held)

/-- What holds everywhere in a tree holds everywhere from an address on. -/
theorem Everywhere.at? {property : Node → Prop} {node target : Node}
    (everywhere : Everywhere property node) {address : Address}
    (found : node.at? address = some target) : Everywhere property target := by
  induction address generalizing node with
  | nil =>
    obtain rfl := Option.some.inj found
    exact everywhere
  | cons place rest inductionHypothesis =>
    obtain ⟨child, held, further⟩ := Option.bind_eq_some_iff.mp found
    exact inductionHypothesis (everywhere.child (mem_children_of_held? held)) further

end Node

/-! ### Edits -/

/-- What comes to stand at addresses of a tree: other nodes, or nothing. -/
abbrev Edits := List (Address × Option Node)

namespace Edits

/-- The edit of the node itself. -/
def here? (edits : Edits) : Option (Option Node) :=
  edits.lookup []

/-- The edits that go through a place, as edits of the node there. -/
def under (place : Place) (edits : Edits) : Edits :=
  edits.filterMap fun
    | ([], _) => none
    | (first :: rest, answer) => if first = place then some (rest, answer) else none

/-- Edits of a node as edits of a node above it. -/
def below (address : Address) (edits : Edits) : Edits :=
  edits.map fun (inner, answer) => (address ++ inner, answer)

@[simp]
theorem under_nil (place : Place) : under place [] = [] := rfl

@[simp]
theorem under_append (place : Place) (first second : Edits) :
    under place (first ++ second) = under place first ++ under place second :=
  List.filterMap_append

theorem below_append (address : Address) (first second : Edits) :
    below address (first ++ second) = below address first ++ below address second :=
  List.map_append

theorem below_cons_below (place : Place) (rest : Address) (edits : Edits) :
    below (place :: rest) edits = below [place] (below rest edits) := by
  simp [below]

@[simp]
theorem under_below_self (place : Place) (edits : Edits) :
    under place (below [place] edits) = edits := by
  simp [under, below, List.filterMap_map]

theorem under_below_other {place other : Place} (different : place ≠ other) (edits : Edits) :
    under other (below [place] edits) = [] := by
  simp [under, below, List.filterMap_map, different]

theorem mem_of_here? {edits : Edits} {answer : Option Node} (here : edits.here? = some answer) :
    ([], answer) ∈ edits := by
  obtain ⟨_, _, rfl, _⟩ := List.lookup_eq_some_iff.mp here
  exact List.mem_append_right _ List.mem_cons_self

theorem here?_append (first second : Edits) :
    here? (first ++ second) = (here? first).or (here? second) :=
  List.lookup_append

/-- Edits that all go through some place do not replace the node itself. -/
theorem here?_below_cons (place : Place) (rest : Address) (edits : Edits) :
    here? (below (place :: rest) edits) = none := by
  induction edits with
  | nil => rfl
  | cons edit others inductionHypothesis => exact inductionHypothesis

end Edits

namespace Node

mutual

/-- A tree with all the edits made; no tree if the node itself is edited away. -/
def edit : Node → Edits → Option Node
  | ⟨kind, fields⟩, edits =>
    match edits.here? with
    | some answer => answer
    | none => some ⟨kind, editFields fields edits⟩

/-- The fields of a node with the edits made in them. -/
def editFields : List (String × Field Node) → Edits → List (String × Field Node)
  | [], _ => []
  | (slot, held) :: rest, edits => (slot, editField slot held edits) :: editFields rest edits

/-- A field with the edits made in it. -/
def editField (slot : String) : Field Node → Edits → Field Node
  | .node child, edits => .ofOption (edit child (edits.under ⟨slot, none⟩))
  | .list items, edits => .list (editItems slot 0 items edits)
  | .absent, _ => .absent
  | .value plain, _ => .value plain

/-- The items of a list, counted from `start`, with the edits made in them. -/
def editItems (slot : String) (start : Nat) : List (Option Node) → Edits → List (Option Node)
  | [], _ => []
  | none :: rest, edits => none :: editItems slot (start + 1) rest edits
  | some child :: rest, edits =>
    edit child (edits.under ⟨slot, some start⟩) :: editItems slot (start + 1) rest edits

end

/-- A node with the edits made below it. -/
def editBelow (node : Node) (edits : Edits) : Node :=
  { node with fields := editFields node.fields edits }

theorem edit_eq (node : Node) (edits : Edits) :
    node.edit edits =
      match edits.here? with
      | some answer => answer
      | none => some (node.editBelow edits) := by
  obtain ⟨kind, fields⟩ := node
  rw [edit]
  rfl

theorem edit_of_here?_none {edits : Edits} (elsewhere : edits.here? = none) (node : Node) :
    node.edit edits = some (node.editBelow edits) := by
  rw [edit_eq, elsewhere]

/-- An edit of the node itself replaces it. -/
@[simp]
theorem edit_here (node : Node) (answer : Option Node) : node.edit [([], answer)] = answer := by
  rw [edit_eq]
  rfl

/-- Edits in a list only matter through its items. -/
theorem editItems_congr (slot : String) (start : Nat) (items : List (Option Node))
    {first second : Edits}
    (same : ∀ index, start ≤ index →
      first.under ⟨slot, some index⟩ = second.under ⟨slot, some index⟩) :
    editItems slot start items first = editItems slot start items second := by
  induction items generalizing start with
  | nil => rw [editItems, editItems]
  | cons item rest inductionHypothesis =>
    have tail := inductionHypothesis (start + 1) fun index bound =>
      same index (Nat.le_of_succ_le bound)
    cases item with
    | none => rw [editItems, editItems, tail]
    | some child => rw [editItems, editItems, tail, same start (Nat.le_refl start)]

/-- Edits of the first node of a list, next to edits that leave it alone. -/
theorem editItems_some (slot : String) (start : Nat) (child : Node) (rest : List (Option Node))
    {made others : Edits} (untouched : others.under ⟨slot, some start⟩ = []) :
    editItems slot start (some child :: rest) (made.below [⟨slot, some start⟩] ++ others) =
      child.edit made :: editItems slot (start + 1) rest others := by
  have head : (made.below [⟨slot, some start⟩] ++ others).under ⟨slot, some start⟩ = made := by
    rw [Edits.under_append, Edits.under_below_self, untouched, List.append_nil]
  have tail : editItems slot (start + 1) rest (made.below [⟨slot, some start⟩] ++ others) =
      editItems slot (start + 1) rest others := by
    refine editItems_congr slot (start + 1) rest fun index bound => ?_
    have different : (⟨slot, some start⟩ : Place) ≠ ⟨slot, some index⟩ := fun equal => by
      have := Option.some.inj (Place.mk.inj equal).2
      omega
    rw [Edits.under_append, Edits.under_below_other different, List.nil_append]
  rw [editItems, head, tail]

/-- Edits in a field only matter through its slot. -/
theorem editField_congr (slot : String) (held : Field Node) {first second : Edits}
    (same : ∀ index, first.under ⟨slot, index⟩ = second.under ⟨slot, index⟩) :
    editField slot held first = editField slot held second := by
  cases held with
  | node child => rw [editField, editField, same none]
  | list items =>
    rw [editField, editField, editItems_congr slot 0 items fun index _ => same (some index)]
  | absent => rw [editField, editField]
  | value plain => rw [editField, editField]

theorem editFields_congr (fields : List (String × Field Node)) {first second : Edits}
    (same : ∀ slot ∈ Entries.names fields, ∀ index,
      first.under ⟨slot, index⟩ = second.under ⟨slot, index⟩) :
    editFields fields first = editFields fields second := by
  induction fields with
  | nil => rw [editFields, editFields]
  | cons entry rest inductionHypothesis =>
    obtain ⟨slot, held⟩ := entry
    rw [editFields, editFields, editField_congr slot held (same slot List.mem_cons_self),
      inductionHypothesis fun other member => same other (List.mem_cons_of_mem _ member)]

/-! Without edits nothing changes. -/

mutual

@[simp]
theorem edit_nil : ∀ node : Node, node.edit [] = some node
  | ⟨kind, fields⟩ => by
    rw [edit, editFields_nil fields]
    rfl

@[simp]
theorem editFields_nil : ∀ fields : List (String × Field Node), editFields fields [] = fields
  | [] => by rw [editFields]
  | (slot, held) :: rest => by rw [editFields, editField_nil slot held, editFields_nil rest]

@[simp]
theorem editField_nil (slot : String) : ∀ held : Field Node, editField slot held [] = held
  | .node child => by
    rw [editField, Edits.under_nil, edit_nil child]
    rfl
  | .list items => by rw [editField, editItems_nil slot 0 items]
  | .absent => by rw [editField]
  | .value plain => by rw [editField]

@[simp]
theorem editItems_nil (slot : String) (start : Nat) :
    ∀ items : List (Option Node), editItems slot start items [] = items
  | [] => by rw [editItems]
  | none :: rest => by rw [editItems, editItems_nil slot (start + 1) rest]
  | some child :: rest => by
    rw [editItems, Edits.under_nil, edit_nil child, editItems_nil slot (start + 1) rest]

end

@[simp]
theorem editBelow_nil (node : Node) : node.editBelow [] = node := by
  obtain ⟨kind, fields⟩ := node
  rw [editBelow, editFields_nil]

/-- Edits that go through other slots leave a field alone. -/
theorem editField_of_under_nil (slot : String) (held : Field Node) {edits : Edits}
    (elsewhere : ∀ index, edits.under ⟨slot, index⟩ = []) : editField slot held edits = held := by
  have same (index : Option Nat) : edits.under ⟨slot, index⟩ = Edits.under ⟨slot, index⟩ [] :=
    elsewhere index
  rw [editField_congr slot held same, editField_nil]

/-! ### Edits that change nothing -/

/-- Every edit puts the node in place that stands there already. -/
def Keeps (node : Node) (edits : Edits) : Prop :=
  ∀ address answer, (address, answer) ∈ edits →
    ∃ kept, answer = some kept ∧ node.at? address = some kept

/-- Edits that keep a tree keep the nodes directly below. -/
theorem Keeps.under {node child : Node} {edits : Edits} (keeps : node.Keeps edits) {place : Place}
    (held : node.held? place = some child) : child.Keeps (edits.under place) := by
  intro rest answer member
  obtain ⟨⟨address, given⟩, editMember, routed⟩ := List.mem_filterMap.mp member
  cases address with
  | nil => cases routed
  | cons first deeper =>
    by_cases same : first = place
    · simp only [same, if_true] at routed
      obtain ⟨rfl, rfl⟩ := Prod.mk.inj (Option.some.inj routed)
      obtain ⟨kept, equal, found⟩ := keeps _ _ editMember
      rw [at?, same, held] at found
      exact ⟨kept, equal, found⟩
    · simp only [if_neg same] at routed
      cases routed

theorem editItems_of_keeps {slot : String} (start : Nat) {items : List (Option Node)}
    {edits : Edits} (each : ∀ (offset : Nat) (child : Node), items[offset]? = some (some child) →
      child.edit (edits.under ⟨slot, some (start + offset)⟩) = some child) :
    editItems slot start items edits = items := by
  induction items generalizing start with
  | nil => rw [editItems]
  | cons item rest inductionHypothesis =>
    have tail := inductionHypothesis (start + 1) fun offset child found => by
      rw [Nat.add_assoc, Nat.add_comm 1]
      exact each (offset + 1) child found
    cases item with
    | none => rw [editItems, tail]
    | some child =>
      rw [editItems, tail]
      exact congrArg (· :: rest) (each 0 child rfl)

theorem editFields_of_keeps {fields : List (String × Field Node)} {edits : Edits}
    (each : ∀ slot held, (slot, held) ∈ fields → editField slot held edits = held) :
    editFields fields edits = fields := by
  induction fields with
  | nil => rw [editFields]
  | cons entry rest inductionHypothesis =>
    obtain ⟨slot, held⟩ := entry
    rw [editFields, each slot held List.mem_cons_self,
      inductionHypothesis fun other inner member =>
        each other inner (List.mem_cons_of_mem _ member)]

theorem editBelow_of_keeps {node : Node} {edits : Edits}
    (each : ∀ slot held, (slot, held) ∈ node.fields → editField slot held edits = held) :
    node.editBelow edits = node := by
  obtain ⟨kind, fields⟩ := node
  exact congrArg (Node.mk kind) (editFields_of_keeps each)

/-- Edits that put back what stands there change nothing. -/
theorem edit_of_keeps {node : Node} (wellFormed : node.WellFormed) {edits : Edits}
    (keeps : node.Keeps edits) : node.edit edits = some node := by
  induction wellFormed generalizing edits with
  | @intro node distinct below inductionHypothesis =>
    rw [edit_eq]
    split
    · rename_i answer here
      obtain ⟨kept, equal, found⟩ := keeps [] answer (Edits.mem_of_here? here)
      rw [equal, ← found, at?]
    -- The fields are looked up by their names, and the names are distinct.
    have each (place : Place) (child : Node) (held : node.held? place = some child)
        (member : child ∈ node.children) : child.edit (edits.under place) = some child :=
      inductionHypothesis child member (keeps.under held)
    refine congrArg some (editBelow_of_keeps fun slot held member => ?_)
    have found : node.field slot = held := by
      rw [field, get?, Entries.find?_of_mem distinct member, Option.getD_some]
    have inside (child : Node) (nodeMember : child ∈ held.nodes) : child ∈ node.children :=
      List.mem_flatMap.mpr ⟨(slot, held), member, nodeMember⟩
    cases held with
    | node child =>
      have standing : node.held? ⟨slot, none⟩ = some child := by rw [held?, found]
      rw [editField, each ⟨slot, none⟩ child standing (inside child List.mem_cons_self)]
      rfl
    | list items =>
      rw [editField, editItems_of_keeps 0 fun offset child item => ?_]
      have below := inside child (List.mem_filterMap.mpr ⟨_, List.mem_of_getElem? item, rfl⟩)
      refine each _ child ?_ below
      rw [held?, found, Nat.zero_add]
      simp [item]
    | absent => rw [editField]
    | value plain => rw [editField]

/-! ### An edited node -/

theorem find?_editFields (fields : List (String × Field Node)) (edits : Edits) (slot : String) :
    Entries.find? (editFields fields edits) slot =
      (Entries.find? fields slot).map fun held => editField slot held edits := by
  induction fields with
  | nil => rw [editFields]; rfl
  | cons entry rest inductionHypothesis =>
    obtain ⟨name, held⟩ := entry
    rw [editFields, Entries.find?, Entries.find?]
    by_cases equal : name = slot
    · rw [if_pos equal, if_pos equal, Option.map_some, equal]
    · rw [if_neg equal, if_neg equal, inductionHypothesis]

theorem get?_editBelow (node : Node) (edits : Edits) (slot : String) :
    (node.editBelow edits).get? slot =
      (node.get? slot).map fun held => editField slot held edits :=
  find?_editFields node.fields edits slot

/-- Edits that go through other slots leave what is looked up alone. -/
theorem get?_editBelow_of_under_nil (node : Node) {edits : Edits} {slot : String}
    (elsewhere : ∀ index, edits.under ⟨slot, index⟩ = []) :
    (node.editBelow edits).get? slot = node.get? slot := by
  rw [get?_editBelow]
  cases node.get? slot with
  | none => rfl
  | some held => rw [Option.map_some, editField_of_under_nil slot held elsewhere]

theorem put_editFields {fields : List (String × Field Node)} {slot : String} {held : Field Node}
    (distinct : (Entries.names fields).Nodup) (found : Entries.find? fields slot = some held)
    {before edits : Edits} (untouched : ∀ index, before.under ⟨slot, index⟩ = [])
    (within : ∀ place : Place, place.slot ≠ slot → edits.under place = []) :
    Entries.put (editFields fields before) slot (editField slot held edits) =
      editFields fields (before ++ edits) := by
  induction fields with
  | nil => cases found
  | cons entry rest inductionHypothesis =>
    obtain ⟨name, first⟩ := entry
    obtain ⟨fresh, restDistinct⟩ := List.nodup_cons.mp distinct
    rw [editFields, editFields, Entries.put]
    by_cases equal : name = slot
    · subst equal
      rw [Entries.find?, if_pos rfl] at found
      obtain rfl := Option.some.inj found
      have head : editField name first edits = editField name first (before ++ edits) := by
        refine editField_congr name first fun index => ?_
        rw [Edits.under_append, untouched index, List.nil_append]
      have tail : editFields rest before = editFields rest (before ++ edits) := by
        refine editFields_congr rest fun other member index => ?_
        have different : other ≠ name := fun same => fresh (same ▸ member)
        rw [Edits.under_append, within ⟨other, index⟩ different, List.append_nil]
      rw [if_pos rfl, head, tail]
    · rw [Entries.find?, if_neg equal] at found
      have head : editField name first before = editField name first (before ++ edits) := by
        refine editField_congr name first fun index => ?_
        rw [Edits.under_append, within ⟨name, index⟩ equal, List.append_nil]
      rw [if_neg equal, inductionHypothesis restDistinct found, head]

/-- Putting an edited field in place adds its edits to those that were made before. -/
theorem set_editBelow {node : Node} (distinct : node.slots.Nodup) (slot : String)
    {before edits : Edits} (untouched : ∀ index, before.under ⟨slot, index⟩ = [])
    (within : ∀ place : Place, place.slot ≠ slot → edits.under place = []) :
    (node.editBelow before).set slot (editField slot (node.field slot) edits) =
      node.editBelow (before ++ edits) := by
  unfold set
  rw [get?_editBelow, field]
  cases found : node.get? slot with
  | none =>
    -- A slot that the node lacks holds nothing, before the edits and after them.
    rw [Option.getD_none, editField]
    refine congrArg (Node.mk node.kind) (editFields_congr node.fields fun other member index => ?_)
    have different : other ≠ slot := fun same =>
      Entries.not_mem_names_of_find?_none found (same ▸ member)
    rw [Edits.under_append, within ⟨other, index⟩ different, List.append_nil]
  | some held =>
    exact congrArg (Node.mk node.kind) (put_editFields distinct found untouched within)

end Node

end EstreeScopes
