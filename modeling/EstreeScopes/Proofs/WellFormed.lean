/-
This file says which trees are well-formed: no node of them carries two fields of
the same name. A tree that is read from a text is well-formed, because an object
keeps one member for each name, and so is a tree that is built by putting fields
into nodes. Laws about whole trees are stated for well-formed ones.
-/

import EstreeScopes.Node.Document
import Mathlib

namespace EstreeScopes

/-! ### One entry for each name -/

namespace Entries

variable {α Name : Type} [DecidableEq Name] {entries : Entries α Name}

theorem not_mem_names_of_find?_none {name : Name} (missing : entries.find? name = none) :
    name ∉ entries.names := by
  induction entries with
  | nil => exact List.not_mem_nil
  | cons entry rest inductionHypothesis =>
    obtain ⟨key, value⟩ := entry
    rw [find?] at missing
    split at missing
    · cases missing
    · rename_i different
      exact List.not_mem_cons_of_ne_of_not_mem (Ne.symm different) (inductionHypothesis missing)

theorem find?_of_mem (distinct : entries.names.Nodup) {name : Name} {value : α}
    (member : (name, value) ∈ entries) : entries.find? name = some value := by
  induction entries with
  | nil => cases member
  | cons entry rest inductionHypothesis =>
    obtain ⟨key, first⟩ := entry
    obtain ⟨fresh, restDistinct⟩ := List.nodup_cons.mp distinct
    rw [find?]
    rcases List.mem_cons.mp member with head | tail
    · obtain ⟨rfl, rfl⟩ := Prod.mk.inj head
      rw [if_pos rfl]
    · have different : key ≠ name := fun equal =>
        fresh (equal ▸ List.mem_map.mpr ⟨_, tail, rfl⟩)
      rw [if_neg different, inductionHypothesis restDistinct tail]

theorem names_put_nodup (distinct : entries.names.Nodup) (name : Name) (value : α) :
    (entries.put name value).names.Nodup := by
  rw [names_put]
  split
  · exact distinct
  · rename_i fresh
    refine distinct.append (List.nodup_singleton name) ?_
    exact List.disjoint_singleton.mpr fresh

/-- Putting a value brings in no other entry. -/
theorem mem_put {name : Name} {value : α} {entry : Name × α}
    (member : entry ∈ entries.put name value) : entry = (name, value) ∨ entry ∈ entries := by
  induction entries with
  | nil => exact Or.inl (List.mem_singleton.mp member)
  | cons first rest inductionHypothesis =>
    obtain ⟨key, old⟩ := first
    rw [put] at member
    split at member
    · rename_i equal
      rcases List.mem_cons.mp member with head | tail
      · exact Or.inl (equal ▸ head)
      · exact Or.inr (List.mem_cons_of_mem _ tail)
    · rcases List.mem_cons.mp member with head | tail
      · exact Or.inr (head ▸ List.mem_cons_self)
      · exact (inductionHypothesis tail).imp_right (List.mem_cons_of_mem _)

theorem names_ofPairs_nodup (pairs : List (Name × α)) : (ofPairs pairs).names.Nodup := by
  have general (entries : Entries α Name) (distinct : entries.names.Nodup) :
      (pairs.foldl (fun entries pair => put entries pair.1 pair.2) entries).names.Nodup := by
    induction pairs generalizing entries with
    | nil => exact distinct
    | cons pair rest inductionHypothesis =>
      exact inductionHypothesis _ (names_put_nodup distinct pair.1 pair.2)
  exact general [] List.nodup_nil

theorem put_of_not_mem {name : Name} (missing : name ∉ entries.names)
    (value : α) : entries.put name value = entries ++ [(name, value)] := by
  induction entries with
  | nil => rfl
  | cons entry rest inductionHypothesis =>
    rw [put, if_neg (Ne.symm (List.ne_of_not_mem_cons missing)),
      inductionHypothesis (List.not_mem_of_not_mem_cons missing), List.cons_append]

theorem ofPairs_of_nodup (distinct : entries.names.Nodup) :
    ofPairs entries = entries := by
  -- The entries that were put already stand in front of those still to come.
  have general (done : Entries α Name) (apart : (names (done ++ entries)).Nodup) :
      entries.foldl (fun made pair => put made pair.1 pair.2) done = done ++ entries := by
    clear distinct
    induction entries generalizing done with
    | nil => exact (List.append_nil done).symm
    | cons entry rest inductionHypothesis =>
      have fresh : entry.1 ∉ done.names := by
        rw [names, List.map_append, List.map_cons] at apart
        exact fun member =>
          (List.nodup_cons.mp (List.nodup_middle.mp apart)).1 (List.mem_append_left _ member)
      show rest.foldl _ (put done entry.1 entry.2) = _
      rw [put_of_not_mem fresh, inductionHypothesis _ (by simpa using apart), List.append_assoc]
      rfl
  exact general [] distinct

theorem mem_ofPairs {pairs : List (Name × α)} {entry : Name × α}
    (member : entry ∈ ofPairs pairs) : entry ∈ pairs := by
  have general (entries : Entries α Name)
      (found : entry ∈ pairs.foldl (fun entries pair => put entries pair.1 pair.2) entries) :
      entry ∈ entries ∨ entry ∈ pairs := by
    clear member
    induction pairs generalizing entries with
    | nil => exact Or.inl found
    | cons pair rest inductionHypothesis =>
      rcases inductionHypothesis _ found with early | late
      · rcases mem_put early with equal | old
        · exact Or.inr (equal ▸ List.mem_cons_self)
        · exact Or.inl old
      · exact Or.inr (List.mem_cons_of_mem _ late)
  exact (general [] member).resolve_left List.not_mem_nil

end Entries

namespace Node

/-! ### The fields of a node -/

theorem get?_set_other (node : Node) (slot other : String) (held : Field Node)
    (different : other ≠ slot) : (node.set slot held).get? other = node.get? other := by
  unfold set
  split
  · rfl
  · exact Entries.find?_put_other _ _ _ _ different

/-- The nodes of a field are those of an entry under its name. -/
theorem exists_entry_of_mem_nodes {node child : Node} {slot : String}
    (member : child ∈ (node.field slot).nodes) :
    ∃ held, (slot, held) ∈ node.fields ∧ child ∈ held.nodes := by
  rw [field] at member
  cases found : node.get? slot with
  | none =>
    rw [found] at member
    cases member
  | some held =>
    rw [found] at member
    exact ⟨held, Entries.mem_of_find? found, member⟩

/-- The nodes of a field are nodes directly below. -/
theorem mem_children_of_mem_nodes {node child : Node} {slot : String}
    (member : child ∈ (node.field slot).nodes) : child ∈ node.children := by
  obtain ⟨_, entry, inEntry⟩ := exists_entry_of_mem_nodes member
  exact List.mem_flatMap.mpr ⟨_, entry, inEntry⟩

/-! ### Properties of a whole tree -/

/-- A property holds of a node and of every node below it. -/
inductive Everywhere (property : Node → Prop) : Node → Prop
  | intro {node : Node} (here : property node)
      (below : ∀ child ∈ node.children, Everywhere property child) : Everywhere property node

theorem Everywhere.here {property : Node → Prop} {node : Node}
    (everywhere : Everywhere property node) : property node := by
  cases everywhere with
  | intro here _ => exact here

theorem Everywhere.child {property : Node → Prop} {node part : Node}
    (everywhere : Everywhere property node) (member : part ∈ node.children) :
    Everywhere property part := by
  cases everywhere with
  | intro _ below => exact below part member

/-- A property holds everywhere in a tree if it holds of the node, and everywhere below. -/
theorem everywhere_iff {property : Node → Prop} {node : Node} :
    Everywhere property node ↔
      property node ∧ ∀ child ∈ node.children, Everywhere property child :=
  ⟨fun everywhere => ⟨everywhere.here, fun _ => everywhere.child⟩,
    fun ⟨here, below⟩ => .intro here below⟩

/-! ### Deciding properties -/

/-- Builds something for a node from what is built for all smaller nodes. -/
def recBySize {motive : Node → Type}
    (step : ∀ node : Node, (∀ part : Node, part.size < node.size → motive part) → motive node)
    (node : Node) : motive node :=
  within node.size node (Nat.le_refl _)
where
  /-- The same below a bound, on which the recursion is. -/
  within : (bound : Nat) → (node : Node) → node.size ≤ bound → motive node
    | 0, node, enough => step node fun part smaller =>
      absurd (Nat.lt_of_lt_of_le smaller enough) (Nat.not_lt_zero part.size)
    | bound + 1, node, enough => step node fun part smaller =>
      within bound part (Nat.le_of_lt_succ (Nat.lt_of_lt_of_le smaller enough))

/-- A property of all members of a list is decided member by member. -/
def decideEach {α : Type} {property : α → Prop} :
    (members : List α) → (∀ member ∈ members, Decidable (property member)) →
      Decidable (∀ member ∈ members, property member)
  | [], _ => .isTrue fun _ member => nomatch member
  | first :: rest, each =>
    letI := each first List.mem_cons_self
    letI := decideEach rest fun member inRest => each member (List.mem_cons_of_mem _ inRest)
    decidable_of_iff' _ List.forall_mem_cons

instance (property : Node → Prop) [DecidablePred property] : DecidablePred (Everywhere property) :=
  recBySize fun node below =>
    letI := decideEach node.children fun _ member => below _ (size_lt_of_mem_children member)
    decidable_of_iff' _ everywhere_iff

/-- No node of the tree carries two fields of the same name. -/
def WellFormed (tree : Node) : Prop :=
  tree.Everywhere fun node => node.slots.Nodup

instance : DecidablePred WellFormed :=
  inferInstanceAs (DecidablePred (Everywhere fun node => node.slots.Nodup))

/-! ### Trees that are built -/

theorem wellFormed_ofKind (kind : Kind) : (ofKind kind).WellFormed :=
  .intro List.nodup_nil fun _ member => absurd member List.not_mem_nil

/-- What holds of a node with a field put in place, and everywhere in the old node and in what is
put there, holds everywhere in the new one. -/
theorem everywhere_set {property : Node → Prop} {node : Node}
    (everywhere : node.Everywhere property) {slot : String} {held : Field Node}
    (here : property (node.set slot held)) (parts : ∀ part ∈ held.nodes, part.Everywhere property) :
    (node.set slot held).Everywhere property := by
  refine .intro here fun part member => ?_
  unfold set at member
  split at member
  · exact everywhere.child member
  obtain ⟨⟨name, field⟩, entryMember, nodeMember⟩ := List.mem_flatMap.mp member
  rcases Entries.mem_put entryMember with equal | old
  · injection equal with _ equalField
    exact parts part (equalField ▸ nodeMember)
  · exact everywhere.child (List.mem_flatMap.mpr ⟨_, old, nodeMember⟩)

theorem slots_set_nodup {node : Node} (distinct : node.slots.Nodup) (slot : String)
    (held : Field Node) : (node.set slot held).slots.Nodup := by
  unfold set
  split
  · exact distinct
  · exact Entries.names_put_nodup distinct slot _

/-- Putting well-formed nodes into a field of a well-formed node leaves it well-formed. -/
theorem wellFormed_set {node : Node} (wellFormed : node.WellFormed) (slot : String)
    (held : Field Node) (parts : ∀ part ∈ held.nodes, part.WellFormed) :
    (node.set slot held).WellFormed :=
  everywhere_set wellFormed (slots_set_nodup wellFormed.here slot held) parts

end Node

/-! ### Trees that are read -/

namespace Json

/-- No object of the value has two members of the same name. -/
inductive Value.Unambiguous : Value → Prop
  | null : Unambiguous .null
  | bool (flag : Bool) : Unambiguous (.bool flag)
  | number (quantity : Number) : Unambiguous (.number quantity)
  | string (text : String) : Unambiguous (.string text)
  | array {items : List Value} (each : ∀ item ∈ items, Unambiguous item) :
      Unambiguous (.array items)
  | object {members : List (String × Value)} (distinct : (Entries.names members).Nodup)
      (each : ∀ member ∈ members, Unambiguous member.2) : Unambiguous (.object members)

namespace Reader

variable {α : Type} {item : List Char → Option (α × List Char)} (holds : α → Prop)

theorem items_forall (each : ∀ {text value rest}, item text = some (value, rest) → holds value)
    {close : Char} {bound : Nat} {text rest : List Char} {values : List α}
    (read : items close item bound text = some (values, rest)) : ∀ value ∈ values, holds value := by
  induction bound generalizing text values rest with
  | zero => cases read
  | succ bound inductionHypothesis =>
    rw [items] at read
    split at read
    · cases read
    rename_i first afterFirst firstRead
    split at read
    · obtain ⟨⟨others, last⟩, othersRead, equal⟩ := Option.map_eq_some_iff.mp read
      injection equal with equalValues _
      subst equalValues
      exact List.forall_mem_cons.mpr ⟨each firstRead, inductionHypothesis othersRead⟩
    · split at read
      · injection read with equal
        injection equal with equalValues _
        subst equalValues
        exact List.forall_mem_singleton.mpr (each firstRead)
      · cases read
    · cases read

theorem enclosed_forall (each : ∀ {text value rest}, item text = some (value, rest) → holds value)
    {close : Char} {bound : Nat} {text rest : List Char} {values : List α}
    (read : enclosed close item bound text = some (values, rest)) :
    ∀ value ∈ values, holds value := by
  rw [enclosed] at read
  split at read
  · cases read
  · split at read
    · injection read with equal
      injection equal with equalValues _
      subst equalValues
      exact fun _ member => absurd member List.not_mem_nil
    · exact items_forall holds each read

theorem member_holds (each : ∀ {text value rest}, item text = some (value, rest) → holds value)
    {text rest : List Char} {entry : String × α}
    (read : member item text = some (entry, rest)) : holds entry.2 := by
  rw [member] at read
  repeat' split at read
  all_goals try cases read
  obtain ⟨⟨value, last⟩, valueRead, equal⟩ := Option.map_eq_some_iff.mp read
  injection equal with equalEntry _
  subst equalEntry
  exact each valueRead

/-- An object is read as a map, so none of its names comes twice. -/
theorem value_unambiguous {width depth : Nat} {text rest : List Char} {read : Value}
    (found : value width depth text = some (read, rest)) : read.Unambiguous := by
  induction depth using Nat.strongRecOn generalizing text read rest with
  | _ depth inductionHypothesis =>
    rw [value] at found
    split at found
    · injection found with equal
      injection equal with equalValue _
      exact equalValue ▸ .null
    · injection found with equal
      injection equal with equalValue _
      exact equalValue ▸ .bool true
    · injection found with equal
      injection equal with equalValue _
      exact equalValue ▸ .bool false
    · obtain ⟨⟨chars, last⟩, _, equal⟩ := Option.map_eq_some_iff.mp found
      injection equal with equalValue _
      exact equalValue ▸ .string _
    · cases depth with
      | zero => cases found
      | succ inner =>
        obtain ⟨⟨values, last⟩, itemsRead, equal⟩ := Option.map_eq_some_iff.mp found
        injection equal with equalValue _
        subst equalValue
        exact .array (enclosed_forall Value.Unambiguous
          (inductionHypothesis inner (Nat.lt_succ_self inner)) itemsRead)
    · cases depth with
      | zero => cases found
      | succ inner =>
        obtain ⟨⟨members, last⟩, membersRead, equal⟩ := Option.map_eq_some_iff.mp found
        injection equal with equalValue _
        subst equalValue
        refine .object (Entries.names_ofPairs_nodup members) fun entry entryMember => ?_
        exact enclosed_forall (fun entry => entry.2.Unambiguous)
          (member_holds Value.Unambiguous (inductionHypothesis inner (Nat.lt_succ_self inner)))
          membersRead entry (Entries.mem_ofPairs entryMember)
    · split at found
      · cases found
      · obtain ⟨number, _, equal⟩ := Option.map_eq_some_iff.mp found
        injection equal with equalValue _
        exact equalValue ▸ .number number

end Reader

end Json

namespace Node

open Json (Value)

theorem names_ofMembers_sublist (members : List (String × Value)) :
    (Entries.names (ofMembers members)).Sublist (Entries.names members) := by
  induction members with
  | nil => exact List.Sublist.refl _
  | cons member rest inductionHypothesis =>
    obtain ⟨name, value⟩ := member
    rw [ofMembers]
    split
    · exact inductionHypothesis.cons name
    · exact inductionHypothesis.cons_cons name

/-- Only typed objects stand for nodes. -/
theorem ofValue?_eq_some {value : Value} {node : Node} (found : ofValue? value = some node) :
    ∃ members name, value = .object members ∧ typeName? members = some name ∧
      node = ⟨.ofName name, ofMembers members⟩ := by
  cases value with
  | object members =>
    rw [ofValue?] at found
    split at found
    · rename_i name typed
      exact ⟨members, name, rfl, typed, (Option.some.inj found).symm⟩
    · cases found
  | _ => cases found

/-- A node that an array stands for comes from one of its items. -/
theorem mem_ofItems {items : List Value} {node : Node} (member : some node ∈ ofItems items) :
    ∃ item ∈ items, ofValue? item = some node := by
  induction items with
  | nil => cases member
  | cons item rest inductionHypothesis =>
    rw [ofItems] at member
    rcases List.mem_cons.mp member with head | tail
    · exact ⟨item, List.mem_cons_self, head.symm⟩
    · obtain ⟨other, otherMember, found⟩ := inductionHypothesis tail
      exact ⟨other, List.mem_cons_of_mem _ otherMember, found⟩

/-- The nodes of the fields come from the members. -/
theorem mem_nodes_ofMembers {members : List (String × Value)} {name : String} {held : Field Node}
    (member : (name, held) ∈ ofMembers members) :
    ∃ value, (name, value) ∈ members ∧ held = fieldOfValue value := by
  induction members with
  | nil => cases member
  | cons first rest inductionHypothesis =>
    obtain ⟨key, value⟩ := first
    rw [ofMembers] at member
    split at member
    · obtain ⟨other, otherMember, found⟩ := inductionHypothesis member
      exact ⟨other, List.mem_cons_of_mem _ otherMember, found⟩
    · rcases List.mem_cons.mp member with head | tail
      · injection head with equalName equalField
        exact ⟨value, equalName ▸ List.mem_cons_self, equalField⟩
      · obtain ⟨other, otherMember, found⟩ := inductionHypothesis tail
        exact ⟨other, List.mem_cons_of_mem _ otherMember, found⟩

/-- What holds of every node that is read from the members of one object holds everywhere in the
tree that a value stands for, and in its parts. -/
theorem everywhere_ofValue? {property : Node → Prop}
    (here : ∀ {name : String} {members : List (String × Value)},
      (Value.object members).Unambiguous → property ⟨.ofName name, ofMembers members⟩)
    {value : Value} (unambiguous : value.Unambiguous) :
    (∀ node, ofValue? value = some node → node.Everywhere property) ∧
      ∀ node ∈ (fieldOfValue value).nodes, node.Everywhere property := by
  induction unambiguous with
  | null => exact ⟨fun _ found => (nomatch found), fun _ member => (nomatch member)⟩
  | bool => exact ⟨fun _ found => (nomatch found), fun _ member => (nomatch member)⟩
  | number => exact ⟨fun _ found => (nomatch found), fun _ member => (nomatch member)⟩
  | string => exact ⟨fun _ found => (nomatch found), fun _ member => (nomatch member)⟩
  | array each inductionHypothesis =>
    refine ⟨fun _ found => (nomatch found), fun node member => ?_⟩
    rw [fieldOfValue] at member
    split at member
    · obtain ⟨item, itemMember, equal⟩ := List.mem_filterMap.mp member
      obtain rfl : item = some node := equal
      obtain ⟨value, valueMember, found⟩ := mem_ofItems itemMember
      exact (inductionHypothesis value valueMember).1 node found
    · cases member
  | @object members distinct each inductionHypothesis =>
    have built (name : String) :
        (Node.mk (.ofName name) (ofMembers members)).Everywhere property := by
      refine .intro (here (.object distinct each)) fun part member => ?_
      obtain ⟨⟨name, held⟩, entryMember, nodeMember⟩ := List.mem_flatMap.mp member
      obtain ⟨value, valueMember, rfl⟩ := mem_nodes_ofMembers entryMember
      exact (inductionHypothesis (name, value) valueMember).2 part nodeMember
    constructor
    · intro node found
      obtain ⟨_, name, equal, _, rfl⟩ := ofValue?_eq_some found
      obtain rfl := Value.object.inj equal
      exact built name
    · intro node member
      rw [fieldOfValue] at member
      split at member
      · exact List.mem_singleton.mp member ▸ built _
      · cases member

/-- A text is read as a tree by way of a value without ambiguous names. -/
theorem ofText_eq_ok {text : String} {node : Node} (read : ofText text = .ok node) :
    ∃ value : Value, value.Unambiguous ∧ ofValue? value = some node := by
  rw [ofText, Value.ofText?] at read
  split at read
  · cases read
  rename_i value valueRead
  split at read
  · cases read
  rename_i found
  injection read with equal
  subst equal
  split at valueRead
  · rename_i whole rest wholeRead
    split at valueRead
    · injection valueRead with equalValue
      subst equalValue
      exact ⟨whole, Json.Reader.value_unambiguous wholeRead, found⟩
    · cases valueRead
  · cases valueRead

/-- A tree that is read from a text is well-formed. -/
theorem wellFormed_ofText {text : String} {node : Node} (read : ofText text = .ok node) :
    node.WellFormed := by
  obtain ⟨value, unambiguous, found⟩ := ofText_eq_ok read
  refine (everywhere_ofValue? (fun {_ members} object => ?_) unambiguous).1 node found
  cases object with
  | object distinct _ => exact distinct.sublist (names_ofMembers_sublist members)

end Node

end EstreeScopes
