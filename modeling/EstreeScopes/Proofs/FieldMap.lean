/-
This file says what the fields of a node are after any run of changes: a map in
order of insertion (`fields_are_insertion_ordered_map`). A slot comes in with the
first field that is put there, when the node is made or later, and keeps its place
from then on; it holds what was left there last. Putting nothing into a slot that
the node lacks changes nothing, so a slot that is missing and one that holds nothing
stay apart.

A change is told by its slot and by what it leaves there; taking out leaves
nothing. What one change does to the names and to each slot is said first, and a run
is an induction over its changes: over the first one for the names, which are only
added to, and over the last one for a slot, which its last change decides. Whatever
else a node answers about its fields, it answers from the map.
-/

import EstreeScopes.Proofs.Canonical
import EstreeScopes.Proofs.Environment

namespace EstreeScopes

/-! ### Maps in order of insertion -/

namespace Entries

variable {α : Type} {entries others : Entries α} {name : String}

theorem find?_eq_none_iff : entries.find? name = none ↔ name ∉ entries.names := by
  refine ⟨not_mem_names_of_find?_none, fun missing => ?_⟩
  cases found : entries.find? name with
  | none => rfl
  | some value => exact absurd (List.mem_map_of_mem (mem_of_find? found)) missing

/-- Putting back what is found under a name changes nothing. -/
theorem put_of_find? {value : α} (found : entries.find? name = some value) :
    entries.put name value = entries := by
  induction entries with
  | nil => cases found
  | cons entry rest inductionHypothesis =>
    obtain ⟨key, first⟩ := entry
    rw [find?] at found
    rw [put]
    split at found
    · rename_i equal
      obtain rfl := Option.some.inj found
      rw [if_pos equal]
    · rename_i different
      rw [if_neg different, inductionHypothesis found]

/-- Of two values put under one name the second counts. -/
theorem put_put (entries : Entries α) (name : String) (first second : α) :
    (entries.put name first).put name second = entries.put name second := by
  induction entries with
  | nil => simp [put]
  | cons entry rest inductionHypothesis =>
    obtain ⟨key, old⟩ := entry
    by_cases equal : key = name
    · simp [put, equal]
    · simp [put, equal, inductionHypothesis]

/-- Looking up the names in order gives the entries. -/
theorem filterMap_names (distinct : entries.names.Nodup) :
    entries.names.filterMap (fun name => (entries.find? name).map (Prod.mk name)) = entries := by
  rw [names, List.filterMap_map]
  calc
    entries.filterMap _ = entries.filterMap some :=
      List.filterMap_congr fun entry member => by
        rw [Function.comp_apply, find?_of_mem distinct member, Option.map_some]
    _ = entries := List.filterMap_some

/-- Two maps with the same names, in the same order and with the same values, are equal. -/
theorem eq_of_find? (distinct : entries.names.Nodup) (sameNames : others.names = entries.names)
    (same : ∀ name, others.find? name = entries.find? name) : others = entries := by
  have otherDistinct : others.names.Nodup := sameNames ▸ distinct
  calc
    others = others.names.filterMap fun name => (others.find? name).map (Prod.mk name) :=
      (filterMap_names otherDistinct).symm
    _ = entries.names.filterMap fun name => (entries.find? name).map (Prod.mk name) := by
      simp only [sameNames, same]
    _ = entries := filterMap_names distinct

/-- Of names that come several times the first place counts. -/
theorem names_ofPairs (pairs : List (String × α)) :
    (ofPairs pairs).names = (pairs.map Prod.fst).eraseDups := by
  have general (entries : Entries α) :
      (pairs.foldl (fun made pair => put made pair.1 pair.2) entries).names =
        addNames entries.names (pairs.map Prod.fst) := by
    induction pairs generalizing entries with
    | nil => rfl
    | cons pair rest inductionHypothesis =>
      rw [List.foldl_cons, inductionHypothesis, names_put]
      rfl
  exact (general []).trans (addNames_eq_eraseDups List.nodup_nil _)

/-- Of names that come several times the last value counts. -/
theorem find?_ofPairs (pairs : List (String × α)) (name : String) :
    (ofPairs pairs).find? name =
      (pairs.filter fun pair => pair.1 = name).getLast?.map Prod.snd := by
  induction pairs using List.reverseRecOn with
  | nil => rfl
  | append_singleton earlier last inductionHypothesis =>
    have step : ofPairs (earlier ++ [last]) = (ofPairs earlier).put last.1 last.2 := by
      simp [ofPairs]
    rw [step]
    by_cases same : last.1 = name
    · simp [same]
    · rw [find?_put_other _ _ _ _ (Ne.symm same), inductionHypothesis]
      simp [same]

end Entries

namespace Node

/-! ### Putting one field -/

theorem set_of_get?_some {node : Node} {slot : String} {old : Field Node}
    (found : node.get? slot = some old) (held : Field Node) :
    node.set slot held = { node with fields := Entries.put node.fields slot held } := by
  unfold set
  rw [found]

theorem set_absent_of_get?_none {node : Node} {slot : String} (missing : node.get? slot = none) :
    node.set slot .absent = node := by
  unfold set
  rw [missing]

/-- A field is put in place, unless nothing is put into a slot that the node lacks. -/
theorem set_eq (node : Node) (slot : String) (held : Field Node) :
    node.set slot held =
      if slot ∈ node.slots ∨ held.isAbsent = false then
        { node with fields := Entries.put node.fields slot held }
      else node := by
  cases found : node.get? slot with
  | none =>
    have missing : slot ∉ node.slots := Entries.find?_eq_none_iff.mp found
    unfold set
    rw [found]
    cases held <;> simp [missing, Field.isAbsent]
  | some old =>
    have present : slot ∈ node.slots := List.mem_map_of_mem (Entries.mem_of_find? found)
    rw [set_of_get?_some found, if_pos (.inl present)]

theorem get?_set_self (node : Node) (slot : String) (held : Field Node) :
    (node.set slot held).get? slot =
      if slot ∈ node.slots ∨ held.isAbsent = false then some held else none := by
  rw [set_eq]
  split
  · exact Entries.find?_put_self node.fields slot held
  · rename_i neither
    exact Entries.find?_eq_none_iff.mpr fun present => neither (.inl present)

/-- Putting back what was taken out restores the node. -/
theorem set_take (node : Node) (slot : String) :
    (node.take slot).2.set slot (node.take slot).1 = node := by
  rw [take, field]
  cases found : node.get? slot with
  | none => rw [Option.getD_none, set_absent_of_get?_none found, set_absent_of_get?_none found]
  | some held =>
    have present : slot ∈ node.slots := List.mem_map_of_mem (Entries.mem_of_find? found)
    have emptied : (node.set slot .absent).get? slot = some .absent := by
      rw [get?_set_self, if_pos (.inl present)]
    rw [Option.getD_some, set_of_get?_some emptied, set_of_get?_some found]
    obtain ⟨kind, fields⟩ := node
    show Node.mk kind (Entries.put (Entries.put fields slot .absent) slot held) = ⟨kind, fields⟩
    rw [Entries.put_put, Entries.put_of_find? found]

/-! ### Changes -/

/-- A change of the fields of a node: a field is put in place, be it to build the node, or a field
is taken out. -/
inductive Change where
  | set (slot : String) (held : Field Node)
  | take (slot : String)

namespace Change

/-- The slot that a change is about. -/
def slot : Change → String
  | .set slot _ | .take slot => slot

/-- What a change leaves in its slot. -/
def left : Change → Field Node
  | .set _ held => held
  | .take _ => .absent

/-- The name that a change brings in, if the node lacks it. -/
def inserted? (change : Change) : Option String :=
  if change.left.isAbsent then none else some change.slot

/-- What changes one after the other leave in a slot, if one of them is about it: what the last of
these leaves. -/
def lastLeft? (slot : String) (changes : List Change) : Option (Field Node) :=
  (changes.filter fun change => change.slot = slot).getLast?.map left

end Change

/-- The node after one change. -/
def change (node : Node) : Change → Node
  | .set slot held => node.set slot held
  | .take slot => (node.take slot).2

/-- The node after changes one after the other. -/
def changeAll (node : Node) (changes : List Change) : Node := changes.foldl change node

/-! ### One change -/

theorem change_eq_set (node : Node) (change : Change) :
    node.change change = node.set change.slot change.left := by
  cases change <;> rfl

theorem slots_change (node : Node) (change : Change) :
    (node.change change).slots = addNames node.slots change.inserted?.toList := by
  rw [change_eq_set, set_eq, Change.inserted?]
  by_cases present : change.slot ∈ node.slots
  · rw [if_pos (.inl present), addNames_of_subset]
    · exact (Entries.names_put _ _ _).trans (if_pos present)
    · split <;> simp [present]
  · cases change.left.isAbsent with
    | true => simp [present, addNames]
    | false =>
      rw [if_pos (.inr rfl)]
      exact (Entries.names_put _ _ _).trans (by simp [addNames, addName, slots])

/-- A change of one slot leaves what is in the others. -/
theorem get?_change_other (node : Node) {change : Change} {slot : String}
    (different : slot ≠ change.slot) :
    (node.change change).get? slot = node.get? slot := by
  rw [change_eq_set, get?_set_other node change.slot slot change.left different]

theorem get?_change_self (node : Node) (change : Change) :
    (node.change change).get? change.slot =
      if change.slot ∈ (node.change change).slots then some change.left else none := by
  rw [slots_change, change_eq_set, get?_set_self]
  simp only [mem_addNames, Option.mem_toList, Change.inserted?]
  cases change.left.isAbsent <;> simp

/-! ### Runs -/

theorem changeAll_append (node : Node) (first second : List Change) :
    node.changeAll (first ++ second) = (node.changeAll first).changeAll second :=
  List.foldl_append

theorem slots_changeAll (node : Node) (changes : List Change) :
    (node.changeAll changes).slots =
      addNames node.slots (changes.filterMap Change.inserted?) := by
  induction changes generalizing node with
  | nil => rfl
  | cons change rest inductionHypothesis =>
    rw [changeAll, List.foldl_cons, ← changeAll, inductionHypothesis, slots_change,
      ← addNames_append]
    cases inserted : change.inserted? <;> simp [inserted]

/-- Names are only added, and only behind those that are there. -/
theorem slots_isPrefix_changeAll (node : Node) (changes : List Change) :
    node.slots <+: (node.changeAll changes).slots := by
  rw [slots_changeAll, addNames_eq_append]
  exact List.prefix_append _ _

/-- A slot of a changed node holds what was left there last. -/
theorem get?_changeAll (node : Node) (changes : List Change) (slot : String) :
    (node.changeAll changes).get? slot =
      if slot ∈ (node.changeAll changes).slots then
        (Change.lastLeft? slot changes).or (node.get? slot)
      else none := by
  -- The last change decides a slot if it is about it; else the slot is as the earlier ones left it.
  induction changes using List.reverseRecOn with
  | nil =>
    split
    · rfl
    · rename_i missing
      exact Entries.find?_eq_none_iff.mpr missing
  | append_singleton earlier last inductionHypothesis =>
    have step : node.changeAll (earlier ++ [last]) = (node.changeAll earlier).change last :=
      changeAll_append node earlier [last]
    rw [step]
    by_cases same : last.slot = slot
    · subst same
      rw [get?_change_self, Change.lastLeft?]
      simp
    · have others : Change.lastLeft? slot (earlier ++ [last]) = Change.lastLeft? slot earlier := by
        simp [Change.lastLeft?, same]
      have listed : slot ∈ ((node.changeAll earlier).change last).slots ↔
          slot ∈ (node.changeAll earlier).slots := by
        rw [slots_change, mem_addNames, or_iff_left]
        rw [Change.inserted?]
        split <;> simp [Ne.symm same]
      rw [get?_change_other _ (Ne.symm same), inductionHypothesis, others]
      simp only [listed]

/-! ### What a node answers about its fields -/

/-- The answers of a node to whatever it can be asked about its fields. -/
structure Answers where
  child? : String → Option Node
  items? : String → Option (List (Option Node))
  value? : String → Option Json.Value
  name? : Option String
  flag : String → Bool
  span? : Option (Nat × Nat)
  children : List Node

/-- What a node answers about its fields. -/
def answers (node : Node) : Answers where
  child? := node.child?
  items? := node.items?
  value? := node.value?
  name? := node.name?
  flag := node.flag
  span? := node.span?
  children := node.children

/-- The answers come from the names, their order and what is found under them. -/
theorem answers_of_slots {node other : Node} (distinct : node.slots.Nodup)
    (sameSlots : other.slots = node.slots) (same : ∀ slot, other.get? slot = node.get? slot) :
    other.answers = node.answers := by
  obtain ⟨kind, fields⟩ := node
  obtain ⟨otherKind, otherFields⟩ := other
  obtain rfl : otherFields = fields := Entries.eq_of_find? distinct sameSlots same
  rfl

/-! ### The fields of a new node -/

open Json (Value)

theorem ofMembers_put (members : List (String × Value)) (name : String) (value : Value) :
    ofMembers (Entries.put members name value) =
      if name = typeKey then ofMembers members
      else Entries.put (ofMembers members) name (fieldOfValue value) := by
  induction members with
  | nil =>
    rw [Entries.put, ofMembers]
    rfl
  | cons member rest inductionHypothesis =>
    obtain ⟨key, old⟩ := member
    by_cases equal : key = name
    · subst equal
      by_cases isType : key = typeKey <;> simp [Entries.put, ofMembers, isType]
    · rw [Entries.put, if_neg equal, ofMembers, ofMembers, inductionHypothesis]
      by_cases isType : key = typeKey <;> by_cases named : name = typeKey <;>
        simp [isType, named, Entries.put, equal]

/-- Reading the members of an object as fields goes with putting them one after the other. -/
theorem ofMembers_ofPairs (members : List (String × Value)) :
    ofMembers (Entries.ofPairs members) = Entries.ofPairs (ofMembers members) := by
  have general (made : List (String × Value)) :
      ofMembers (members.foldl (fun made member => Entries.put made member.1 member.2) made) =
        (ofMembers members).foldl (fun made field => Entries.put made field.1 field.2)
          (ofMembers made) := by
    induction members generalizing made with
    | nil => rfl
    | cons member rest inductionHypothesis =>
      rw [List.foldl_cons, inductionHypothesis, ofMembers_put, ofMembers]
      split <;> rfl
  exact general []

/-- The nodes that changes start from, and the fields that were put into each of them in order: a
node without fields, an identifier, a node that is read from an object with these members, which may
come with one name several times, and a node that is read from a text. -/
inductive MadeWith : Node → List (String × Field Node) → Prop
  | ofKind (kind : Kind) : MadeWith (.ofKind kind) []
  | identifier (name : String) : MadeWith (.identifier name) [("name", .ofText name)]
  | ofMembers {members : List (String × Value)} {node : Node}
      (read : ofValue? (.object (Entries.ofPairs members)) = some node) :
      MadeWith node (ofMembers members)
  | ofText {text : String} {node : Node} (read : ofText text = .ok node) :
      MadeWith node node.fields
  | ofNestedText {text : String} {node : Node} (read : ofNestedText text = .ok node) :
      MadeWith node node.fields

theorem MadeWith.fields_eq {node : Node} {first : List (String × Field Node)}
    (made : node.MadeWith first) : node.fields = Entries.ofPairs first := by
  have ofValue {value : Value} (unambiguous : value.Unambiguous) {node : Node}
      (read : ofValue? value = some node) : node.fields = Entries.ofPairs node.fields :=
    (Entries.ofPairs_of_nodup (unambiguous_ofValue? unambiguous read).here.1).symm
  cases made with
  | ofKind kind => rfl
  | identifier name => rfl
  | @ofMembers members _ read =>
    obtain ⟨_, name, equal, _, rfl⟩ := ofValue?_eq_some read
    obtain rfl := Value.object.inj equal
    exact ofMembers_ofPairs members
  | ofText read =>
    obtain ⟨value, unambiguous, found⟩ := ofText_eq_ok read
    exact ofValue unambiguous found
  | ofNestedText read =>
    obtain ⟨value, unambiguous, found⟩ := ofNestedText_eq_ok read
    exact ofValue unambiguous found

/-- Whatever changes are made one after the other in a node without fields, an identifier or a node
that is read, its fields are a map in order of insertion. No slot comes twice. The slots stand in
the order in which they first came in, be it when the node was made or by a change that left
something there, and none is moved or removed on the way. A slot that ever came in holds what the
last change of it left there, or else what was put there last when the node was made; no other slot
holds anything. Putting nothing into a slot that is lacking leaves the node as it is. One more
change leaves all slots but its own as they are, and what is taken out of a slot can be put back to
restore the node. A node of any kind that has the same slots in the same order, and the same in
each, answers the same about its fields. -/
theorem fields_are_insertion_ordered_map {node : Node} {first : List (String × Field Node)}
    (made : node.MadeWith first) (changes : List Change) :
    let changed := node.changeAll changes
    let inserted := first.map Prod.fst ++ changes.filterMap Change.inserted?
    changed.slots.Nodup ∧
      changed.slots = inserted.eraseDups ∧
      (∀ earlier, earlier <+: changes → (node.changeAll earlier).slots <+: changed.slots) ∧
      (∀ slot, changed.get? slot =
        if slot ∈ inserted then
          (Change.lastLeft? slot changes).or
            ((first.filter fun field => field.1 = slot).getLast?.map Prod.snd)
        else none) ∧
      (∀ slot, changed.get? slot = none → changed.set slot .absent = changed) ∧
      (∀ (change : Change) (slot : String), slot ≠ change.slot →
        (changed.change change).get? slot = changed.get? slot) ∧
      (∀ slot, (changed.take slot).2.set slot (changed.take slot).1 = changed) ∧
      ∀ other : Node, other.slots = changed.slots →
        (∀ slot, other.get? slot = changed.get? slot) → other.answers = changed.answers := by
  intro changed inserted
  have start : node.slots = (first.map Prod.fst).eraseDups := by
    rw [slots, made.fields_eq, Entries.names_ofPairs]
  have listed : changed.slots = inserted.eraseDups := by
    rw [slots_changeAll, start, addNames_eraseDups]
  have distinct : changed.slots.Nodup := listed ▸ nodup_eraseDups inserted
  have member (slot : String) : slot ∈ changed.slots ↔ slot ∈ inserted := by
    rw [listed, List.mem_eraseDups]
  refine ⟨distinct, listed, ?_, fun slot => ?_, fun slot => set_absent_of_get?_none, ?_,
    set_take changed, ?_⟩
  · rintro earlier ⟨later, rfl⟩
    rw [show changed = (node.changeAll earlier).changeAll later from
      changeAll_append node earlier later]
    exact slots_isPrefix_changeAll _ later
  · have begins : node.get? slot =
        (first.filter fun field => field.1 = slot).getLast?.map Prod.snd := by
      rw [get?, made.fields_eq, Entries.find?_ofPairs]
    rw [get?_changeAll, begins]
    simp only [← member, changed]
  · exact fun change slot different => get?_change_other changed different
  · exact fun other sameSlots same => answers_of_slots distinct sameSlots same

/-- A text in which one name comes twice and another is null. -/
def repeatedAndNull : String :=
  "\x7b\"async\":true,\"type\":\"ReturnStatement\",\"argument\":null,\"async\":false\x7d"

/-- Changes of slots that are there, that come in and that stay out. -/
def someChanges : List Change :=
  [ .set "late" .absent, .take "async", .set "type" (.ofText "x"),
    .set "argument" (.node (.identifier "a")), .take "late", .take "type",
    .set "argument" (.list [none]) ]

theorem repeatedAndNull_changed :
    ∃ node : Node, node.MadeWith node.fields ∧ ofText repeatedAndNull = .ok node ∧
      node.slots = ["async", "argument"] ∧
      (node.changeAll someChanges).slots = ["async", "argument", "type"] ∧
      (node.changeAll someChanges).get? "argument" = some (.list [none]) ∧
      (node.changeAll someChanges).get? "type" = some .absent ∧
      (node.changeAll someChanges).get? "late" = none := by
  have read : ofText repeatedAndNull =
      .ok ⟨.returnStatement, [("async", .value (.bool false)), ("argument", .absent)]⟩ := by cbv
  have made := MadeWith.ofText read
  obtain ⟨_, listed, _, held, _⟩ := fields_are_insertion_ordered_map made someChanges
  refine ⟨_, made, read, rfl, listed.trans (by decide), ?_, ?_, ?_⟩
  · rw [held, if_pos (by decide)]
    rfl
  · rw [held, if_pos (by decide)]
    rfl
  · rw [held, if_neg (by decide)]

end Node

end EstreeScopes
