/-
This file says which trees survive being written and read again. A text does not
tell how the field it came from was classified: a plain value that looks like
nothing, like a node or like a list of nodes is read as one, a field called `type`
is taken for the kind, and the name of a kind outside the schema is taken for the
kind of the schema that has this name. A tree is canonical when none of this
happens anywhere in it. Every tree that is read is canonical, and among the trees
that can be built the canonical ones are exactly those that read back the same.
-/

import EstreeScopes.Proofs.ReadBack

namespace EstreeScopes

open Json (Value)

/-! ### Kinds and their names -/

namespace Kind

theorem mem_schema {kind : Kind} (known : kind.isKnown = true) : kind ∈ schema := by
  cases kind with
  | other name => cases known
  | _ => decide

theorem isKnown_of_mem_schema : ∀ kind ∈ schema, kind.isKnown = true := by
  decide

theorem ofName_name_of_mem_schema : ∀ kind ∈ schema, ofName kind.name = kind := by
  decide

/-- A kind is read back from its name, unless its name belongs to a kind of the schema. -/
theorem ofName_name_iff {kind : Kind} :
    ofName kind.name = kind ↔ ∀ name, kind = .other name → ∀ known : Kind, known.isKnown = true →
      known.name ≠ name := by
  constructor
  · rintro readBack name rfl known isKnown rfl
    have equal := (ofName_name_of_mem_schema known (mem_schema isKnown)).symm.trans readBack
    rw [equal] at isKnown
    cases isKnown
  · intro unknown
    by_cases isKnown : kind.isKnown = true
    · exact ofName_name_of_mem_schema kind (mem_schema isKnown)
    · cases kind with
      | other name =>
        have missing : schema.find? (fun known => known.name == name) = none := by
          refine List.find?_eq_none.mpr fun known member => ?_
          rw [beq_iff_eq]
          exact unknown name rfl known (isKnown_of_mem_schema known member)
        show (schema.find? fun known => known.name == name).getD (.other name) = .other name
        rw [missing, Option.getD_none]
      | _ => exact absurd rfl isKnown

theorem name_ofName (name : String) : (ofName name).name = name := by
  unfold ofName
  cases found : schema.find? fun kind => kind.name == name with
  | none => rfl
  | some kind => simpa using List.find?_some found

end Kind

/-! ### Canonical trees -/

namespace Node

/-- A value that is read as a node or as nothing: null, or an object that has a string under
`type`. -/
inductive NodeLike : Value → Prop
  | null : NodeLike .null
  | typed {members : List (String × Value)} {name : String}
      (typed : (typeKey, Value.string name) ∈ members) : NodeLike (.object members)

/-- A value that is not read as a plain one: a value like a node, or an array of such values, be it
empty. -/
inductive Misread : Value → Prop
  | nodeLike {value : Value} (nodeLike : NodeLike value) : Misread value
  | array {items : List Value} (each : ∀ item ∈ items, NodeLike item) : Misread (.array items)

/-- What is asked of each node: a kind outside the schema does not have the name of one inside it,
no field is called `type`, and no plain value would be read as something else. -/
structure IsCanonical (node : Node) : Prop where
  kind : ∀ name, node.kind = .other name → ∀ known : Kind, known.isKnown = true → known.name ≠ name
  slots : typeKey ∉ node.slots
  values : ∀ slot value, (slot, .value value) ∈ node.fields → ¬Misread value

/-- The tree is canonical in all its nodes. -/
def Canonical (tree : Node) : Prop :=
  tree.Everywhere IsCanonical

/-- No node of the tree has two fields of the same name, and no plain value in it has an object with
two members of the same name. -/
def Unambiguous (tree : Node) : Prop :=
  tree.Everywhere fun node => node.slots.Nodup ∧
    ∀ slot value, (slot, .value value) ∈ node.fields → value.Unambiguous

/-- The trees that can be built: nodes without fields, identifiers and trees that are read, and from
them those with a field put in place, those with a field taken out and those that were taken out. A
plain value repeats no name in an object. -/
inductive Built : Node → Prop
  | ofKind (kind : Kind) : Built (.ofKind kind)
  | identifier (name : String) : Built (.identifier name)
  | ofText {text : String} {node : Node} (read : ofText text = .ok node) : Built node
  | ofNestedText {text : String} {node : Node} (read : ofNestedText text = .ok node) : Built node
  | set {node : Node} (built : Built node) (slot : String) {held : Field Node}
      (parts : ∀ part ∈ held.nodes, Built part)
      (plain : ∀ value, held = .value value → value.Unambiguous) : Built (node.set slot held)
  | take {node : Node} (built : Built node) (slot : String) : Built (node.take slot).2
  | taken {node part : Node} (built : Built node) (slot : String)
      (member : part ∈ (node.take slot).1.nodes) : Built part

/-! ### How a value is read as a field -/

theorem typeName?_eq_some {members : List (String × Value)}
    (distinct : (Entries.names members).Nodup) {name : String} :
    typeName? members = some name ↔ (typeKey, Value.string name) ∈ members := by
  unfold typeName?
  constructor
  · intro found
    obtain ⟨value, held, text⟩ := Option.bind_eq_some_iff.mp found
    cases value <;> cases text
    exact Entries.mem_of_find? held
  · intro member
    rw [Entries.find?_of_mem distinct member]
    rfl

theorem isNodeOrNull_iff {value : Value} (unambiguous : value.Unambiguous) :
    isNodeOrNull value = true ↔ NodeLike value := by
  cases unambiguous with
  | null => exact ⟨fun _ => .null, fun _ => rfl⟩
  | bool | number | string | array =>
    exact ⟨fun like => (nomatch like), fun like => (nomatch like)⟩
  | object distinct each =>
    rw [isNodeOrNull, Option.isSome_iff_exists]
    constructor
    · rintro ⟨name, typed⟩
      exact .typed ((typeName?_eq_some distinct).mp typed)
    · rintro ⟨⟩
      rename_i name typed
      exact ⟨name, (typeName?_eq_some distinct).mpr typed⟩

theorem fieldOfValue_eq_node {value : Value} {node : Node} :
    fieldOfValue value = .node node ↔ ofValue? value = some node := by
  fun_cases fieldOfValue value with
  | case1 => simp [ofValue?]
  | case2 members name typed => simp [ofValue?, typed]
  | case3 members untyped => simp [ofValue?, untyped]
  | case4 items all => simp [ofValue?]
  | case5 items notAll => simp [ofValue?]
  | case6 _ notNull notObject notArray => simp [ofValue?.eq_2 value notObject]

/-- A value that is neither like a node nor like a list of nodes stays plain, and no other does. -/
theorem fieldOfValue_eq_value {value plain : Value} (unambiguous : value.Unambiguous) :
    fieldOfValue value = .value plain ↔ value = plain ∧ ¬Misread value := by
  fun_cases fieldOfValue value with
  | case1 => exact ⟨fun kept => (nomatch kept), fun ⟨_, kept⟩ => absurd (.nodeLike .null) kept⟩
  | case2 members name typed =>
    have like : NodeLike (.object members) :=
      (isNodeOrNull_iff unambiguous).mp (by rw [isNodeOrNull, typed]; rfl)
    exact ⟨fun kept => (nomatch kept), fun ⟨_, kept⟩ => absurd (.nodeLike like) kept⟩
  | case3 members untyped =>
    have kept : ¬Misread (.object members) := by
      rintro ⟨like⟩
      have typed := (isNodeOrNull_iff unambiguous).mpr like
      rw [isNodeOrNull, untyped] at typed
      cases typed
    simp [kept]
  | case4 items all =>
    cases unambiguous with
    | array each =>
      have like : ∀ item ∈ items, NodeLike item := fun item member =>
        (isNodeOrNull_iff (each item member)).mp (List.all_eq_true.mp all item member)
      exact ⟨fun kept => (nomatch kept), fun ⟨_, kept⟩ => absurd (.array like) kept⟩
  | case5 items notAll =>
    cases unambiguous with
    | array each =>
      have kept : ¬Misread (.array items) := by
        rintro (⟨⟨⟩⟩ | like)
        exact notAll (List.all_eq_true.mpr fun item member =>
          (isNodeOrNull_iff (each item member)).mpr (like item member))
      simp [kept]
  | case6 _ notNull notObject notArray =>
    have kept : ¬Misread value := by
      rintro (⟨⟨⟩⟩ | like)
      · exact notNull rfl
      · exact notObject _ rfl
      · exact notArray _ rfl
    simp [kept]

/-! ### Trees that are read -/

/-- The plain values of a node that is read are members of its object, and stayed plain. -/
theorem value_mem_ofMembers {members : List (String × Value)}
    (unambiguous : (Value.object members).Unambiguous) {slot : String} {value : Value}
    (member : (slot, .value value) ∈ ofMembers members) :
    value.Unambiguous ∧ ¬Misread value := by
  cases unambiguous with
  | object distinct each =>
    obtain ⟨written, belongs, read⟩ := mem_nodes_ofMembers member
    have writtenUnambiguous := each _ belongs
    obtain ⟨rfl, kept⟩ := (fieldOfValue_eq_value writtenUnambiguous).mp read.symm
    exact ⟨writtenUnambiguous, kept⟩

theorem typeKey_not_mem_names_ofMembers (members : List (String × Value)) :
    typeKey ∉ Entries.names (ofMembers members) := by
  induction members with
  | nil => exact List.not_mem_nil
  | cons member rest inductionHypothesis =>
    rw [ofMembers]
    split
    · exact inductionHypothesis
    · rename_i different
      exact List.not_mem_cons_of_ne_of_not_mem (Ne.symm different) inductionHypothesis

theorem typeKey_not_mem_slots {value : Value} {node : Node} (found : ofValue? value = some node) :
    typeKey ∉ node.slots := by
  obtain ⟨members, _, _, _, rfl⟩ := ofValue?_eq_some found
  exact typeKey_not_mem_names_ofMembers members

theorem unambiguous_ofValue? {value : Value} (unambiguous : value.Unambiguous) {node : Node}
    (found : ofValue? value = some node) : node.Unambiguous := by
  refine (everywhere_ofValue? (fun {_ members} object => ?_) unambiguous).1 node found
  refine ⟨?_, fun slot value member => (value_mem_ofMembers object member).1⟩
  cases object with
  | object distinct each => exact distinct.sublist (names_ofMembers_sublist members)

theorem canonical_ofValue? {value : Value} (unambiguous : value.Unambiguous) {node : Node}
    (found : ofValue? value = some node) : node.Canonical := by
  refine (everywhere_ofValue? (fun {name members} object => ?_) unambiguous).1 node found
  exact {
    kind := Kind.ofName_name_iff.mp (congrArg Kind.ofName (Kind.name_ofName name))
    slots := typeKey_not_mem_names_ofMembers members
    values := fun slot value member => (value_mem_ofMembers object member).2 }

/-! ### Trees that are built -/

theorem unambiguous_set {node : Node} (unambiguous : node.Unambiguous) (slot : String)
    {held : Field Node} (parts : ∀ part ∈ held.nodes, part.Unambiguous)
    (plain : ∀ value, held = .value value → value.Unambiguous) :
    (node.set slot held).Unambiguous := by
  obtain ⟨distinct, values⟩ := unambiguous.here
  refine everywhere_set unambiguous ⟨slots_set_nodup distinct slot held, ?_⟩ parts
  intro name value member
  unfold set at member
  split at member
  · exact values name value member
  · rcases Entries.mem_put member with put | old
    · exact plain value (Prod.mk.inj put).2.symm
    · exact values name value old

theorem ofNestedText_eq_ok {text : String} {node : Node} (read : ofNestedText text = .ok node) :
    ∃ value : Value, value.Unambiguous ∧ ofValue? value = some node := by
  unfold ofNestedText at read
  split at read
  · cases read
  rename_i value rest valueRead
  split at read
  · cases read
  rename_i made found
  split at read
  · injection read with equal
    exact ⟨value, Json.Reader.value_unambiguous valueRead, equal ▸ found⟩
  · cases read

theorem Built.unambiguous {node : Node} (built : node.Built) : node.Unambiguous := by
  have bare (kind : Kind) : (Node.ofKind kind).Unambiguous :=
    .intro ⟨List.nodup_nil, fun _ _ member => nomatch member⟩ fun _ member => nomatch member
  induction built with
  | ofKind kind => exact bare kind
  | identifier name =>
    refine unambiguous_set (bare .identifier) "name" (fun _ member => nomatch member) ?_
    rintro _ ⟨⟩
    exact .string name
  | ofText read =>
    obtain ⟨value, unambiguous, found⟩ := ofText_eq_ok read
    exact unambiguous_ofValue? unambiguous found
  | ofNestedText read =>
    obtain ⟨value, unambiguous, found⟩ := ofNestedText_eq_ok read
    exact unambiguous_ofValue? unambiguous found
  | set built slot parts plain inductionHypothesis partsHypothesis =>
    exact unambiguous_set inductionHypothesis slot partsHypothesis plain
  | take built slot inductionHypothesis =>
    exact unambiguous_set inductionHypothesis slot (fun _ member => nomatch member)
      fun _ equal => nomatch equal
  | taken built slot member inductionHypothesis =>
    exact inductionHypothesis.child (mem_children_of_mem_nodes member)

end Node

/-! ### Sameness -/

namespace Json

theorem Number.same_self (number : Number) : number.same number = true := by
  cases number with
  | integer whole => exact beq_self_eq_true whole
  | double double => exact Bool.or_eq_true_iff.mpr (Or.inl (beq_self_eq_true double))

namespace Value

theorem sameItems_self {items : List Value} (each : ∀ item ∈ items, item.same item = true) :
    sameItems items items = true := by
  induction items with
  | nil => rfl
  | cons item rest inductionHypothesis =>
    obtain ⟨first, others⟩ := List.forall_mem_cons.mp each
    rw [sameItems, first, inductionHypothesis others]
    rfl

theorem sameMembers_of_find? {members others : List (String × Value)}
    (each : ∀ member ∈ members, Entries.find? others member.1 = some member.2 ∧
      member.2.same member.2 = true) : sameMembers members others = true := by
  induction members with
  | nil => rw [sameMembers]
  | cons member rest inductionHypothesis =>
    obtain ⟨⟨found, same⟩, later⟩ := List.forall_mem_cons.mp each
    rw [sameMembers, found, inductionHypothesis later]
    simp [same]

theorem same_self {value : Value} (unambiguous : value.Unambiguous) : value.same value = true := by
  induction unambiguous with
  | null => rfl
  | bool flag => exact beq_self_eq_true flag
  | number quantity => exact quantity.same_self
  | string text => exact beq_self_eq_true text
  | array each inductionHypothesis => exact sameItems_self inductionHypothesis
  | object distinct each inductionHypothesis =>
    rw [same, beq_self_eq_true, Bool.true_and]
    exact sameMembers_of_find? fun member belongs =>
      ⟨Entries.find?_of_mem distinct belongs, inductionHypothesis member belongs⟩

end Value

end Json

namespace Node

theorem sameFields_iff {first second : List (String × Field Node)} :
    sameFields first second = true ↔
      List.Forall₂ (fun one other => one.1 = other.1 ∧ sameField one.2 other.2 = true)
        first second := by
  induction first generalizing second with
  | nil => cases second <;> simp [sameFields]
  | cons entry rest inductionHypothesis =>
    cases second with
    | nil => simp [sameFields]
    | cons other others =>
      obtain ⟨slot, held⟩ := entry
      obtain ⟨otherSlot, otherHeld⟩ := other
      simp [sameFields, inductionHypothesis]

theorem same_iff {first second : Node} :
    first.same second = true ↔ first.kind = second.kind ∧
      List.Forall₂ (fun one other => one.1 = other.1 ∧ sameField one.2 other.2 = true)
        first.fields second.fields := by
  obtain ⟨firstKind, firstFields⟩ := first
  obtain ⟨secondKind, secondFields⟩ := second
  rw [same, Bool.and_eq_true, beq_iff_eq, sameFields_iff]

theorem sameItems_iff {first second : List (Option Node)} :
    sameItems first second = true ↔
      List.Forall₂ (Option.Rel fun one other => one.same other = true) first second := by
  induction first generalizing second with
  | nil => cases second <;> simp [sameItems]
  | cons item rest inductionHypothesis =>
    cases second with
    | nil => cases item <;> simp [sameItems]
    | cons other others =>
      cases item <;> cases other <;> simp [sameItems, inductionHypothesis]

theorem sameField_self {held : Field Node} (parts : ∀ part ∈ held.nodes, part.same part = true)
    (plain : ∀ value, held = .value value → value.same value = true) :
    sameField held held = true := by
  cases held with
  | absent => rw [sameField]
  | node child =>
    rw [sameField]
    exact parts child (List.mem_singleton.mpr rfl)
  | value value =>
    rw [sameField]
    exact plain value rfl
  | list items =>
    rw [sameField]
    refine sameItems_iff.mpr (List.forall₂_same.mpr fun item member => ?_)
    cases item with
    | none => exact .none
    | some child => exact .some (parts child (List.mem_filterMap.mpr ⟨_, member, rfl⟩))

theorem same_self {node : Node} (unambiguous : node.Unambiguous) : node.same node = true := by
  unfold Unambiguous at unambiguous
  induction unambiguous with
  | intro here below inductionHypothesis =>
    refine same_iff.mpr ⟨rfl, List.forall₂_same.mpr ?_⟩
    rintro ⟨slot, held⟩ member
    refine ⟨rfl, sameField_self (fun part partMember => ?_) ?_⟩
    · exact inductionHypothesis part (List.mem_flatMap.mpr ⟨_, member, partMember⟩)
    · rintro value rfl
      exact Value.same_self (here.2 slot value member)

/-! ### Writing a tree and reading it again -/

theorem toItems_eq_map (items : List (Option Node)) :
    toItems items = items.map fun item => item.elim .null toValue := by
  induction items with
  | nil => rfl
  | cons item rest inductionHypothesis =>
    cases item <;> simp [toItems, inductionHypothesis]

theorem ofItems_eq_map (items : List Value) : ofItems items = items.map ofValue? := by
  induction items with
  | nil => rfl
  | cons item rest inductionHypothesis => rw [ofItems, inductionHypothesis, List.map_cons]

theorem toMembers_eq_map (fields : List (String × Field Node)) :
    toMembers fields = fields.map fun entry => (entry.1, fieldToValue entry.2) := by
  induction fields with
  | nil => rfl
  | cons entry rest inductionHypothesis => rw [toMembers, inductionHypothesis, List.map_cons]

theorem ofMembers_eq_map {members : List (String × Value)}
    (untyped : typeKey ∉ Entries.names members) :
    ofMembers members = members.map fun member => (member.1, fieldOfValue member.2) := by
  induction members with
  | nil => rfl
  | cons member rest inductionHypothesis =>
    rw [ofMembers, if_neg (Ne.symm (List.ne_of_not_mem_cons untyped)),
      inductionHypothesis (List.not_mem_of_not_mem_cons untyped), List.map_cons]

/-- A field as it is read back. -/
def rereadField (held : Field Node) : Field Node :=
  fieldOfValue (fieldToValue held).reread

theorem rereadMembers_toMembers (fields : List (String × Field Node)) :
    Value.rereadMembers (toMembers fields) =
      fields.map fun entry => (entry.1, (fieldToValue entry.2).reread) := by
  rw [Value.rereadMembers_eq_map, toMembers_eq_map, List.map_map]
  rfl

theorem names_rereadMembers_toMembers (fields : List (String × Field Node)) :
    Entries.names (Value.rereadMembers (toMembers fields)) = Entries.names fields := by
  rw [rereadMembers_toMembers]
  unfold Entries.names
  rw [List.map_map]
  rfl

/-- The kind of an object with a string under `type` in front is that string. -/
theorem ofValue?_typed (name : String) (members : List (String × Value)) :
    ofValue? (.object ((typeKey, .string name) :: members)) =
      some ⟨.ofName name, ofMembers members⟩ := by
  have typed : typeName? ((typeKey, .string name) :: members) = some name := by
    simp [typeName?, Entries.find?, Value.toText?]
  rw [ofValue?, ofMembers, if_pos rfl]
  simp only [typed]

/-- A node without a field called `type` is read back, field by field. -/
theorem ofValue?_reread_toValue {node : Node} (distinct : node.slots.Nodup)
    (untyped : typeKey ∉ node.slots) :
    ofValue? node.toValue.reread =
      some ⟨.ofName node.kind.name,
        node.fields.map fun entry => (entry.1, rereadField entry.2)⟩ := by
  obtain ⟨kind, fields⟩ := node
  have names := names_rereadMembers_toMembers fields
  have nodup : (Entries.names ((typeKey, Value.string kind.name) ::
      Value.rereadMembers (toMembers fields))).Nodup := by
    show (typeKey :: Entries.names (Value.rereadMembers (toMembers fields))).Nodup
    rw [names]
    exact List.nodup_cons.mpr ⟨untyped, distinct⟩
  have written : (Node.mk kind fields).toValue.reread =
      .object ((typeKey, .string kind.name) :: Value.rereadMembers (toMembers fields)) := by
    rw [toValue, Value.reread, Value.rereadMembers]
    exact congrArg _ (Entries.ofPairs_of_nodup nodup)
  have notType : typeKey ∉ Entries.names (Value.rereadMembers (toMembers fields)) := by
    rw [names]
    exact untyped
  rw [written, ofValue?_typed, ofMembers_eq_map notType, rereadMembers_toMembers, List.map_map]
  rfl

/-! ### Lists of nodes that are written -/

/-- The value that an item of a list is read from. -/
def rereadItem (item : Option Node) : Value :=
  item.elim .null fun child => child.toValue.reread

theorem rereadField_list (items : List (Option Node)) :
    rereadField (.list items) = fieldOfValue (.array (items.map rereadItem)) := by
  have written : (toItems items).map Value.reread = items.map rereadItem := by
    rw [toItems_eq_map, List.map_map]
    refine List.map_congr_left fun item _ => ?_
    cases item <;> rfl
  rw [rereadField, fieldToValue, Value.reread, Value.rereadItems_eq_map, written]

theorem isNodeOrNull_of_ofValue? {value : Value} {node : Node}
    (found : ofValue? value = some node) : isNodeOrNull value = true := by
  obtain ⟨members, name, rfl, typed, _⟩ := ofValue?_eq_some found
  rw [isNodeOrNull, typed]
  rfl

/-! ### Canonical trees read back -/

theorem rereadField_eq {held : Field Node}
    (parts : ∀ part ∈ held.nodes, ofValue? part.toValue.reread = some part)
    (plain : ∀ value, held = .value value → value.Unambiguous ∧ ¬Misread value) :
    rereadField held = held := by
  cases held with
  | absent => rfl
  | node child => exact fieldOfValue_eq_node.mpr (parts child (List.mem_singleton.mpr rfl))
  | value value =>
    obtain ⟨unambiguous, kept⟩ := plain value rfl
    rw [rereadField, fieldToValue, Value.reread_of_unambiguous unambiguous]
    exact (fieldOfValue_eq_value unambiguous).mpr ⟨rfl, kept⟩
  | list items =>
    have child {child : Node} (member : some child ∈ items) :
        ofValue? child.toValue.reread = some child :=
      parts child (List.mem_filterMap.mpr ⟨_, member, rfl⟩)
    have all : (items.map rereadItem).all isNodeOrNull = true := by
      refine List.all_map.trans (List.all_eq_true.mpr fun item member => ?_)
      cases item with
      | none => rfl
      | some node => exact isNodeOrNull_of_ofValue? (child member)
    have each : (items.map rereadItem).map ofValue? = items := by
      rw [List.map_map]
      refine (List.map_congr_left fun item member => ?_).trans (List.map_id' items)
      cases item with
      | none => rfl
      | some node => exact child member
    rw [rereadField_list, fieldOfValue, if_pos all, ofItems_eq_map, each]

/-- A canonical tree reads back from its value. -/
theorem ofValue?_reread_of_canonical {node : Node} (unambiguous : node.Unambiguous)
    (canonical : node.Canonical) : ofValue? node.toValue.reread = some node := by
  unfold Unambiguous at unambiguous
  induction unambiguous with
  | @intro node here below inductionHypothesis =>
    obtain ⟨kind, fields⟩ := node
    obtain ⟨kindKept, untyped, valuesKept⟩ := canonical.here
    have fieldwise : fields.map (fun entry => (entry.1, rereadField entry.2)) = fields := by
      refine (List.map_congr_left fun entry member => ?_).trans (List.map_id' fields)
      obtain ⟨slot, held⟩ := entry
      have part {part : Node} (partMember : part ∈ held.nodes) :
          part ∈ children ⟨kind, fields⟩ := List.mem_flatMap.mpr ⟨_, member, partMember⟩
      have held : rereadField held = held := by
        refine rereadField_eq (fun _ partMember => ?_) ?_
        · exact inductionHypothesis _ (part partMember) (canonical.child (part partMember))
        · rintro value rfl
          exact ⟨here.2 slot value member, valuesKept slot value member⟩
      rw [held]
    rw [ofValue?_reread_toValue here.1 untyped, fieldwise, Kind.ofName_name_iff.mpr kindKept]

/-! ### Trees that read back the same are canonical -/

theorem slots_eq_of_same {first second : Node} (same : first.same second = true) :
    first.slots = second.slots := by
  have names := (same_iff.mp same).2.imp fun _ _ => And.left
  rwa [← List.forall₂_map_right_iff, ← List.forall₂_map_left_iff, List.forall₂_eq_eq_eq] at names

theorem sameField_node {held : Field Node} {child : Node}
    (same : sameField held (.node child) = true) :
    ∃ read, held = .node read ∧ read.same child = true := by
  cases held with
  | node read => exact ⟨read, rfl, by rwa [sameField] at same⟩
  | _ => simp [sameField] at same

theorem sameField_list {held : Field Node} {items : List (Option Node)}
    (same : sameField held (.list items) = true) :
    ∃ read, held = .list read ∧ sameItems read items = true := by
  cases held with
  | list read => exact ⟨read, rfl, by rwa [sameField] at same⟩
  | _ => simp [sameField] at same

theorem sameField_value {held : Field Node} {value : Value}
    (same : sameField held (.value value) = true) : ∃ plain, held = .value plain := by
  cases held with
  | value plain => exact ⟨plain, rfl⟩
  | _ => simp [sameField] at same

/-- A node in a field that reads back the same reads back the same itself. -/
theorem same_of_mem_nodes {held : Field Node} (same : sameField (rereadField held) held = true)
    {part : Node} (member : part ∈ held.nodes) :
    ∃ read, ofValue? part.toValue.reread = some read ∧ read.same part = true := by
  cases held with
  | absent => cases member
  | value value => cases member
  | node child =>
    obtain rfl := List.mem_singleton.mp member
    obtain ⟨read, equal, sameRead⟩ := sameField_node same
    exact ⟨read, fieldOfValue_eq_node.mp equal, sameRead⟩
  | list items =>
    obtain ⟨read, equal, sameRead⟩ := sameField_list same
    rw [rereadField_list, fieldOfValue] at equal
    split at equal
    · rw [← Field.list.inj equal, sameItems_iff, ofItems_eq_map, List.map_map,
        List.forall₂_map_left_iff, List.forall₂_same] at sameRead
      obtain ⟨item, itemMember, itemEqual⟩ := List.mem_filterMap.mp member
      obtain rfl : item = some part := itemEqual
      generalize found : (ofValue? ∘ rereadItem) (some part) = made
      have related := sameRead _ itemMember
      rw [found] at related
      cases related with
      | some sameMade => exact ⟨_, found, sameMade⟩
    · cases equal

/-- A tree whose value reads back as the same tree is canonical. -/
theorem canonical_of_same {node read : Node} (unambiguous : node.Unambiguous)
    (found : ofValue? node.toValue.reread = some read) (same : read.same node = true) :
    node.Canonical := by
  unfold Unambiguous at unambiguous
  induction unambiguous generalizing read with
  | @intro node here below inductionHypothesis =>
    obtain ⟨distinct, values⟩ := here
    obtain ⟨kindSame, fieldsSame⟩ := same_iff.mp same
    -- A node that is read has no field called `type`, so the tree has none either.
    have untyped : typeKey ∉ node.slots := slots_eq_of_same same ▸ typeKey_not_mem_slots found
    rw [ofValue?_reread_toValue distinct untyped] at found
    obtain rfl := Option.some.inj found
    have fieldSame : ∀ entry ∈ node.fields, sameField (rereadField entry.2) entry.2 = true := by
      rw [List.forall₂_map_left_iff, List.forall₂_same] at fieldsSame
      exact fun entry member => (fieldsSame entry member).2
    refine .intro ⟨Kind.ofName_name_iff.mp kindSame, untyped, fun slot value member => ?_⟩
      fun child member => ?_
    · obtain ⟨plain, kept⟩ := sameField_value (fieldSame _ member)
      rw [rereadField, fieldToValue, Value.reread_of_unambiguous (values slot value member)] at kept
      exact ((fieldOfValue_eq_value (values slot value member)).mp kept).2
    · obtain ⟨entry, entryMember, childMember⟩ := List.mem_flatMap.mp member
      obtain ⟨childRead, childFound, childSame⟩ :=
        same_of_mem_nodes (fieldSame entry entryMember) childMember
      exact inductionHypothesis child member childFound childSame

/-! ### Texts -/

theorem ofText_text {node read : Node} :
    ofText node.text = .ok read ↔ ofValue? node.toValue.reread = some read := by
  unfold ofText text
  rw [Value.ofText?_compactText]
  cases found : ofValue? node.toValue.reread <;> simp [found]

theorem ofText_text_of_canonical {node : Node} (unambiguous : node.Unambiguous)
    (canonical : node.Canonical) : ofText node.text = .ok node :=
  ofText_text.mpr (ofValue?_reread_of_canonical unambiguous canonical)

theorem canonical_ofText {text : String} {node : Node} (read : ofText text = .ok node) :
    node.Canonical := by
  obtain ⟨value, unambiguous, found⟩ := ofText_eq_ok read
  exact canonical_ofValue? unambiguous found

end Node

open Node

/-- A tree that was built is read back from its text as the same tree exactly if it is canonical.
Every tree that is read is canonical, so writing it and reading it again gives the tree itself. -/
theorem reads_back_iff_canonical :
    (∀ node : Node, node.Built →
      ((∃ read, ofText node.text = .ok read ∧ read.same node = true) ↔ node.Canonical)) ∧
      ∀ (text : String) (node : Node), ofText text = .ok node →
        node.Canonical ∧ ofText node.text = .ok node := by
  refine ⟨fun node built => ⟨?_, fun canonical => ?_⟩, fun text node read => ?_⟩
  · rintro ⟨read, readBack, same⟩
    exact canonical_of_same built.unambiguous (ofText_text.mp readBack) same
  · exact ⟨node, ofText_text_of_canonical built.unambiguous canonical,
      same_self built.unambiguous⟩
  · have canonical := canonical_ofText read
    exact ⟨canonical, ofText_text_of_canonical (Built.ofText read).unambiguous canonical⟩

/-- An element with a hole and a node in a list, and with a plain array that is no list of nodes. -/
def sparseElement : Node :=
  ((Node.ofKind (.other "JSXElement")).set "children"
    (.list [none, some (.identifier "a")])).set "range" (.value (.array [.null, .bool true]))

/-- A literal whose plain value is written like a node. -/
def nodeLikeLiteral : Node :=
  (Node.ofKind .literal).set "value" (.value (.object [("type", .string "Identifier")]))

theorem built_sparseElement : sparseElement.Built := by
  refine .set (.set (.ofKind _) _ (fun part member => ?_) ?_) _ (fun _ member => nomatch member) ?_
  · obtain rfl : part = .identifier "a" := by simpa [Field.nodes] using member
    exact .identifier "a"
  · exact fun _ equal => nomatch equal
  · rintro _ ⟨⟩
    exact .array (by simpa using And.intro Value.Unambiguous.null (Value.Unambiguous.bool true))

theorem canonical_identifier (name : String) : (Node.identifier name).Canonical := by
  have kept : ¬Misread (.string name) := by
    rintro ⟨⟨⟩⟩
  have untyped : typeKey ∉ ["name"] := by decide
  refine .intro ⟨fun _ equal => (nomatch equal), untyped, fun slot value member => ?_⟩
    fun _ member => (nomatch member)
  obtain ⟨_, equal⟩ := Prod.mk.inj (List.mem_singleton.mp member)
  exact Field.value.inj equal ▸ kept

theorem canonical_sparseElement : sparseElement.Canonical := by
  have kept : ¬Misread (.array [.null, .bool true]) := by
    rintro (⟨⟨⟩⟩ | each)
    cases each (.bool true) (by simp)
  have unknown : Kind.ofName "JSXElement" = .other "JSXElement" := by decide
  have untyped : typeKey ∉ ["children", "range"] := by decide
  have fields : sparseElement.fields = [("children", .list [none, some (.identifier "a")]),
      ("range", .value (.array [.null, .bool true]))] := rfl
  refine .intro ⟨Kind.ofName_name_iff.mp unknown, untyped, fun slot value member => ?_⟩
    fun child member => ?_
  · simp only [fields, List.mem_cons, Prod.mk.injEq, reduceCtorEq, and_false, Field.value.injEq,
      List.not_mem_nil, or_false, false_or] at member
    exact member.2 ▸ kept
  · obtain rfl : child = .identifier "a" := List.mem_singleton.mp member
    exact canonical_identifier "a"

theorem built_nodeLikeLiteral : nodeLikeLiteral.Built := by
  refine .set (.ofKind _) _ (fun _ member => nomatch member) ?_
  rintro _ ⟨⟩
  exact .object (by decide) (by simpa using Value.Unambiguous.string "Identifier")

theorem not_canonical_nodeLikeLiteral : ¬nodeLikeLiteral.Canonical := fun canonical =>
  canonical.here.values "value" _ (List.mem_singleton.mpr rfl)
    (.nodeLike (.typed (List.mem_singleton.mpr rfl)))

theorem sparseElement_reads_back :
    (∃ read, ofText sparseElement.text = .ok read ∧ read.same sparseElement = true) ∧
      (¬∃ read, ofText nodeLikeLiteral.text = .ok read ∧ read.same nodeLikeLiteral = true) ∧
      ofText sparseElement.text = .ok sparseElement ∧ sparseElement.Canonical := by
  have element := (reads_back_iff_canonical.1 _ built_sparseElement).mpr canonical_sparseElement
  have literal := (not_congr (reads_back_iff_canonical.1 _ built_nodeLikeLiteral)).mpr
    not_canonical_nodeLikeLiteral
  have text : ofText sparseElement.text = .ok sparseElement :=
    ofText_text_of_canonical built_sparseElement.unambiguous canonical_sparseElement
  exact ⟨element, literal, text, (reads_back_iff_canonical.2 _ _ text).1⟩

end EstreeScopes
