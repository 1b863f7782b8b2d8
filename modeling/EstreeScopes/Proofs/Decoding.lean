/-
This file says what becomes of a value that is read as a tree and written again.
The root, and below it the typed objects that are the value of a member of a node
or an item of an array of typed objects and nulls, are where the nodes of the tree
stand. At each of them the member `type` comes to the front. Everything else stays
as it is: the order of the other members, the places of nulls, and all of a value
that is kept plain.

Only an object with a string under `type` is read as a tree, and whatever it holds
it is read. Reading can be done with a check at every step, giving up at the first
value that is no node; the checks below the root never fail.
-/

import EstreeScopes.Proofs.Canonical

namespace EstreeScopes

open Json (Value)

/-! ### The member `type` in front -/

namespace Json.Value

/-- Whether a member gives the type of its object: a string under `type`. -/
def isTypeMember : String × Value → Bool
  | (name, .string _) => name == typeKey
  | _ => false

/-- Whether a value is an object that has a string under `type`. -/
def isTyped : Value → Bool
  | .object members => members.any isTypeMember
  | _ => false

/-- Whether a value is a typed object or null. -/
def isTypedOrNull : Value → Bool
  | .null => true
  | value => value.isTyped

mutual

/-- A value with the member `type` moved to the front wherever a node stands. -/
def typeFirst : Value → Value
  | .object members =>
    if members.any isTypeMember then
      .object (members.filter isTypeMember ++ typeFirstMembers members)
    else .object members
  | .array items => if items.all isTypedOrNull then .array (typeFirstItems items) else .array items
  | plain => plain

/-- The members of a node other than its type, each with `type` in front where a node stands. -/
def typeFirstMembers : List (String × Value) → List (String × Value)
  | [] => []
  | (name, value) :: rest =>
    if isTypeMember (name, value) then typeFirstMembers rest
    else (name, value.typeFirst) :: typeFirstMembers rest

/-- The items of a list of nodes, each with `type` in front. -/
def typeFirstItems : List Value → List Value
  | [] => []
  | item :: rest => item.typeFirst :: typeFirstItems rest

end

theorem typeFirstItems_eq_map (items : List Value) :
    typeFirstItems items = items.map typeFirst := by
  induction items with
  | nil => rfl
  | cons item rest inductionHypothesis => rw [typeFirstItems, inductionHypothesis, List.map_cons]

end Json.Value

namespace Node

open Json.Value

/-! ### Reading with a check at every step -/

/-- A node from what was read of its members; without a kind there is none. -/
def assemble : Option Kind × List (String × Field Node) → Except TreeError Node
  | (some kind, fields) => .ok { kind, fields }
  | (none, _) => .error .notNode

mutual

/-- The node that a value stands for, read member by member. -/
def checkedNode : Value → Except TreeError Node
  | .object members => checkedMembers members >>= assemble
  | _ => .error .notNode

/-- The kind and the fields that the members of an object stand for. A later kind replaces an
earlier one, and a kind that is no string ends the reading. -/
def checkedMembers :
    List (String × Value) → Except TreeError (Option Kind × List (String × Field Node))
  | [] => .ok (none, [])
  | (name, value) :: rest =>
    if name = typeKey then
      match value.toText? with
      | some type => do
        let (kind, fields) ← checkedMembers rest
        return (kind.or (some (.ofName type)), fields)
      | none => .error .notNode
    else do
      let field ← checkedField value
      let (kind, fields) ← checkedMembers rest
      return (kind, (name, field) :: fields)

/-- The field that a member stands for. -/
def checkedField : Value → Except TreeError (Field Node)
  | .null => .ok .absent
  | .object members =>
    if (typeName? members).isSome then do
      let node ← checkedMembers members >>= assemble
      return .node node
    else .ok (.value (.object members))
  | .array items =>
    if items.all isNodeOrNull then do
      let nodes ← checkedItems items
      return .list nodes
    else .ok (.value (.array items))
  | plain => .ok (.value plain)

/-- The items that the items of an array stand for: null is a hole, and all else must be a node. -/
def checkedItems : List Value → Except TreeError (List (Option Node))
  | [] => .ok []
  | .null :: rest => do
    let nodes ← checkedItems rest
    return none :: nodes
  | item :: rest => do
    let node ← checkedNode item
    let nodes ← checkedItems rest
    return some node :: nodes

end

/-! ### Typed objects -/

theorem isTypeMember_iff {member : String × Value} :
    isTypeMember member = true ↔ ∃ name, member = (typeKey, .string name) := by
  obtain ⟨key, value⟩ := member
  cases value <;> simp [isTypeMember]

theorem isTypeMember_of_name {members : List (String × Value)}
    (distinct : (Entries.names members).Nodup) {name : String}
    (typed : typeName? members = some name) {member : String × Value} (belongs : member ∈ members)
    (type : member.1 = typeKey) : isTypeMember member = true := by
  obtain ⟨key, value⟩ := member
  obtain rfl : key = typeKey := type
  have found := Entries.find?_of_mem distinct ((typeName?_eq_some distinct).mp typed)
  rw [Entries.find?_of_mem distinct belongs] at found
  exact isTypeMember_iff.mpr ⟨name, by rw [Option.some.inj found]⟩

theorem any_isTypeMember {members : List (String × Value)}
    (distinct : (Entries.names members).Nodup) :
    members.any isTypeMember = (typeName? members).isSome := by
  rw [Bool.eq_iff_iff, List.any_eq_true, Option.isSome_iff_exists]
  constructor
  · rintro ⟨member, belongs, type⟩
    obtain ⟨name, rfl⟩ := isTypeMember_iff.mp type
    exact ⟨name, (typeName?_eq_some distinct).mpr belongs⟩
  · rintro ⟨name, typed⟩
    exact ⟨_, (typeName?_eq_some distinct).mp typed, isTypeMember_iff.mpr ⟨name, rfl⟩⟩

/-- The member that gives the type is the only one of its name. -/
theorem filter_isTypeMember {members : List (String × Value)}
    (distinct : (Entries.names members).Nodup) {name : String}
    (typed : typeName? members = some name) :
    members.filter isTypeMember = [(typeKey, .string name)] := by
  obtain ⟨before, after, rfl⟩ := List.append_of_mem ((typeName?_eq_some distinct).mp typed)
  have apart : typeKey ∉ Entries.names before ++ Entries.names after := by
    rw [Entries.names, List.map_append, List.map_cons] at distinct
    exact (List.nodup_cons.mp (List.nodup_middle.mp distinct)).1
  have untyped {others : List (String × Value)} (missing : typeKey ∉ Entries.names others) :
      others.filter isTypeMember = [] := by
    refine List.filter_eq_nil_iff.mpr fun member belongs type => missing ?_
    obtain ⟨name, rfl⟩ := isTypeMember_iff.mp type
    exact List.mem_map.mpr ⟨_, belongs, rfl⟩
  rw [List.filter_append, List.filter_cons_of_pos (isTypeMember_iff.mpr ⟨name, rfl⟩),
    untyped fun member => apart (List.mem_append_left _ member),
    untyped fun member => apart (List.mem_append_right _ member), List.nil_append]

theorem isTypedOrNull_eq {value : Value} (unambiguous : value.Unambiguous) :
    value.isTypedOrNull = isNodeOrNull value := by
  cases unambiguous with
  | object distinct _ => exact any_isTypeMember distinct
  | _ => rfl

theorem all_isTypedOrNull {items : List Value} (each : ∀ item ∈ items, item.Unambiguous) :
    items.all isTypedOrNull = items.all isNodeOrNull := by
  rw [Bool.eq_iff_iff, List.all_eq_true, List.all_eq_true]
  exact forall₂_congr fun item member => by rw [isTypedOrNull_eq (each item member)]

theorem eq_null_of_ofValue? {item : Value} (node : isNodeOrNull item = true)
    (missing : ofValue? item = none) : item = .null := by
  cases item with
  | null => rfl
  | object members =>
    obtain ⟨name, typed⟩ := Option.isSome_iff_exists.mp node
    simp [ofValue?, typed] at missing
  | _ => cases node

theorem exists_ofValue?_iff {value : Value} (unambiguous : value.Unambiguous) :
    (∃ node, ofValue? value = some node) ↔
      ∃ members name, value = .object members ∧ (typeKey, .string name) ∈ members := by
  constructor
  · rintro ⟨node, found⟩
    obtain ⟨members, name, rfl, typed, _⟩ := ofValue?_eq_some found
    cases unambiguous with
    | object distinct _ => exact ⟨members, name, rfl, (typeName?_eq_some distinct).mp typed⟩
  · rintro ⟨members, name, rfl, type⟩
    cases unambiguous with
    | object distinct _ =>
      rw [ofValue?, (typeName?_eq_some distinct).mpr type]
      exact ⟨_, rfl⟩

/-! ### Writing what was read -/

theorem toMembers_ofMembers {members : List (String × Value)}
    (each : ∀ member ∈ members, fieldToValue (fieldOfValue member.2) = member.2.typeFirst)
    (types : ∀ member ∈ members, member.1 = typeKey → isTypeMember member = true) :
    toMembers (ofMembers members) = typeFirstMembers members := by
  induction members with
  | nil => rfl
  | cons member rest inductionHypothesis =>
    obtain ⟨name, value⟩ := member
    obtain ⟨first, others⟩ := List.forall_mem_cons.mp each
    obtain ⟨firstType, otherTypes⟩ := List.forall_mem_cons.mp types
    rw [ofMembers, typeFirstMembers]
    by_cases type : name = typeKey
    · rw [if_pos type, if_pos (firstType type)]
      exact inductionHypothesis others otherTypes
    · have notType : ¬isTypeMember (name, value) = true := fun isType => by
        obtain ⟨_, equal⟩ := isTypeMember_iff.mp isType
        exact type (Prod.mk.inj equal).1
      rw [if_neg type, if_neg notType, toMembers, first, inductionHypothesis others otherTypes]

/-- What an item of a list of nodes is written as. -/
theorem elim_ofValue? {item : Value} (node : isNodeOrNull item = true)
    (written : fieldToValue (fieldOfValue item) = item.typeFirst) :
    (ofValue? item).elim .null toValue = item.typeFirst := by
  cases found : ofValue? item with
  | none => rw [eq_null_of_ofValue? node found]; rfl
  | some made => rw [← written, fieldOfValue_eq_node.mpr found, fieldToValue]; rfl

/-- A field is written as the value it was read from, with `type` in front where a node stands. -/
theorem fieldToValue_fieldOfValue {value : Value} (unambiguous : value.Unambiguous) :
    fieldToValue (fieldOfValue value) = value.typeFirst := by
  induction unambiguous with
  | null | bool | number | string => rfl
  | @array items each inductionHypothesis =>
    rw [fieldOfValue, typeFirst, all_isTypedOrNull each]
    split
    · rename_i all
      rw [fieldToValue, toItems_eq_map, ofItems_eq_map, List.map_map, typeFirstItems_eq_map]
      refine congrArg _ (List.map_congr_left fun item member => ?_)
      exact elim_ofValue? (List.all_eq_true.mp all item member) (inductionHypothesis item member)
    · rfl
  | @object members distinct each inductionHypothesis =>
    rw [fieldOfValue, typeFirst, any_isTypeMember distinct]
    cases typed : typeName? members with
    | none => rfl
    | some name =>
      simp only [fieldToValue, toValue, Kind.name_ofName, Option.isSome_some, if_true,
        filter_isTypeMember distinct typed]
      rw [toMembers_ofMembers inductionHypothesis fun member belongs =>
        isTypeMember_of_name distinct typed belongs]
      rfl

theorem toValue_of_ofValue? {value : Value} (unambiguous : value.Unambiguous) {node : Node}
    (found : ofValue? value = some node) : node.toValue = value.typeFirst := by
  rw [← fieldToValue_fieldOfValue unambiguous, fieldOfValue_eq_node.mpr found, fieldToValue]

/-! ### The checks below the root never fail -/

/-- The outcome of a reading that gives up where there is no node. -/
def orNotNode : Option Node → Except TreeError Node
  | some node => .ok node
  | none => .error .notNode

/-- If every field can be read, only the type of an object can end the reading of its members. -/
theorem checkedMembers_eq {members : List (String × Value)}
    (distinct : (Entries.names members).Nodup)
    (each : ∀ member ∈ members, checkedField member.2 = .ok (fieldOfValue member.2)) :
    checkedMembers members =
      match (Entries.find? members typeKey).map Value.toText? with
      | none => .ok (none, ofMembers members)
      | some (some type) => .ok (some (.ofName type), ofMembers members)
      | some none => .error .notNode := by
  induction members with
  | nil => rfl
  | cons member rest inductionHypothesis =>
    obtain ⟨key, value⟩ := member
    obtain ⟨fresh, restDistinct⟩ := List.nodup_cons.mp distinct
    obtain ⟨first, others⟩ := List.forall_mem_cons.mp each
    have restRead := inductionHypothesis restDistinct others
    rw [checkedMembers, Entries.find?, ofMembers]
    by_cases type : key = typeKey
    · -- No name is repeated, so no later member replaces the kind.
      have missing : Entries.find? rest typeKey = none := by
        cases found : Entries.find? rest typeKey with
        | none => rfl
        | some other =>
          exact absurd (List.mem_map.mpr ⟨_, Entries.mem_of_find? found, type.symm⟩) fresh
      rw [missing] at restRead
      simp only [if_pos type, restRead, Option.map_some]
      cases value.toText? <;> rfl
    · simp only [if_neg type, first, restRead]
      rcases (Entries.find? rest typeKey).map Value.toText? with _ | _ | type <;> rfl

theorem checkedMembers_assemble {members : List (String × Value)}
    (distinct : (Entries.names members).Nodup)
    (each : ∀ member ∈ members, checkedField member.2 = .ok (fieldOfValue member.2)) :
    checkedMembers members >>= assemble = orNotNode (ofValue? (.object members)) := by
  rw [checkedMembers_eq distinct each, ofValue?, typeName?]
  cases found : Entries.find? members typeKey with
  | none => rfl
  | some value => cases type : value.toText? <;> simp [type] <;> rfl

theorem checkedItems_eq {items : List Value} (nodes : ∀ item ∈ items, isNodeOrNull item = true)
    (each : ∀ item ∈ items, checkedNode item = orNotNode (ofValue? item)) :
    checkedItems items = .ok (ofItems items) := by
  induction items with
  | nil => rfl
  | cons item rest inductionHypothesis =>
    obtain ⟨firstNode, otherNodes⟩ := List.forall_mem_cons.mp nodes
    obtain ⟨first, others⟩ := List.forall_mem_cons.mp each
    have restRead := inductionHypothesis otherNodes others
    cases found : ofValue? item with
    | none =>
      -- Among nodes and nulls only a null is no node, and for that nothing is checked.
      obtain rfl := eq_null_of_ofValue? firstNode found
      rw [checkedItems, restRead, ofItems]
      rfl
    | some node =>
      have notNull : item = .null → False := by
        rintro rfl
        cases found
      rw [checkedItems.eq_3 item rest notNull, first, restRead, ofItems, found]
      rfl

theorem checked_eq {value : Value} (unambiguous : value.Unambiguous) :
    checkedNode value = orNotNode (ofValue? value) ∧
      checkedField value = .ok (fieldOfValue value) := by
  induction unambiguous with
  | null | bool | number | string => exact ⟨rfl, rfl⟩
  | @array items each inductionHypothesis =>
    refine ⟨rfl, ?_⟩
    rw [checkedField, fieldOfValue]
    split
    · rename_i all
      rw [checkedItems_eq (List.all_eq_true.mp all) fun item member =>
        (inductionHypothesis item member).1]
      rfl
    · rfl
  | @object members distinct each inductionHypothesis =>
    have read := checkedMembers_assemble distinct fun member belongs =>
      (inductionHypothesis member belongs).2
    refine ⟨read, ?_⟩
    rw [checkedField, fieldOfValue, read, ofValue?]
    cases typeName? members <;> rfl

end Node

open Node

/-- Exactly the objects with a string under `type` are read as trees, whatever they hold, and what
is written of such a tree is the value with `type` in front wherever a node stands. Reading with a
check at every step comes to the same: a check fails at the root or nowhere. -/
theorem decoding_keeps_all_but_type_order {value : Value} (unambiguous : value.Unambiguous) :
    ((∃ node, ofValue? value = some node) ↔
        ∃ members name, value = .object members ∧ (typeKey, .string name) ∈ members) ∧
      (∀ node, ofValue? value = some node → node.toValue = value.typeFirst) ∧
      checkedNode value = orNotNode (ofValue? value) :=
  ⟨exists_ofValue?_iff unambiguous, fun _ => toValue_of_ofValue? unambiguous,
    (checked_eq unambiguous).1⟩

/-- An array pattern with its type in third place, a hole and a node among its elements, and two
values that are kept plain although typed objects stand in them. -/
def scatteredPattern : Value :=
  .object
    [ ("range", .array [.bool true, .object [("raw", .null), ("type", .string "Literal")]]),
      ("elements", .array
        [.null, .object [("name", .string "b"), ("type", .string "Identifier")]]),
      ("type", .string "ArrayPattern"),
      ("loc", .object [("source", .object [("raw", .null), ("type", .string "Literal")])]) ]

theorem scatteredPattern_unambiguous : scatteredPattern.Unambiguous := by
  have plain : (Value.object [("raw", .null), ("type", .string "Literal")]).Unambiguous :=
    .object (by decide) (by simpa using ⟨.null, .string _⟩)
  have element :
      (Value.object [("name", .string "b"), ("type", .string "Identifier")]).Unambiguous :=
    .object (by decide) (by simpa using ⟨.string _, .string _⟩)
  have range := Value.Unambiguous.array (List.forall_mem_cons.mpr
    ⟨.bool true, List.forall_mem_singleton.mpr plain⟩)
  have elements := Value.Unambiguous.array (List.forall_mem_cons.mpr
    ⟨.null, List.forall_mem_singleton.mpr element⟩)
  have loc : (Value.object [("source", _)]).Unambiguous :=
    .object (by decide) (List.forall_mem_singleton.mpr plain)
  exact .object (by decide) (by simpa using ⟨range, elements, .string _, loc⟩)

theorem scatteredPattern_keeps_all_but_type_order :
    scatteredPattern.Unambiguous ∧ ∃ node, ofValue? scatteredPattern = some node ∧
      node.toValue = .object
        [ ("type", .string "ArrayPattern"),
          ("range", .array [.bool true, .object [("raw", .null), ("type", .string "Literal")]]),
          ("elements", .array
            [.null, .object [("type", .string "Identifier"), ("name", .string "b")]]),
          ("loc", .object
            [("source", .object [("raw", .null), ("type", .string "Literal")])]) ] := by
  have decoding := decoding_keeps_all_but_type_order scatteredPattern_unambiguous
  obtain ⟨node, found⟩ := decoding.1.mpr ⟨_, "ArrayPattern", rfl, by simp [typeKey]⟩
  refine ⟨scatteredPattern_unambiguous, node, found, ?_⟩
  rw [decoding.2.1 node found]
  cbv

end EstreeScopes
