/-
This file says that no table of a document has a key twice. A table in the making
is judged by what it would be if it were finished now: all that adds to it, under
headers, by dotted keys or in braces, refuses a key that is taken, or goes on inside
the table that stands under it. One line keeps this, and so do all lines.
-/

import EstreeScopes.Proofs.WellFormed
import EstreeScopes.Toml.Document

namespace EstreeScopes

theorem Entries.names_erase {α : Type} (entries : Entries α) (name : String) :
    (entries.erase name).names = entries.names.erase name := by
  induction entries with
  | nil => rfl
  | cons entry rest inductionHypothesis =>
    obtain ⟨key, value⟩ := entry
    rw [erase]
    show _ = (key :: names rest).erase name
    by_cases equal : key = name
    · rw [if_pos equal, equal, List.erase_cons_head]
    · rw [if_neg equal, List.erase_cons_tail (by simpa using equal)]
      exact congrArg (key :: ·) inductionHypothesis

theorem Entries.mem_of_mem_erase {α : Type} {entries : Entries α} {name : String}
    {entry : String × α} (member : entry ∈ entries.erase name) : entry ∈ entries := by
  induction entries with
  | nil => exact member
  | cons first rest inductionHypothesis =>
    obtain ⟨key, value⟩ := first
    rw [erase] at member
    split at member
    · exact List.mem_cons_of_mem _ member
    · rcases List.mem_cons.mp member with head | tail
      · exact head ▸ List.mem_cons_self
      · exact List.mem_cons_of_mem _ (inductionHypothesis tail)

namespace Toml

/-! ### Values -/

/-- Whether a value holds no other values. -/
def Value.isScalar : Value → Bool
  | .array _ | .table _ => false
  | _ => true

/-- No table in a value has a key twice. -/
inductive Value.Distinct : Value → Prop where
  | scalar {value : Value} (plain : value.isScalar = true) : Distinct value
  | array {items : List Value} (each : ∀ item ∈ items, Distinct item) : Distinct (.array items)
  | table {entries : List (String × Value)} (distinct : (Entries.names entries).Nodup)
      (each : ∀ entry ∈ entries, Distinct entry.2) : Distinct (.table entries)

theorem Value.distinct_array {items : List Value} :
    (Value.array items).Distinct ↔ ∀ item ∈ items, item.Distinct := by
  refine ⟨fun distinct => ?_, .array⟩
  cases distinct with
  | scalar plain => cases plain
  | array each => exact each

theorem Value.distinct_table {entries : List (String × Value)} :
    (Value.table entries).Distinct ↔
      (Entries.names entries).Nodup ∧ ∀ entry ∈ entries, entry.2.Distinct := by
  refine ⟨fun distinct => ?_, fun ⟨distinct, each⟩ => .table distinct each⟩
  cases distinct with
  | scalar plain => cases plain
  | table distinct each => exact ⟨distinct, each⟩

/-! ### Tables in the making -/

/-- No key of a table in the making is taken twice, also inside its items. -/
def Items.Distinct (items : Items) : Prop :=
  (Entries.names items).Nodup ∧ ∀ entry ∈ items, entry.2.finish.Distinct

theorem finishEntries_eq_map (items : Items) :
    finishEntries items = items.map fun entry => (entry.1, entry.2.finish) := by
  induction items with
  | nil => rfl
  | cons entry rest inductionHypothesis => rw [finishEntries, inductionHypothesis, List.map_cons]

theorem finishTables_eq_map (tables : List Items) :
    finishTables tables = tables.map fun items => .table (finishEntries items) := by
  induction tables with
  | nil => rfl
  | cons items rest inductionHypothesis => rw [finishTables, inductionHypothesis, List.map_cons]

theorem distinct_finishEntries {items : Items} :
    (Value.table (finishEntries items)).Distinct ↔ items.Distinct := by
  rw [Value.distinct_table, finishEntries_eq_map, Items.Distinct, Entries.names, List.map_map,
    List.forall_mem_map]
  rfl

theorem distinct_finish_table {origin : Origin} {items : Items} :
    (Item.table origin items).finish.Distinct ↔ items.Distinct := by
  rw [Item.finish, distinct_finishEntries]

theorem distinct_finish_tables {earlier : List Items} {last : Items} :
    (Item.tables earlier last).finish.Distinct ↔
      (∀ items ∈ earlier, items.Distinct) ∧ last.Distinct := by
  rw [Item.finish, Value.distinct_array, finishTables_eq_map, List.forall_mem_append,
    List.forall_mem_map, List.forall_mem_singleton]
  simp only [distinct_finishEntries]

namespace Items

theorem distinct_nil : Distinct [] := ⟨List.nodup_nil, fun _ member => nomatch member⟩

theorem Distinct.find? {items : Items} (distinct : items.Distinct) {key : String} {item : Item}
    (found : Entries.find? items key = some item) : item.finish.Distinct :=
  distinct.2 _ (Entries.mem_of_find? found)

theorem Distinct.put {items : Items} (distinct : items.Distinct) (key : String) {item : Item}
    (inner : item.finish.Distinct) : Distinct (Entries.put items key item) := by
  refine ⟨Entries.names_put_nodup distinct.1 key item, fun entry member => ?_⟩
  rcases Entries.mem_put member with rfl | old
  · exact inner
  · exact distinct.2 entry old

/-- An entry may be added under a key that is still free. -/
theorem Distinct.concat {items : Items} (distinct : items.Distinct) {key : String}
    (free : key ∉ Entries.names items) {item : Item} (inner : item.finish.Distinct) :
    Distinct (items ++ [(key, item)]) := by
  rw [← Entries.put_of_not_mem free]
  exact distinct.put key inner

theorem Distinct.add? {items added : Items} (distinct : items.Distinct) {key : String} {item : Item}
    (inner : item.finish.Distinct) (done : items.add? key item = some added) : added.Distinct := by
  rw [Items.add?] at done
  split at done
  · rename_i free
    cases done
    exact distinct.concat (Entries.not_mem_names_of_find?_none free) inner
  · cases done

/-- A change of tables in the making that takes no key twice. -/
def KeepsDistinct (change : Items → Option Items) : Prop :=
  ∀ ⦃items changed : Items⦄, items.Distinct → change items = some changed → changed.Distinct

section

variable {items changed : Items} (distinct : items.Distinct) {key : String} {made : Option Items}
  {item : Items → Item} (inner : ∀ table, made = some table → (item table).finish.Distinct)
include distinct inner

/-- What is made, if it is made, may be added under a key that is still free. -/
theorem Distinct.concat_of_bind (free : Entries.find? items key = none)
    (done : (do let table ← made; return items ++ [(key, item table)]) = some changed) :
    changed.Distinct := by
  obtain ⟨table, found, result⟩ := Option.bind_eq_some_iff.mp done
  cases result
  exact distinct.concat (Entries.not_mem_names_of_find?_none free) (inner table found)

/-- What is made, if it is made, may be put under any key. -/
theorem Distinct.put_of_bind
    (done : (do let table ← made; return Entries.put items key (item table)) = some changed) :
    changed.Distinct := by
  obtain ⟨table, found, result⟩ := Option.bind_eq_some_iff.mp done
  cases result
  exact distinct.put key (inner table found)

end

theorem keepsDistinct_assign? {value : Value} (inner : value.Distinct) (canHold : Bool)
    (key : String) (rest : List String) :
    KeepsDistinct fun items => items.assign? value canHold key rest := by
  intro items assigned distinct (done : items.assign? value canHold key rest = some assigned)
  induction rest generalizing items assigned canHold key with
  | nil =>
    rw [Items.assign?] at done
    split at done
    · exact distinct.add? (by rwa [Item.finish]) done
    · cases done
  | cons next rest inductionHypothesis =>
    rw [Items.assign?] at done
    -- One case for each thing that can stand under the key: nothing, a table of dotted keys, an
    -- implied table, a list of tables, and what no key may go through.
    split at done
    · rename_i free
      exact distinct.concat_of_bind (fun table made => distinct_finish_table.mpr
        (inductionHypothesis _ _ distinct_nil made)) free done
    · rename_i found
      have old := distinct_finish_table.mp (distinct.find? found)
      exact distinct.put_of_bind (fun table made => distinct_finish_table.mpr
        (inductionHypothesis _ _ old made)) done
    · rename_i found
      have old := distinct_finish_table.mp (distinct.find? found)
      exact distinct.put_of_bind (fun table made => distinct_finish_table.mpr
        (inductionHypothesis _ _ old made)) done
    · rename_i found
      have old := distinct_finish_tables.mp (distinct.find? found)
      exact distinct.put_of_bind (fun table made => distinct_finish_tables.mpr
        ⟨old.1, inductionHypothesis _ _ old.2 made⟩) done
    · cases done
    · cases done

/-- A change inside the table of a header changes nothing else, so it is as good as the change. -/
theorem KeepsDistinct.within? {change : Items → Option Items} (keeps : KeepsDistinct change)
    (header : List String) : KeepsDistinct fun items => items.within? change header := by
  intro items changed distinct (done : items.within? change header = some changed)
  induction header generalizing items changed with
  | nil => exact keeps distinct done
  | cons key rest inductionHypothesis =>
    rw [Items.within?] at done
    split at done
    · rename_i free
      exact distinct.concat_of_bind (fun table made => distinct_finish_table.mpr
        (inductionHypothesis distinct_nil made)) free done
    · rename_i found
      have old := distinct_finish_table.mp (distinct.find? found)
      exact distinct.put_of_bind (fun table made => distinct_finish_table.mpr
        (inductionHypothesis old made)) done
    · rename_i found
      have old := distinct_finish_tables.mp (distinct.find? found)
      exact distinct.put_of_bind (fun table made => distinct_finish_tables.mpr
        ⟨old.1, inductionHypothesis old.2 made⟩) done
    · cases done

theorem keepsDistinct_openTable? (key : String) : KeepsDistinct (openTable? key) := by
  intro items opened distinct done
  rw [openTable?] at done
  split at done
  · rename_i free
    cases done
    exact distinct.concat (Entries.not_mem_names_of_find?_none free)
      (distinct_finish_table.mpr distinct_nil)
  · rename_i found
    cases done
    have others : Distinct (Entries.erase items key) :=
      ⟨Entries.names_erase items key ▸ distinct.1.erase key,
        fun entry member => distinct.2 entry (Entries.mem_of_mem_erase member)⟩
    refine others.concat ?_ (distinct_finish_table.mpr ?_)
    · rw [Entries.names_erase]
      exact distinct.1.not_mem_erase
    · exact distinct_finish_table.mp (distinct.find? found)
  · cases done

theorem keepsDistinct_openTables? (key : String) : KeepsDistinct (openTables? key) := by
  intro items opened distinct done
  rw [openTables?] at done
  split at done
  · rename_i free
    cases done
    exact distinct.concat (Entries.not_mem_names_of_find?_none free)
      (distinct_finish_tables.mpr ⟨List.forall_mem_nil _, distinct_nil⟩)
  · rename_i found
    cases done
    have old := distinct_finish_tables.mp (distinct.find? found)
    refine distinct.put key (distinct_finish_tables.mpr ⟨fun items member => ?_, distinct_nil⟩)
    rcases List.mem_append.mp member with earlier | last
    · exact old.1 items earlier
    · exact List.mem_singleton.mp last ▸ old.2
  · cases done

end Items

theorem keepsDistinct_assignKey? {value : Value} (inner : value.Distinct) (key : List String) :
    Items.KeepsDistinct fun items => assignKey? items value key := by
  intro items assigned distinct done
  cases key with
  | nil => cases done
  | cons first rest => exact Items.keepsDistinct_assign? inner true first rest distinct done

/-! ### Values that are read -/

theorem isScalar_integerValue? {value : Int} {read : Value}
    (done : integerValue? value = some read) : read.isScalar = true := by
  rw [integerValue?] at done
  split at done
  · cases done
    rfl
  · cases done

theorem isScalar_basedInteger? {base : Nat} {text rest : List Char} {read : Value}
    (done : basedInteger? base text = some (read, rest)) : read.isScalar = true := by
  obtain ⟨digits, -, made⟩ := Option.bind_eq_some_iff.mp done
  obtain ⟨integer, within, result⟩ := Option.bind_eq_some_iff.mp made
  cases result
  exact isScalar_integerValue? within

theorem isScalar_decimal? {text rest : List Char} {read : Value}
    (done : decimal? text = some (read, rest)) : read.isScalar = true := by
  obtain ⟨whole, -, done⟩ := Option.bind_eq_some_iff.mp done
  obtain ⟨fraction, -, done⟩ := Option.bind_eq_some_iff.mp done
  obtain ⟨power, -, done⟩ := Option.bind_eq_some_iff.mp done
  dsimp only at done
  split at done
  · obtain ⟨integer, within, result⟩ := Option.bind_eq_some_iff.mp done
    cases result
    exact isScalar_integerValue? within
  · obtain ⟨-, result⟩ := Option.ite_none_right_eq_some.mp done
    cases result
    rfl

theorem isScalar_number? {text rest : List Char} {read : Value}
    (done : number? text = some (read, rest)) : read.isScalar = true := by
  rw [number?.eq_def] at done
  split at done
  · exact isScalar_basedInteger? done
  · exact isScalar_basedInteger? done
  · exact isScalar_basedInteger? done
  · split at done
    · cases done
      rfl
    · cases done
      rfl
    · exact isScalar_decimal? done

theorem isScalar_dateTime? {text rest : List Char} {read : Value}
    (done : dateTime? text = some (read, rest)) : read.isScalar = true := by
  rw [dateTime?] at done
  split at done <;>
  · obtain ⟨after, -, result⟩ := Option.bind_eq_some_iff.mp done
    cases result
    rfl

theorem isScalar_scalar? {text rest : List Char} {read : Value}
    (done : scalar? text = some (read, rest)) : read.isScalar = true := by
  rw [scalar?.eq_def] at done
  split at done
  · obtain ⟨string, -, result⟩ := Option.map_eq_some_iff.mp done
    cases result
    rfl
  · obtain ⟨string, -, result⟩ := Option.map_eq_some_iff.mp done
    cases result
    rfl
  · cases done
    rfl
  · cases done
    rfl
  · rcases Option.or_eq_some_iff.mp done with dated | ⟨-, counted⟩
    · exact isScalar_dateTime? dated
    · exact isScalar_number? counted

section

variable {reader : List Char → Option (Value × List Char)}
  (each : ∀ {text value rest}, reader text = some (value, rest) → value.Distinct)
include each

theorem distinct_arrayItems? {bound : Nat} {text rest : List Char} {items : List Value}
    (done : arrayItems? reader bound text = some (items, rest)) :
    ∀ item ∈ items, item.Distinct := by
  induction bound generalizing text items rest with
  | zero => cases done
  | succ bound inductionHypothesis =>
    rw [arrayItems?] at done
    obtain ⟨start, -, done⟩ := Option.bind_eq_some_iff.mp done
    split at done
    · cases done
      exact List.forall_mem_nil _
    · obtain ⟨⟨first, afterFirst⟩, read, done⟩ := Option.bind_eq_some_iff.mp done
      obtain ⟨next, -, done⟩ := Option.bind_eq_some_iff.mp done
      split at done
      · obtain ⟨⟨others, afterOthers⟩, more, result⟩ := Option.bind_eq_some_iff.mp done
        cases result
        exact List.forall_mem_cons.mpr ⟨each read, inductionHypothesis more⟩
      · cases done
        exact List.forall_mem_singleton.mpr (each read)
      · cases done

theorem distinct_of_entry {text rest : List Char} {key : List String} {value : Value}
    (done : entry? reader text = some ((key, value), rest)) : value.Distinct := by
  obtain ⟨keyed, -, done⟩ := Option.bind_eq_some_iff.mp done
  split at done
  · obtain ⟨⟨value, after⟩, read, result⟩ := Option.bind_eq_some_iff.mp done
    cases result
    exact each read
  · cases done

theorem distinct_inlineEntries? {bound : Nat} {items read : Items} {text rest : List Char}
    (distinct : items.Distinct)
    (done : inlineEntries? reader bound items text = some (read, rest)) : read.Distinct := by
  induction bound generalizing items text with
  | zero => cases done
  | succ bound inductionHypothesis =>
    rw [inlineEntries?] at done
    obtain ⟨⟨⟨key, value⟩, after⟩, entry, done⟩ := Option.bind_eq_some_iff.mp done
    obtain ⟨assigned, put, done⟩ := Option.bind_eq_some_iff.mp done
    have kept := keepsDistinct_assignKey? (distinct_of_entry each entry) key distinct put
    split at done
    · exact inductionHypothesis kept done
    · cases done
      exact kept
    · cases done

end

theorem distinct_value? {depth : Nat} {text rest : List Char} {read : Value}
    (done : value? depth text = some (read, rest)) : read.Distinct := by
  induction depth generalizing text rest read with
  | zero =>
    rw [value?.eq_def] at done
    split at done
    · cases done
    · cases done
    · exact .scalar (isScalar_scalar? done)
  | succ inner inductionHypothesis =>
    rw [value?.eq_def] at done
    split at done
    · obtain ⟨⟨items, after⟩, made, result⟩ := Option.map_eq_some_iff.mp done
      cases result
      exact .array (distinct_arrayItems? inductionHypothesis made)
    · dsimp only at done
      split at done
      · cases done
        exact distinct_finishEntries.mpr Items.distinct_nil
      · obtain ⟨⟨items, after⟩, made, result⟩ := Option.map_eq_some_iff.mp done
        cases result
        exact distinct_finishEntries.mpr
          (distinct_inlineEntries? inductionHypothesis Items.distinct_nil made)
    · exact .scalar (isScalar_scalar? done)

/-! ### Lines -/

theorem distinct_header? {progress after : Progress} {opens : String → Items → Option Items}
    {close : List Char → Option (List Char)} {text rest : List Char}
    (keeps : ∀ key, Items.KeepsDistinct (opens key)) (distinct : progress.items.Distinct)
    (done : header? progress opens close text = some (after, rest)) : after.items.Distinct := by
  obtain ⟨⟨header, afterKey⟩, -, done⟩ := Option.bind_eq_some_iff.mp done
  obtain ⟨closed, -, done⟩ := Option.bind_eq_some_iff.mp done
  obtain ⟨ended, -, done⟩ := Option.bind_eq_some_iff.mp done
  obtain ⟨key, -, done⟩ := Option.bind_eq_some_iff.mp done
  obtain ⟨items, opened, result⟩ := Option.bind_eq_some_iff.mp done
  cases result
  exact (keeps key).within? header.dropLast distinct opened

/-- One line takes no key twice. -/
theorem distinct_line? {progress after : Progress} {text rest : List Char}
    (distinct : progress.items.Distinct) (done : line? progress text = some (after, rest)) :
    after.items.Distinct := by
  rw [line?.eq_def] at done
  split at done
  · exact distinct_header? Items.keepsDistinct_openTables? distinct done
  · exact distinct_header? Items.keepsDistinct_openTable? distinct done
  · obtain ⟨ended, -, result⟩ := Option.map_eq_some_iff.mp done
    cases result
    exact distinct
  · obtain ⟨⟨⟨key, value⟩, afterEntry⟩, entry, done⟩ := Option.bind_eq_some_iff.mp done
    obtain ⟨ended, -, done⟩ := Option.bind_eq_some_iff.mp done
    obtain ⟨items, put, result⟩ := Option.bind_eq_some_iff.mp done
    cases result
    have inner := distinct_of_entry distinct_value? entry
    exact (keepsDistinct_assignKey? inner key).within? progress.header distinct put

/-- Nor do all lines. -/
theorem distinct_lines? {bound : Nat} {progress after : Progress} {text : List Char}
    (distinct : progress.items.Distinct) (done : lines? bound progress text = some after) :
    after.items.Distinct := by
  induction bound generalizing progress text with
  | zero => cases done
  | succ bound inductionHypothesis =>
    rw [lines?] at done
    split at done
    · cases done
      exact distinct
    · split at done
      · exact inductionHypothesis distinct done
      · split at done
        · rename_i read
          exact inductionHypothesis (distinct_line? distinct read) done
        · cases done

/-- No table of a document has a key twice. -/
theorem distinct_ofText? {text : String} {table : Table} (read : Table.ofText? text = some table) :
    (Value.table table).Distinct := by
  obtain ⟨progress, done, rfl⟩ := Option.map_eq_some_iff.mp read
  exact distinct_finishEntries.mpr (distinct_lines? Items.distinct_nil done)

end Toml

end EstreeScopes
