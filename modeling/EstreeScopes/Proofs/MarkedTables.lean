/-
This file says what becomes of a document when its marked tables are replaced. The
replacement fails exactly when some table is marked but writes no date or time;
what a marked table holds behind its mark is never looked at. Otherwise the keys of
the document stay as they are, and so do those of every table in it that is not
marked: it is still a table, with the same keys in the same order.
-/

import EstreeScopes.Proofs.DistinctKeys
import EstreeScopes.Toml.Marked

namespace EstreeScopes.Toml

/-- Induction over values, with the hypothesis for each item and for each entry. -/
@[elab_as_elim]
theorem Value.inductionOn {motive : Value → Prop} (value : Value)
    (scalar : ∀ value : Value, value.isScalar = true → motive value)
    (array : ∀ items, (∀ item ∈ items, motive item) → motive (.array items))
    (table : ∀ entries, (∀ entry ∈ entries, motive entry.2) → motive (.table entries)) :
    motive value :=
  @Value.rec motive (fun items => ∀ item ∈ items, motive item)
    (fun entries => ∀ entry ∈ entries, motive entry.2) (fun entry => motive entry.2)
    (fun _ => scalar _ rfl) (fun _ => scalar _ rfl) (fun _ => scalar _ rfl)
    (fun _ => scalar _ rfl) (fun _ => scalar _ rfl) array table
    (List.forall_mem_nil _)
    (fun _ _ first others => List.forall_mem_cons.mpr ⟨first, others⟩)
    (List.forall_mem_nil _)
    (fun _ _ first others => List.forall_mem_cons.mpr ⟨first, others⟩)
    (fun _ _ held => held) value

/-! ### Marks -/

/-- Whether a table opens with the key of marks. -/
def isMarked : Table → Bool
  | (key, _) :: _ => key == markKey
  | [] => false

theorem isMarked_iff {table : Table} :
    isMarked table = true ↔ ∃ value rest, table = (markKey, value) :: rest := by
  cases table with
  | nil => simp [isMarked]
  | cons entry rest =>
    obtain ⟨key, value⟩ := entry
    simp [isMarked]

/-- Whether a value is a text that writes a date or a time. -/
def Value.writesDate : Value → Bool
  | .string text => isDateTime text
  | _ => false

/-- Some table in a value is marked but writes no date or time. What a marked table holds behind
its mark does not count. -/
inductive Value.Misdated : Value → Prop where
  | mark {value : Value} {rest : Table} (wrong : value.writesDate = false) :
    Misdated (.table ((markKey, value) :: rest))
  | item {items : List Value} {item : Value} (member : item ∈ items) (inner : Misdated item) :
    Misdated (.array items)
  | entry {entries : Table} {entry : String × Value} (plain : isMarked entries = false)
    (member : entry ∈ entries) (inner : Misdated entry.2) : Misdated (.table entries)

/-- The same in the table of a document, which is itself never marked. -/
def Table.Misdated (table : Table) : Prop := ∃ entry ∈ table, entry.2.Misdated

theorem Value.misdated_array {items : List Value} :
    (Value.array items).Misdated ↔ ∃ item ∈ items, item.Misdated := by
  constructor
  · intro misdated
    cases misdated with
    | item member inner => exact ⟨_, member, inner⟩
  · rintro ⟨item, member, inner⟩
    exact .item member inner

theorem Value.misdated_table {entries : Table} (plain : isMarked entries = false) :
    (Value.table entries).Misdated ↔ entries.Misdated := by
  constructor
  · intro misdated
    cases misdated with
    | mark wrong => cases plain.symm.trans (isMarked_iff.mpr ⟨_, _, rfl⟩)
    | entry plain member inner => exact ⟨_, member, inner⟩
  · rintro ⟨entry, member, inner⟩
    exact .entry plain member inner

theorem Value.misdated_marked {value : Value} {rest : Table} :
    (Value.table ((markKey, value) :: rest)).Misdated ↔ value.writesDate = false := by
  constructor
  · intro misdated
    cases misdated with
    | mark wrong => exact wrong
    | entry plain member inner => cases plain.symm.trans (isMarked_iff.mpr ⟨_, _, rfl⟩)
  · exact .mark

/-! ### When marks cannot be replaced -/

namespace Value

theorem unmarked?_scalar {value : Value} (plain : value.isScalar = true) :
    value.unmarked? = some value := by
  cases value with
  | array items => cases plain
  | table entries => cases plain
  | _ => rw [unmarked?] <;> nofun

theorem unmarked?_table {entries : Table} (plain : isMarked entries = false) :
    (Value.table entries).unmarked? = (unmarkedEntries? entries).map .table := by
  cases entries with
  | nil => rw [unmarked?, unmarkedEntries?, Option.map_some]
  | cons entry rest =>
    obtain ⟨key, value⟩ := entry
    have other : ¬ key = markKey := by simpa [isMarked] using plain
    rw [unmarked?.eq_def]
    dsimp only
    rw [if_neg other, unmarkedEntries?]
    cases value.unmarked? with
    | none => rfl
    | some value => cases unmarkedEntries? rest <;> rfl

theorem unmarked?_marked (value : Value) (rest : Table) :
    ∃ text, (Value.table ((markKey, value) :: rest)).unmarked? =
      if value.writesDate = true then some (.dateTime text) else none := by
  rw [unmarked?.eq_def]
  dsimp only
  rw [if_pos rfl]
  cases value with
  | string text => exact ⟨text, rfl⟩
  | _ => exact ⟨"", rfl⟩

theorem unmarkedItems?_eq_none_iff {items : List Value} :
    unmarkedItems? items = none ↔ ∃ item ∈ items, item.unmarked? = none := by
  induction items with
  | nil => simp [unmarkedItems?]
  | cons item rest inductionHypothesis =>
    rw [unmarkedItems?, List.exists_mem_cons_iff, ← inductionHypothesis]
    cases item.unmarked? with
    | none => simp
    | some item => cases unmarkedItems? rest <;> simp

theorem unmarkedEntries?_eq_none_iff {entries : Table} :
    unmarkedEntries? entries = none ↔ ∃ entry ∈ entries, entry.2.unmarked? = none := by
  induction entries with
  | nil => simp [unmarkedEntries?]
  | cons entry rest inductionHypothesis =>
    obtain ⟨key, value⟩ := entry
    rw [unmarkedEntries?, List.exists_mem_cons_iff, ← inductionHypothesis]
    cases value.unmarked? with
    | none => simp
    | some value => cases unmarkedEntries? rest <;> simp

/-- The marks of a value cannot be replaced exactly when one of them is wrong. -/
theorem unmarked?_eq_none_iff (value : Value) : value.unmarked? = none ↔ value.Misdated := by
  induction value using Value.inductionOn with
  | scalar value plain =>
    rw [unmarked?_scalar plain]
    refine ⟨nofun, fun misdated => ?_⟩
    cases misdated <;> cases plain
  | array items inductionHypothesis =>
    rw [unmarked?, Option.map_eq_none_iff, unmarkedItems?_eq_none_iff, misdated_array]
    exact exists_congr fun item => and_congr_right fun member => inductionHypothesis item member
  | table entries inductionHypothesis =>
    cases marked : isMarked entries with
    | true =>
      obtain ⟨value, rest, rfl⟩ := isMarked_iff.mp marked
      obtain ⟨text, replaced⟩ := unmarked?_marked value rest
      rw [replaced, misdated_marked]
      cases value.writesDate <;> simp
    | false =>
      rw [unmarked?_table marked, Option.map_eq_none_iff, unmarkedEntries?_eq_none_iff,
        misdated_table marked]
      exact exists_congr fun entry => and_congr_right fun member =>
        inductionHypothesis entry member

/-! ### What is left when they are replaced -/

theorem unmarkedEntries?_cons {key : String} {value : Value} {rest replaced : Table}
    (done : unmarkedEntries? ((key, value) :: rest) = some replaced) :
    ∃ inner others, value.unmarked? = some inner ∧ unmarkedEntries? rest = some others ∧
      replaced = (key, inner) :: others := by
  rw [unmarkedEntries?] at done
  obtain ⟨inner, found, done⟩ := Option.bind_eq_some_iff.mp done
  obtain ⟨others, more, result⟩ := Option.bind_eq_some_iff.mp done
  exact ⟨inner, others, found, more, (Option.some.inj result).symm⟩

theorem names_unmarkedEntries? {entries replaced : Table}
    (done : unmarkedEntries? entries = some replaced) :
    Entries.names replaced = Entries.names entries := by
  induction entries generalizing replaced with
  | nil =>
    cases done
    rfl
  | cons entry rest inductionHypothesis =>
    obtain ⟨key, value⟩ := entry
    obtain ⟨inner, others, -, more, rfl⟩ := unmarkedEntries?_cons done
    exact congrArg (key :: ·) (inductionHypothesis more)

theorem find?_unmarkedEntries? {entries replaced : Table}
    (done : unmarkedEntries? entries = some replaced) (key : String) :
    Entries.find? replaced key = (Entries.find? entries key).bind unmarked? := by
  induction entries generalizing replaced with
  | nil =>
    cases done
    rfl
  | cons entry rest inductionHypothesis =>
    obtain ⟨name, value⟩ := entry
    obtain ⟨inner, others, found, more, rfl⟩ := unmarkedEntries?_cons done
    rw [Entries.find?, Entries.find?]
    split
    · exact found.symm
    · exact inductionHypothesis more

/-- The entries of a table. -/
def entries : Value → Table
  | .table entries => entries
  | _ => []

/-- The entries of a table that is not marked. -/
def plainEntries : Value → Table
  | .table entries => if isMarked entries = true then [] else entries
  | _ => []

/-- Only a table that is not marked is still a table, and its keys are the same. -/
theorem names_entries_unmarked? {value replaced : Value} (done : value.unmarked? = some replaced) :
    Entries.names replaced.entries = Entries.names value.plainEntries := by
  cases value with
  | table entries =>
    cases marked : isMarked entries with
    | true =>
      obtain ⟨value, rest, rfl⟩ := isMarked_iff.mp marked
      obtain ⟨text, dated⟩ := unmarked?_marked value rest
      obtain ⟨-, result⟩ := Option.ite_none_right_eq_some.mp (dated.symm.trans done)
      cases result
      rw [plainEntries, if_pos marked]
      rfl
    | false =>
      rw [unmarked?_table marked] at done
      obtain ⟨others, more, rfl⟩ := Option.map_eq_some_iff.mp done
      rw [plainEntries, marked]
      exact names_unmarkedEntries? more
  | array items =>
    rw [unmarked?] at done
    obtain ⟨others, -, rfl⟩ := Option.map_eq_some_iff.mp done
    rfl
  | _ =>
    rw [unmarked?_scalar rfl] at done
    cases done
    rfl

end Value

end EstreeScopes.Toml
