/-
This file says that the keys of a configuration document that are warned about are
those without effect. The configuration is read from the known keys only, so the
document without its other keys sets the same configuration, and nothing in it is
warned about; each known key can change the configuration, whatever else is set.

The warnings come from a second reading, in which marked tables are replaced. A
marked table that writes no date or time ends this reading, and then there are no
warnings at all; one that does write one is no table any more, so its own keys are
not warned about. Otherwise each key without effect is named once, in the order of
the bytes.
-/

import EstreeScopes.Config
import EstreeScopes.Proofs.ByteOrder
import EstreeScopes.Proofs.MarkedTables

namespace EstreeScopes

namespace Entries

variable {α β : Type}

theorem find?_filter (entries : Entries α) (keeps : String → Bool) (name : String) :
    find? (entries.filter fun entry => keeps entry.1) name =
      if keeps name = true then find? entries name else none := by
  induction entries with
  | nil => exact (ite_self none).symm
  | cons entry rest inductionHypothesis =>
    obtain ⟨key, value⟩ := entry
    rw [List.filter_cons]
    by_cases same : key = name
    · subst same
      by_cases kept : keeps key = true
      · rw [if_pos kept, if_pos kept, find?, find?, if_pos rfl, if_pos rfl]
      · rw [if_neg kept, inductionHypothesis, if_neg kept, if_neg kept]
    · rw [find?, if_neg same, ← inductionHypothesis]
      split
      · rw [find?, if_neg same]
      · rfl

theorem find?_map (entries : Entries α) (change : String → α → β) (name : String) :
    find? (entries.map fun entry => (entry.1, change entry.1 entry.2)) name =
      (find? entries name).map (change name) := by
  induction entries with
  | nil => rfl
  | cons entry rest inductionHypothesis =>
    obtain ⟨key, value⟩ := entry
    rw [List.map_cons, find?, find?]
    split
    · rename_i same
      rw [same, Option.map_some]
    · exact inductionHypothesis

end Entries

namespace Config

/-! ### The known keys -/

/-- The entries of a table under known keys. -/
def onlyKeys (known : List String) (table : Toml.Table) : Toml.Table :=
  table.filter fun entry => known.contains entry.1

/-- The value of a known key without the keys in it that mean nothing. -/
def onlyKnown (key : String) : Toml.Value → Toml.Value
  | .table entries => .table (if key = "free" then onlyKeys knownFreeKeys entries else entries)
  | value => value

/-- A document without the keys that mean nothing, those in the table of the search for free
references included. -/
def remaining (table : Toml.Table) : Toml.Table :=
  (onlyKeys knownKeys table).map fun entry => (entry.1, onlyKnown entry.1 entry.2)

theorem find?_onlyKeys {known : List String} {key : String} (member : key ∈ known)
    (table : Toml.Table) : Entries.find? (onlyKeys known table) key = Entries.find? table key := by
  rw [onlyKeys, Entries.find?_filter table known.contains key,
    if_pos (List.contains_iff_mem.mpr member)]

theorem find?_remaining {key : String} (member : key ∈ knownKeys) (table : Toml.Table) :
    Entries.find? (remaining table) key = (Entries.find? table key).map (onlyKnown key) := by
  rw [remaining, Entries.find?_map _ onlyKnown, find?_onlyKeys member]

theorem onlyKnown_of_ne {key : String} (other : key ≠ "free") : onlyKnown key = id := by
  funext value
  cases value with
  | table entries => rw [onlyKnown, if_neg other, id]
  | _ => rfl

theorem freeSettings?_onlyKnown (value : Toml.Value) :
    freeSettings? (onlyKnown "free" value) = freeSettings? value := by
  cases value with
  | table entries =>
    rw [onlyKnown, if_pos rfl, freeSettings?, freeSettings?, find?_onlyKeys (by decide),
      find?_onlyKeys (by decide)]
  | _ => rfl

theorem setting?_map {α : Type} {read : Toml.Value → Option α} {change : Toml.Value → Toml.Value}
    (same : ∀ value, read (change value) = read value) (default : α) (value : Option Toml.Value) :
    setting? read default (value.map change) = setting? read default value := by
  cases value with
  | none => rfl
  | some value => exact same value

/-- The keys that mean nothing do not matter for what is set. -/
theorem ofTable?_remaining (table : Toml.Table) : ofTable? (remaining table) = ofTable? table := by
  rw [ofTable?, ofTable?, find?_remaining (by decide), find?_remaining (by decide),
    find?_remaining (by decide), onlyKnown_of_ne (by decide), onlyKnown_of_ne (by decide),
    Option.map_id, setting?_map freeSettings?_onlyKnown]
  rfl

/-! ### What can be set -/

theorem ofTable?_eq_some_iff {table : Toml.Table} {config : Config} :
    ofTable? table = some config ↔
      setting? texts? [] (Entries.find? table "globals") = some config.globals ∧
      setting? texts? [] (Entries.find? table "exclude") = some config.exclude ∧
      setting? freeSettings? (false, []) (Entries.find? table "free") =
        some (config.failOnFree, config.ignored) := by
  rw [ofTable?]
  constructor
  · intro read
    obtain ⟨globals, named, read⟩ := Option.bind_eq_some_iff.mp read
    obtain ⟨exclude, excluded, read⟩ := Option.bind_eq_some_iff.mp read
    obtain ⟨⟨fail, ignored⟩, free, result⟩ := Option.bind_eq_some_iff.mp read
    cases result
    exact ⟨named, excluded, free⟩
  · rintro ⟨named, excluded, free⟩
    rw [named, excluded, free]
    rfl

theorem freeSettings?_table_iff {entries : Toml.Table} {fail : Bool} {ignored : List String} :
    freeSettings? (.table entries) = some (fail, ignored) ↔
      setting? flag? false (Entries.find? entries "fail") = some fail ∧
      setting? texts? [] (Entries.find? entries "ignore") = some ignored := by
  rw [freeSettings?]
  constructor
  · intro read
    obtain ⟨fail, flagged, read⟩ := Option.bind_eq_some_iff.mp read
    obtain ⟨ignored, named, result⟩ := Option.bind_eq_some_iff.mp read
    cases result
    exact ⟨flagged, named⟩
  · rintro ⟨flagged, named⟩
    rw [flagged, named]
    rfl

/-- What is set with another value for the search for free references. -/
theorem ofTable?_put_free_iff {table : Toml.Table} {config : Config}
    (sets : ofTable? table = some config) {inner : Toml.Value} {other : Config} :
    ofTable? (Entries.put table "free" inner) = some other ↔
      config.globals = other.globals ∧ config.exclude = other.exclude ∧
      freeSettings? inner = some (other.failOnFree, other.ignored) := by
  obtain ⟨named, excluded, -⟩ := ofTable?_eq_some_iff.mp sets
  rw [ofTable?_eq_some_iff, Entries.find?_put_self, Entries.find?_put_other _ _ _ _ (by decide),
    Entries.find?_put_other _ _ _ _ (by decide), named, excluded, Option.some.injEq,
    Option.some.injEq, setting?]

theorem ofTable?_put_of_unknown {key : String} (unknown : key ∉ knownKeys) (table : Toml.Table)
    (value : Toml.Value) : ofTable? (Entries.put table key value) = ofTable? table := by
  have apart {known : String} (member : known ∈ knownKeys) :
      Entries.find? (Entries.put table key value) known = Entries.find? table known :=
    Entries.find?_put_other table key known value fun same => unknown (same ▸ member)
  rw [ofTable?, ofTable?, apart (by decide), apart (by decide), apart (by decide)]

theorem freeSettings?_put_of_unknown {key : String} (unknown : key ∉ knownFreeKeys)
    (entries : Toml.Table) (value : Toml.Value) :
    freeSettings? (.table (Entries.put entries key value)) = freeSettings? (.table entries) := by
  have apart {known : String} (member : known ∈ knownFreeKeys) :
      Entries.find? (Entries.put entries key value) known = Entries.find? entries known :=
    Entries.find?_put_other entries key known value fun same => unknown (same ▸ member)
  rw [freeSettings?, freeSettings?, apart (by decide), apart (by decide)]

/-- Some list of texts is not the given one. -/
theorem exists_texts_ne (names : List String) :
    ∃ value others, texts? value = some others ∧ others ≠ names := by
  cases names with
  | nil => exact ⟨.array [.string ""], [""], rfl, List.cons_ne_nil _ _⟩
  | cons name rest => exact ⟨.array [], [], rfl, (List.cons_ne_nil _ _).symm⟩

/-- Some value changes the configuration, given what the table becomes with each value. -/
def Matters (config : Config) (change : Toml.Value → Toml.Table) : Prop :=
  ∃ value other, ofTable? (change value) = some other ∧ other ≠ config

/-- Exactly the known keys can change the configuration. -/
theorem matters_put_iff {table : Toml.Table} {config : Config} (sets : ofTable? table = some config)
    (key : String) : Matters config (Entries.put table key) ↔ key ∈ knownKeys := by
  constructor
  · rintro ⟨value, other, setsOther, different⟩
    by_contra unknown
    rw [ofTable?_put_of_unknown unknown, sets] at setsOther
    exact different (Option.some.inj setsOther).symm
  · intro member
    obtain ⟨named, excluded, free⟩ := ofTable?_eq_some_iff.mp sets
    rcases List.mem_cons.mp member with rfl | member
    · obtain ⟨value, others, read, different⟩ := exists_texts_ne config.globals
      refine ⟨value, { config with globals := others }, ofTable?_eq_some_iff.mpr ?_,
        fun same => different (congrArg globals same)⟩
      rw [Entries.find?_put_self, Entries.find?_put_other _ _ _ _ (by decide),
        Entries.find?_put_other _ _ _ _ (by decide)]
      exact ⟨read, excluded, free⟩
    rcases List.mem_cons.mp member with rfl | member
    · obtain ⟨value, others, read, different⟩ := exists_texts_ne config.exclude
      refine ⟨value, { config with exclude := others }, ofTable?_eq_some_iff.mpr ?_,
        fun same => different (congrArg exclude same)⟩
      rw [Entries.find?_put_self, Entries.find?_put_other _ _ _ _ (by decide),
        Entries.find?_put_other _ _ _ _ (by decide)]
      exact ⟨named, read, free⟩
    · obtain rfl := List.mem_singleton.mp member
      exact ⟨.array [.boolean !config.failOnFree],
        { config with failOnFree := !config.failOnFree, ignored := [] },
        (ofTable?_put_free_iff sets).mpr ⟨rfl, rfl, rfl⟩,
        fun same => Bool.not_ne_self _ (congrArg failOnFree same)⟩

/-- The same for the keys in the table of the search for free references. -/
theorem matters_put_free_iff {table entries : Toml.Table} {config : Config}
    (sets : ofTable? table = some config)
    (held : Entries.find? table "free" = some (.table entries)) (key : String) :
    Matters config (fun value =>
      Entries.put table "free" (.table (Entries.put entries key value))) ↔ key ∈ knownFreeKeys := by
  obtain ⟨-, -, free⟩ := ofTable?_eq_some_iff.mp sets
  rw [held, setting?] at free
  constructor
  · rintro ⟨value, other, setsOther, different⟩
    by_contra unknown
    have same : ofTable? (Entries.put table "free" (.table (Entries.put entries key value))) =
        some config :=
      (ofTable?_put_free_iff sets).mpr
        ⟨rfl, rfl, (freeSettings?_put_of_unknown unknown entries value).trans free⟩
    exact different (Option.some.inj (setsOther.symm.trans same))
  · intro member
    obtain ⟨flagged, passed⟩ := freeSettings?_table_iff.mp free
    rcases List.mem_cons.mp member with rfl | member
    · refine ⟨.boolean !config.failOnFree, { config with failOnFree := !config.failOnFree },
        (ofTable?_put_free_iff sets).mpr ⟨rfl, rfl, freeSettings?_table_iff.mpr ?_⟩,
        fun same => Bool.not_ne_self _ (congrArg failOnFree same)⟩
      rw [Entries.find?_put_self, Entries.find?_put_other _ _ _ _ (by decide)]
      exact ⟨rfl, passed⟩
    · obtain rfl := List.mem_singleton.mp member
      obtain ⟨value, others, read, different⟩ := exists_texts_ne config.ignored
      refine ⟨value, { config with ignored := others },
        (ofTable?_put_free_iff sets).mpr ⟨rfl, rfl, freeSettings?_table_iff.mpr ?_⟩,
        fun same => different (congrArg ignored same)⟩
      rw [Entries.find?_put_self, Entries.find?_put_other _ _ _ _ (by decide)]
      exact ⟨flagged, read⟩

/-! ### What is warned about -/

/-- The keys of a table other than the known ones, each once and in the order of their bytes. -/
structure ListsUnknown (known : List String) (table : Toml.Table) (keys : List String) : Prop where
  increasing : keys.Pairwise fun first second => Text.bytes first < Text.bytes second
  mem_iff : ∀ key, key ∈ keys ↔ key ∈ Entries.names table ∧ key ∉ known

/-- There is one such list. -/
theorem ListsUnknown.eq {known : List String} {table : Toml.Table} {keys others : List String}
    (lists : ListsUnknown known table keys) (also : ListsUnknown known table others) :
    keys = others := by
  have sorted := lists.increasing.imp Text.lt_iff_bytes_lt.mpr
  have sortedOthers := also.increasing.imp Text.lt_iff_bytes_lt.mpr
  exact sorted.eq_of_mem_iff sortedOthers fun key =>
    (lists.mem_iff key).trans (also.mem_iff key).symm

/-- The entries of the table of the search for free references, unless it is marked. -/
def freeEntries (table : Toml.Table) : Toml.Table :=
  (Entries.find? table "free").elim [] Toml.Value.plainEntries

/-- What a person is told about keys of the document and of the table of the search for free
references. -/
def notices (keys freeKeys : List String) : List String :=
  (keys.map fun key => "Unknown config option: '" ++ key ++ "'") ++
    freeKeys.map fun key => "Unknown config option in [free]: '" ++ key ++ "'"

theorem listsUnknown_unknownKeys (known : List String) {table : Toml.Table}
    (distinct : (Entries.names table).Nodup) :
    ListsUnknown known table (unknownKeys known table) := by
  refine ⟨?_, fun key => ?_⟩
  · have apart : (((Entries.names table).filter fun key => !known.contains key).map id).Nodup := by
      rw [List.map_id]
      exact distinct.filter _
    exact (Text.pairwise_mergeSort id apart).imp Text.lt_iff_bytes_lt.mp
  · rw [unknownKeys, (List.mergeSort_perm _ _).mem_iff, List.mem_filter]
    simp

theorem unknownKeys_eq_nil {known : List String} {table : Toml.Table}
    (all : ∀ key ∈ Entries.names table, key ∈ known) : unknownKeys known table = [] := by
  have none : (Entries.names table).filter (fun key => !known.contains key) = [] :=
    List.filter_eq_nil_iff.mpr fun key member => by simp [all key member]
  rw [unknownKeys, none, List.mergeSort_nil]

theorem unknownKeyWarnings_eq (table : Toml.Table) :
    unknownKeyWarnings table = notices (unknownKeys knownKeys table)
      (unknownKeys knownFreeKeys ((Entries.find? table "free").elim [] Toml.Value.entries)) := by
  have nothing : unknownKeys knownFreeKeys [] = [] := unknownKeys_eq_nil (List.forall_mem_nil _)
  rw [unknownKeyWarnings, notices]
  cases Entries.find? table "free" with
  | none => rw [Option.elim_none, nothing]
  | some value =>
    rw [Option.elim_some]
    cases value with
    | table entries => rfl
    | _ => exact congrArg (_ ++ List.map _ ·) nothing.symm

theorem unmarked?_eq_none_iff {table : Toml.Table} :
    table.unmarked? = none ↔ table.Misdated := by
  rw [Toml.Table.unmarked?, Toml.Value.unmarkedEntries?_eq_none_iff, Toml.Table.Misdated]
  simp only [Toml.Value.unmarked?_eq_none_iff]

/-- One wrong mark is enough for no warnings at all. -/
theorem keyWarnings_of_misdated {table : Toml.Table} (misdated : table.Misdated) :
    keyWarnings table = [] := by
  rw [keyWarnings, unmarked?_eq_none_iff.mpr misdated]

/-- Without wrong marks the keys of the document itself are looked at. -/
theorem keyWarnings_eq {table : Toml.Table} (dated : ¬ table.Misdated) :
    keyWarnings table = notices (unknownKeys knownKeys table)
      (unknownKeys knownFreeKeys (freeEntries table)) := by
  obtain ⟨replaced, done⟩ := Option.ne_none_iff_exists'.mp (unmarked?_eq_none_iff.not.mpr dated)
  have sameNames {known : List String} {first second : Toml.Table}
      (same : Entries.names first = Entries.names second) :
      unknownKeys known first = unknownKeys known second := by
    rw [unknownKeys, same, unknownKeys]
  rw [keyWarnings, done]
  dsimp only
  rw [unknownKeyWarnings_eq, sameNames (Toml.Value.names_unmarkedEntries? done),
    Toml.Value.find?_unmarkedEntries? done, freeEntries]
  refine congrArg (notices _) (sameNames ?_)
  cases found : Entries.find? table "free" with
  | none => rfl
  | some value =>
    have plain : ¬ value.Misdated := fun misdated =>
      dated ⟨_, Entries.mem_of_find? found, misdated⟩
    obtain ⟨inner, unmarked⟩ := Option.ne_none_iff_exists'.mp
      ((Toml.Value.unmarked?_eq_none_iff value).not.mpr plain)
    rw [Option.bind_some, unmarked, Option.elim_some, Option.elim_some]
    exact Toml.Value.names_entries_unmarked? unmarked

theorem mem_names_onlyKeys {known : List String} {table : Toml.Table} {key : String}
    (member : key ∈ Entries.names (onlyKeys known table)) : key ∈ known := by
  obtain ⟨entry, kept, rfl⟩ := List.mem_map.mp member
  exact List.contains_iff_mem.mp (List.mem_filter.mp kept).2

/-- Nothing is left to warn about in a document without the keys that mean nothing. -/
theorem keyWarnings_remaining (table : Toml.Table) : keyWarnings (remaining table) = [] := by
  by_cases misdated : (remaining table).Misdated
  · exact keyWarnings_of_misdated misdated
  have top : unknownKeys knownKeys (remaining table) = [] := by
    refine unknownKeys_eq_nil fun key member => ?_
    rw [remaining, Entries.names, List.map_map] at member
    exact mem_names_onlyKeys member
  have inFree : unknownKeys knownFreeKeys (freeEntries (remaining table)) = [] := by
    refine unknownKeys_eq_nil fun key member => ?_
    rw [freeEntries, find?_remaining (by decide)] at member
    cases found : Entries.find? table "free" with
    | none =>
      rw [found] at member
      cases member
    | some value =>
      rw [found, Option.map_some, Option.elim_some] at member
      cases value with
      | table entries =>
        rw [onlyKnown, if_pos rfl, Toml.Value.plainEntries] at member
        split at member
        · cases member
        · exact mem_names_onlyKeys member
      | _ => cases member
  rw [keyWarnings_eq misdated, top, inFree]
  rfl

theorem nodup_names_freeEntries {table : Toml.Table} (each : ∀ entry ∈ table, entry.2.Distinct) :
    (Entries.names (freeEntries table)).Nodup := by
  rw [freeEntries]
  cases found : Entries.find? table "free" with
  | none => exact List.nodup_nil
  | some value =>
    have distinct : value.Distinct := each _ (Entries.mem_of_find? found)
    rw [Option.elim_some]
    cases value with
    | table entries =>
      rw [Toml.Value.plainEntries]
      split
      · exact List.nodup_nil
      · exact (Toml.Value.distinct_table.mp distinct).1
    | _ => exact List.nodup_nil

/-! ### Documents -/

theorem load_eq_ok_iff {files : FileSystem} {path : Path} {explain : String → Option String}
    {loaded : Loaded} :
    load files path explain = .ok loaded ↔
      ∃ text table, files.readText path = .ok text ∧ Toml.Table.ofText? text = some table ∧
        ofTable? table = some loaded.config ∧ keyWarnings table = loaded.warnings := by
  rw [load]
  constructor
  · intro loads
    split at loads
    · cases loads
    · rename_i text read
      split at loads
      · cases loads
      · rename_i table written
        split at loads
        · cases loads
        · rename_i config sets
          cases loads
          exact ⟨text, table, read, written, sets, rfl⟩
  · rintro ⟨text, table, read, written, sets, warned⟩
    rw [read]
    dsimp only
    rw [written]
    dsimp only
    rw [sets, warned]

/-- A key is warned about exactly when it has no effect. A document that is accepted is accepted
without its other keys, with the same configuration and no warnings; each key that remains matters,
and no other would. The keys that do not remain are warned about, those of the document first, each
once and in the order of their bytes, unless a table is marked and writes no date or time; those of
a marked table are not warned about. -/
theorem warned_exactly_when_without_effect {files : FileSystem} {path : Path}
    {explain : String → Option String} {loaded : Loaded}
    (loads : load files path explain = .ok loaded) :
    ∃ (text : String) (table : Toml.Table),
      files.readText path = .ok text ∧ Toml.Table.ofText? text = some table ∧
      ofTable? (remaining table) = some loaded.config ∧ keyWarnings (remaining table) = [] ∧
      (∀ others place shorter, FileSystem.readText others place = .ok shorter →
        Toml.Table.ofText? shorter = some (remaining table) →
        load others place explain = .ok { config := loaded.config, warnings := [] }) ∧
      (table.Misdated → loaded.warnings = []) ∧
      (¬ table.Misdated → ∃ keys freeKeys, loaded.warnings = notices keys freeKeys ∧
        ListsUnknown knownKeys table keys ∧
        ListsUnknown knownFreeKeys (freeEntries table) freeKeys) ∧
      (∀ key, Matters loaded.config (Entries.put (remaining table) key) ↔ key ∈ knownKeys) ∧
      ∀ entries, Entries.find? (remaining table) "free" = some (.table entries) →
        ∀ key, Matters loaded.config (fun value => Entries.put (remaining table) "free"
          (.table (Entries.put entries key value))) ↔ key ∈ knownFreeKeys := by
  obtain ⟨text, table, read, written, sets, warned⟩ := load_eq_ok_iff.mp loads
  have setsRemaining := (ofTable?_remaining table).trans sets
  have nothing := keyWarnings_remaining table
  refine ⟨text, table, read, written, setsRemaining, nothing, ?_, ?_, ?_, ?_, ?_⟩
  · intro others place shorter readOther writtenOther
    exact load_eq_ok_iff.mpr ⟨shorter, _, readOther, writtenOther, setsRemaining, nothing⟩
  · exact fun misdated => warned.symm.trans (keyWarnings_of_misdated misdated)
  · intro dated
    obtain ⟨distinct, each⟩ := Toml.Value.distinct_table.mp (Toml.distinct_ofText? written)
    exact ⟨_, _, warned.symm.trans (keyWarnings_eq dated),
      listsUnknown_unknownKeys knownKeys distinct,
      listsUnknown_unknownKeys knownFreeKeys (nodup_names_freeEntries each)⟩
  · exact matters_put_iff setsRemaining
  · exact fun entries held => matters_put_free_iff setsRemaining held

/-- A document in a directory of its own. -/
def alone (text : String) : FileSystem :=
  { root := .directory [(fileName, .file text.toUTF8)], workingDirectory := [] }

/-- A document with keys that mean nothing, out of order. -/
def overfull : String :=
  "zeta = 1\nglobals = ['g']\nalpha = 2\n[free]\nlater = 'x'\nfail = true\n"

/-- The document without these keys. -/
def reduced : String := "globals = ['g']\n[free]\nfail = true\n"

theorem overfull_warned :
    let config : Config := { globals := ["g"], exclude := [], failOnFree := true, ignored := [] }
    load (alone overfull) (Path.ofText fileName) =
        .ok { config, warnings := notices ["alpha", "zeta"] ["later"] } ∧
      (∃ table, Toml.Table.ofText? overfull = some table ∧
        Entries.names (remaining table) = ["globals", "free"] ∧
        Toml.Table.ofText? reduced = some (remaining table) ∧
        ofTable? (remaining table) = some config ∧ keyWarnings (remaining table) = []) ∧
      load (alone reduced) (Path.ofText fileName) = .ok { config, warnings := [] } := by
  intro config
  have read : (alone overfull).readText (Path.ofText fileName) = .ok overfull := by decide +kernel
  obtain ⟨table, written⟩ := Option.isSome_iff_exists.mp
    (show (Toml.Table.ofText? overfull).isSome = true by decide +kernel)
  have seen {α : Type} (view : Toml.Table → α) {result : α}
      (viewed : (Toml.Table.ofText? overfull).map view = some result) : view table = result := by
    rw [written] at viewed
    exact Option.some.inj viewed
  have sets : ofTable? table = some config := seen ofTable? (by decide +kernel)
  have loads : load (alone overfull) (Path.ofText fileName) =
      .ok { config, warnings := keyWarnings table } :=
    load_eq_ok_iff.mpr ⟨overfull, table, read, written, sets, rfl⟩
  obtain ⟨text, other, readText, writtenOther, setsRemaining, nothing, loadsReduced, -, warned,
    -⟩ := warned_exactly_when_without_effect loads
  obtain rfl := Except.ok.inj (read.symm.trans readText)
  obtain rfl := Option.some.inj (written.symm.trans writtenOther)
  have writtenReduced : Toml.Table.ofText? reduced = some (remaining table) := by
    have alike : (Toml.Table.ofText? overfull).map remaining = Toml.Table.ofText? reduced := by
      cbv
    rw [← alike, written, Option.map_some]
  have dated : ¬ table.Misdated := by
    rw [← unmarked?_eq_none_iff]
    exact Option.isSome_iff_ne_none.mp
      (seen (fun table => table.unmarked?.isSome) (by decide +kernel))
  obtain ⟨keys, freeKeys, told, lists, listsFree⟩ := warned dated
  have names : Entries.names table = ["zeta", "globals", "alpha", "free"] :=
    seen Entries.names (by decide +kernel)
  have freeNames : Entries.names (freeEntries table) = ["later", "fail"] :=
    seen (fun table => Entries.names (freeEntries table)) (by decide +kernel)
  obtain rfl : keys = ["alpha", "zeta"] := by
    refine lists.eq ⟨by decide +kernel, fun key => ?_⟩
    rw [names]
    grind [knownKeys]
  obtain rfl : freeKeys = ["later"] := by
    refine listsFree.eq ⟨by decide +kernel, fun key => ?_⟩
    rw [freeNames]
    grind [knownFreeKeys]
  refine ⟨told ▸ loads, ⟨table, written, ?_, writtenReduced, setsRemaining, nothing⟩, ?_⟩
  · exact seen (fun table => Entries.names (remaining table)) (by decide +kernel)
  · exact loadsReduced (alone reduced) (Path.ofText fileName) reduced (by decide +kernel)
      writtenReduced

/-- A document with two keys that mean nothing, one of them with a marked table that writes no date
or time. -/
def misdated : String := "u=1\nx=\x7b\"$__toml_private_datetime\"=\"bad\"\x7d"

/-- A document whose table of the search for free references is marked and writes a date. -/
def dated : String := "free=\x7b\"$__toml_private_datetime\"=\"1979-05-27\",zzz=1\x7d"

/-- Neither the two keys of the one document are warned about nor those in the marked table of the
other. -/
theorem marked_documents_not_warned :
    ((alone misdated).readText (Path.ofText fileName) = .ok misdated ∧
      (Toml.Table.ofText? misdated).map Entries.names = some ["u", "x"] ∧
      "u" ∉ knownKeys ∧ "x" ∉ knownKeys ∧
      load (alone misdated) (Path.ofText fileName) = .ok { config := default, warnings := [] } ∧
      [] ≠ notices ["u", "x"] []) ∧
    (alone dated).readText (Path.ofText fileName) = .ok dated ∧
      ((Toml.Table.ofText? dated).bind fun table => Entries.find? table "free").map
        (fun value => Entries.names value.entries) = some [Toml.markKey, "zzz"] ∧
      Toml.markKey ∉ knownFreeKeys ∧ "zzz" ∉ knownFreeKeys ∧
      load (alone dated) (Path.ofText fileName) = .ok { config := default, warnings := [] } ∧
      [] ≠ notices [] [Toml.markKey, "zzz"] := by
  refine ⟨⟨by decide +kernel, by decide +kernel, by decide, by decide, by decide +kernel, nofun⟩,
    by decide +kernel, by decide +kernel, by decide, by decide, ?_, nofun⟩
  decide +kernel

end Config

end EstreeScopes
