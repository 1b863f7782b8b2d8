/-
This file gives the values of a configuration document and the tables that a
document builds up. A table can be written in pieces: under its own header, by
longer headers that only imply it, and by dotted keys. How a table came about
decides what may still be added to it, so that no table is defined twice.
-/

import EstreeScopes.Entries

namespace EstreeScopes.Toml

/-- A value. Floats, dates and times are kept as they are written. -/
inductive Value where
  | string (text : String)
  | integer (value : Int)
  | float (text : String)
  | boolean (flag : Bool)
  | dateTime (text : String)
  | array (items : List Value)
  | table (entries : List (String × Value))
deriving Inhabited

/-- A table of values. -/
abbrev Table := List (String × Value)

/-! ### Tables in the making -/

/-- How a table came about: under a header of its own, implied by a longer header, or through
dotted keys. -/
inductive Origin where
  | header
  | implied
  | dotted
deriving DecidableEq

/-- What stands under a key of a table in the making: a value, a table, or a list of tables of
which the last is still open. -/
inductive Item where
  | value (value : Value)
  | table (origin : Origin) (entries : List (String × Item))
  | tables (earlier : List (List (String × Item))) (last : List (String × Item))
deriving Inhabited

/-- The entries of a table in the making. -/
abbrev Items := List (String × Item)

namespace Items

/-- Adds an entry under a key that is still free. -/
def add? (items : Items) (key : String) (item : Item) : Option Items :=
  match Entries.find? items key with
  | none => some (items ++ [(key, item)])
  | some _ => none

/-- Puts a value under a dotted key. The last table on the way must itself come from dotted keys,
unless the key has only one part, and no table with a header of its own may be on the way. -/
def assign? (items : Items) (value : Value) (canHold : Bool) (key : String) :
    List String → Option Items
  | [] => if canHold then items.add? key (.value value) else none
  | next :: rest =>
    match Entries.find? items key with
    | none => do
      let inner ← assign? [] value true next rest
      return items ++ [(key, .table .dotted inner)]
    | some (.table .dotted inner) => do
      let inner ← assign? inner value true next rest
      return Entries.put items key (.table .dotted inner)
    | some (.table .implied inner) => do
      let inner ← assign? inner value false next rest
      return Entries.put items key (.table .implied inner)
    | some (.tables earlier last) => do
      let last ← assign? last value false next rest
      return Entries.put items key (.tables earlier last)
    | some (.table .header _) | some (.value _) => none

/-- Changes the table under a header. Tables that the header only passes through are implied. -/
def within? (change : Items → Option Items) (items : Items) : List String → Option Items
  | [] => change items
  | key :: rest =>
    match Entries.find? items key with
    | none => do
      let inner ← within? change [] rest
      return items ++ [(key, .table .implied inner)]
    | some (.table origin inner) => do
      let inner ← within? change inner rest
      return Entries.put items key (.table origin inner)
    | some (.tables earlier last) => do
      let last ← within? change last rest
      return Entries.put items key (.tables earlier last)
    | some (.value _) => none

/-- Opens the table of a header: a new one, or one that was only implied before. Either comes last
among its neighbours. -/
def openTable? (key : String) (items : Items) : Option Items :=
  match Entries.find? items key with
  | none => some (items ++ [(key, .table .header [])])
  | some (.table .implied inner) => some (Entries.erase items key ++ [(key, .table .header inner)])
  | some _ => none

/-- Opens one more table in the list of tables of a header. -/
def openTables? (key : String) (items : Items) : Option Items :=
  match Entries.find? items key with
  | none => some (items ++ [(key, .tables [] [])])
  | some (.tables earlier last) => some (Entries.put items key (.tables (earlier ++ [last]) []))
  | some _ => none

end Items

/-! ### Finished tables -/

mutual

/-- The value of an item. -/
def Item.finish : Item → Value
  | .value value => value
  | .table _ entries => .table (finishEntries entries)
  | .tables earlier last => .array (finishTables earlier ++ [.table (finishEntries last)])

/-- The entries of a finished table. -/
def finishEntries : List (String × Item) → List (String × Value)
  | [] => []
  | (key, item) :: rest => (key, item.finish) :: finishEntries rest

/-- The tables of a finished list. -/
def finishTables : List (List (String × Item)) → List Value
  | [] => []
  | entries :: rest => .table (finishEntries entries) :: finishTables rest

end

end EstreeScopes.Toml
