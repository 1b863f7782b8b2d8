/-
This file gives the tables that stand for a date or a time. A table whose first
key is the reserved one is such a table: the value under the key must be a text
that writes a date or a time, and the entries after it do not count. The table of
a whole document is never one.

The text is read more freely than a date or a time of a document: an hour may be
the twenty-fourth, and a distance from universal time is bounded only as a whole.
-/

import EstreeScopes.Toml.Scalar

namespace EstreeScopes.Toml

/-! ### Texts of dates and times -/

/-- A time of day: hour, minute and second. -/
def looseTime? (text : List Char) : Option (List Char) := do
  let (_, text) ← fixed? 2 0 24 text
  let (_, text) ← fixed? 2 0 59 (← char? ':' text)
  let (_, text) ← fixed? 2 0 60 (← char? ':' text)
  match text with
  | '.' :: _ => secondFraction? text
  | _ => return text

/-- The distance of a time from universal time: none, or at most a day. -/
def looseOffset? : List Char → Option (List Char)
  | [] => some []
  | 'Z' :: rest | 'z' :: rest => some rest
  | '+' :: rest | '-' :: rest => do
    let (hours, text) ← fixed? 2 0 99 rest
    let (minutes, text) ← fixed? 2 0 99 (← char? ':' text)
    if hours * 60 + minutes ≤ 24 * 60 then return text else none
  | _ => none

/-- What stands behind a date, a time or both. A time alone has a colon in its third place and no
distance from universal time. -/
def looseDateTime? (text : List Char) : Option (List Char) :=
  if text[2]? = some ':' then looseTime? text
  else
    match date? text with
    | some ('T' :: rest) | some ('t' :: rest) | some (' ' :: rest) =>
      (looseTime? rest).bind looseOffset?
    | afterDate => afterDate

/-- Whether a text writes a date, a time or both. -/
def isDateTime (text : String) : Bool := looseDateTime? text.toList == some []

/-! ### Marked tables -/

/-- The key that marks a table as a date or a time when it comes first. -/
def markKey : String := "$__toml_private_datetime"

namespace Value

mutual

/-- A value with every marked table in it replaced by the date or time it stands for. There is none
if a marked table stands for nothing. -/
def unmarked? : Value → Option Value
  | .array items => (unmarkedItems? items).map .array
  | .table [] => some (.table [])
  | .table ((key, value) :: rest) =>
    if key = markKey then
      match value with
      | .string text => if isDateTime text then some (.dateTime text) else none
      | _ => none
    else do
      let value ← unmarked? value
      let rest ← unmarkedEntries? rest
      return .table ((key, value) :: rest)
  | plain => some plain

/-- The same for the items of an array. -/
def unmarkedItems? : List Value → Option (List Value)
  | [] => some []
  | item :: rest => do
    let item ← unmarked? item
    let rest ← unmarkedItems? rest
    return item :: rest

/-- The same for the values of entries. -/
def unmarkedEntries? : List (String × Value) → Option (List (String × Value))
  | [] => some []
  | (key, value) :: rest => do
    let value ← unmarked? value
    let rest ← unmarkedEntries? rest
    return (key, value) :: rest

end

end Value

/-- The table of a document with the marked tables in it replaced. -/
def Table.unmarked? (table : Table) : Option Table := Value.unmarkedEntries? table

end EstreeScopes.Toml
