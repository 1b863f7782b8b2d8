/-
This file gives the values of a document. Objects keep their members in the order
of the text, and two objects are the same when they hold the same members in any
order.
-/

import EstreeScopes.Entries
import EstreeScopes.Json.Number

namespace EstreeScopes.Json

/-- A value of a document. -/
inductive Value where
  | null
  | bool (flag : Bool)
  | number (number : Number)
  | string (text : String)
  | array (items : List Value)
  | object (members : List (String × Value))
deriving Inhabited

namespace Value

/-! ### Looking at a value -/

/-- The text of a string. -/
def toText? : Value → Option String
  | .string text => some text
  | _ => none

/-- The truth value of a flag. -/
def toBool? : Value → Option Bool
  | .bool flag => some flag
  | _ => none

/-- The value of an integer that is not negative. -/
def toNat? : Value → Option Nat
  | .number quantity => quantity.toNat?
  | _ => none

/-! ### Sameness -/

mutual

/-- Two values are the same: numbers by value, arrays item by item, and objects member by member
whatever their order. -/
def same : Value → Value → Bool
  | .null, .null => true
  | .bool first, .bool second => first == second
  | .number first, .number second => first.same second
  | .string first, .string second => first == second
  | .array first, .array second => sameItems first second
  | .object first, .object second => first.length == second.length && sameMembers first second
  | _, _ => false

/-- The items of two arrays are the same, one by one. -/
def sameItems : List Value → List Value → Bool
  | [], [] => true
  | first :: firsts, second :: seconds => same first second && sameItems firsts seconds
  | _, _ => false

/-- Every member stands under its name among the others, with the same value. -/
def sameMembers : List (String × Value) → List (String × Value) → Bool
  | [], _ => true
  | (name, value) :: rest, others =>
    (match Entries.find? others name with
      | some other => same value other
      | none => false) && sameMembers rest others

end

end Value

end EstreeScopes.Json
