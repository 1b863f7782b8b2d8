/-
This file cuts texts at places counted in bytes. A character takes one to four
bytes. A place inside a character counts as the place behind it.
-/

namespace EstreeScopes.Text

/-- How many bytes a text takes. -/
def byteLength : List Char → Nat
  | [] => 0
  | char :: rest => char.utf8Size + byteLength rest

/-- What stands behind a number of bytes. -/
def dropBytes : Nat → List Char → List Char
  | 0, text => text
  | _ + 1, [] => []
  | count + 1, char :: rest => dropBytes (count + 1 - char.utf8Size) rest

/-- What stands in a number of bytes. -/
def takeBytes : Nat → List Char → List Char
  | 0, _ => []
  | _ + 1, [] => []
  | count + 1, char :: rest => char :: takeBytes (count + 1 - char.utf8Size) rest

/-- The part of a text from one place to another. -/
def slice (text : List Char) (start stop : Nat) : List Char :=
  takeBytes (stop - start) (dropBytes start text)

end EstreeScopes.Text
