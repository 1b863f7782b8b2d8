/-
This file writes a value as text: on one line without blanks, or over several
lines with two blanks of indentation for each level. Both writers put the text in
front of a text that is already there, which keeps them linear and lets a reader
be run on what they produce.
-/

import EstreeScopes.Json.Value

namespace EstreeScopes.Json.Writer

/-! ### Strings -/

/-- A hexadecimal digit. -/
def hexChar (digit : Nat) : Char :=
  Nat.digitChar digit

/-- What stands for a character inside quotes. Quotes, backslashes and control characters are
escaped, everything else stands for itself. -/
def escape (char : Char) : List Char :=
  if char = '"' then ['\\', '"']
  else if char = '\\' then ['\\', '\\']
  else if char = '\x08' then ['\\', 'b']
  else if char = '\x0c' then ['\\', 'f']
  else if char = '\n' then ['\\', 'n']
  else if char = '\r' then ['\\', 'r']
  else if char = '\t' then ['\\', 't']
  else if char.toNat < 0x20 then
    ['\\', 'u', '0', '0', hexChar (char.toNat / 16), hexChar (char.toNat % 16)]
  else [char]

/-- A quoted string. -/
def quoted (text : String) (rest : List Char) : List Char :=
  '"' :: (text.toList.flatMap escape ++ '"' :: rest)

/-! ### One line -/

mutual

/-- A value on one line. -/
def compact : Value → List Char → List Char
  | .null, rest => "null".toList ++ rest
  | .bool true, rest => "true".toList ++ rest
  | .bool false, rest => "false".toList ++ rest
  | .number number, rest => number.text ++ rest
  | .string text, rest => quoted text rest
  | .array items, rest => '[' :: compactItems items (']' :: rest)
  | .object members, rest => '\x7b' :: compactMembers members ('\x7d' :: rest)

/-- The items of an array, with commas between them. -/
def compactItems : List Value → List Char → List Char
  | [], rest => rest
  | [item], rest => compact item rest
  | item :: items, rest => compact item (',' :: compactItems items rest)

/-- The members of an object, with commas between them. -/
def compactMembers : List (String × Value) → List Char → List Char
  | [], rest => rest
  | [(name, value)], rest => quoted name (':' :: compact value rest)
  | (name, value) :: members, rest =>
    quoted name (':' :: compact value (',' :: compactMembers members rest))

end

/-! ### Several lines -/

/-- The start of a line at the given level. -/
def newLine (level : Nat) (rest : List Char) : List Char :=
  '\n' :: (List.replicate (2 * level) ' ' ++ rest)

mutual

/-- A value over several lines, standing at the given level. -/
def pretty : Nat → Value → List Char → List Char
  | _, .array [], rest => '[' :: ']' :: rest
  | _, .object [], rest => '\x7b' :: '\x7d' :: rest
  | level, .array items, rest =>
    '[' :: newLine (level + 1) (prettyItems (level + 1) items (newLine level (']' :: rest)))
  | level, .object members, rest =>
    '\x7b' :: newLine (level + 1)
      (prettyMembers (level + 1) members (newLine level ('\x7d' :: rest)))
  | _, .null, rest => "null".toList ++ rest
  | _, .bool true, rest => "true".toList ++ rest
  | _, .bool false, rest => "false".toList ++ rest
  | _, .number number, rest => number.text ++ rest
  | _, .string text, rest => quoted text rest

/-- The items of an array, one to a line. -/
def prettyItems : Nat → List Value → List Char → List Char
  | _, [], rest => rest
  | level, [item], rest => pretty level item rest
  | level, item :: items, rest =>
    pretty level item (',' :: newLine level (prettyItems level items rest))

/-- The members of an object, one to a line. -/
def prettyMembers : Nat → List (String × Value) → List Char → List Char
  | _, [], rest => rest
  | level, [(name, value)], rest => quoted name (':' :: ' ' :: pretty level value rest)
  | level, (name, value) :: members, rest =>
    quoted name (':' :: ' ' ::
      pretty level value (',' :: newLine level (prettyMembers level members rest)))

end

end EstreeScopes.Json.Writer

namespace EstreeScopes.Json.Value

/-- The text of a value on one line. -/
def compactText (value : Value) : String :=
  String.ofList (Writer.compact value [])

/-- The text of a value over several lines. -/
def prettyText (value : Value) : String :=
  String.ofList (Writer.pretty 0 value [])

end EstreeScopes.Json.Value
