/-
This file reads a document from its text. The grammar is strict: blanks are the
four white space characters, strings hold no raw control character and no lone
surrogate, and nothing is forgiven. A reader gives the value that opens a text
and what follows it. Nesting and the number of items in a row are bounded by
arguments; a bound as large as the text is no bound at all, because every level
and every item takes a character.
-/

import EstreeScopes.Json.Value

namespace EstreeScopes.Json.Reader

/-! ### Blanks and strings -/

/-- The characters that may stand between any two tokens. -/
def isBlank (char : Char) : Bool :=
  char == ' ' || char == '\t' || char == '\n' || char == '\r'

/-- A text without the blanks that open it. -/
def skipBlanks (text : List Char) : List Char :=
  text.dropWhile isBlank

/-- The value of a hexadecimal digit. -/
def hexDigit? (char : Char) : Option Nat :=
  if '0' ≤ char ∧ char ≤ '9' then some (char.toNat - '0'.toNat)
  else if 'a' ≤ char ∧ char ≤ 'f' then some (char.toNat - 'a'.toNat + 10)
  else if 'A' ≤ char ∧ char ≤ 'F' then some (char.toNat - 'A'.toNat + 10)
  else none

/-- The code unit that four hexadecimal digits write. -/
def codeUnit? (first second third fourth : Char) : Option Nat := do
  return (((← hexDigit? first) * 16 + (← hexDigit? second)) * 16 + (← hexDigit? third)) * 16 +
    (← hexDigit? fourth)

/-- The character that a backslash and one more character stand for. -/
def escaped? : Char → Option Char
  | '"' => some '"'
  | '\\' => some '\\'
  | '/' => some '/'
  | 'b' => some '\x08'
  | 'f' => some '\x0c'
  | 'n' => some '\n'
  | 'r' => some '\r'
  | 't' => some '\t'
  | _ => none

/-- The first unit of a surrogate pair. -/
def isHighSurrogate (unit : Nat) : Bool :=
  0xD800 ≤ unit && unit < 0xDC00

/-- The second unit of a surrogate pair. -/
def isLowSurrogate (unit : Nat) : Bool :=
  0xDC00 ≤ unit && unit < 0xE000

/-- The character that a surrogate pair encodes. -/
def pairChar (high low : Nat) : Char :=
  Char.ofNat (0x10000 + (high - 0xD800) * 0x400 + (low - 0xDC00))

/-- The characters of a string up to its closing quote, and what follows. The opening quote has
been read. -/
def stringBody : List Char → Option (List Char × List Char)
  | [] => none
  | '"' :: rest => some ([], rest)
  | '\\' :: 'u' :: a :: b :: c :: d :: rest =>
    match codeUnit? a b c d with
    | none => none
    | some unit =>
      if isHighSurrogate unit then
        match rest with
        | '\\' :: 'u' :: e :: f :: g :: h :: rest =>
          match codeUnit? e f g h with
          | none => none
          | some low =>
            if isLowSurrogate low then
              (stringBody rest).map fun (chars, rest) => (pairChar unit low :: chars, rest)
            else none
        | _ => none
      else if isLowSurrogate unit then none
      else (stringBody rest).map fun (chars, rest) => (Char.ofNat unit :: chars, rest)
  | '\\' :: char :: rest =>
    match escaped? char with
    | none => none
    | some plain => (stringBody rest).map fun (chars, rest) => (plain :: chars, rest)
  | char :: rest =>
    if char.toNat < 0x20 ∨ char = '\\' then none
    else (stringBody rest).map fun (chars, rest) => (char :: chars, rest)

/-! ### Sequences -/

variable {α : Type}

/-- One or more items with commas between them, up to the closing character. The bound is on the
number of items. -/
def items (close : Char) (item : List Char → Option (α × List Char)) :
    Nat → List Char → Option (List α × List Char)
  | 0, _ => none
  | bound + 1, text =>
    match item text with
    | none => none
    | some (first, rest) =>
      match skipBlanks rest with
      | ',' :: rest =>
        (items close item bound rest).map fun (others, rest) => (first :: others, rest)
      | char :: rest => if char = close then some ([first], rest) else none
      | [] => none

/-- What stands between an opening and its closing character, which may be nothing. The bound is on
the number of items. -/
def enclosed (close : Char) (item : List Char → Option (α × List Char)) (bound : Nat)
    (text : List Char) : Option (List α × List Char) :=
  match skipBlanks text with
  | [] => none
  | char :: rest => if char = close then some ([], rest) else items close item bound text

/-- A member of an object: a name, a colon and a value. -/
def member (value : List Char → Option (α × List Char)) (text : List Char) :
    Option ((String × α) × List Char) :=
  match skipBlanks text with
  | '"' :: rest =>
    match stringBody rest with
    | none => none
    | some (name, rest) =>
      match skipBlanks rest with
      | ':' :: rest => (value rest).map fun (value, rest) => ((String.ofList name, value), rest)
      | _ => none
  | _ => none

/-! ### Values -/

/-- The value that opens a text, with at most `width` items in each array or object and at most
`depth` arrays and objects nested in each other. -/
def value (width depth : Nat) (text : List Char) : Option (Value × List Char) :=
  match skipBlanks text with
  | 'n' :: 'u' :: 'l' :: 'l' :: rest => some (.null, rest)
  | 't' :: 'r' :: 'u' :: 'e' :: rest => some (.bool true, rest)
  | 'f' :: 'a' :: 'l' :: 's' :: 'e' :: rest => some (.bool false, rest)
  | '"' :: rest => (stringBody rest).map fun (chars, rest) => (.string (String.ofList chars), rest)
  | '[' :: rest =>
    match depth with
    | 0 => none
    | inner + 1 =>
      (enclosed ']' (fun text => value width inner text) width rest).map
        fun (items, rest) => (.array items, rest)
  | '\x7b' :: rest =>
    match depth with
    | 0 => none
    | inner + 1 =>
      (enclosed '\x7d' (member fun text => value width inner text) width rest).map
        fun (members, rest) => (.object (Entries.ofPairs members), rest)
  | text =>
    match Numeral.scan? text with
    | none => none
    | some (numeral, rest) => (Number.ofNumeral? numeral).map fun number => (.number number, rest)

/-- Nothing but blanks is left. -/
def isAtEnd (text : List Char) : Bool :=
  (skipBlanks text).isEmpty

end EstreeScopes.Json.Reader

namespace EstreeScopes.Json.Value

/-- The value that a whole text writes, of any nesting. -/
def ofText? (text : String) : Option Value :=
  match Reader.value text.length text.length text.toList with
  | some (value, rest) => if Reader.isAtEnd rest then some value else none
  | none => none

end EstreeScopes.Json.Value
