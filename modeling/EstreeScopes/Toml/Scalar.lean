/-
This file reads the parts of a configuration document that hold no other values:
strings in their four forms, truth values, integers, floats, dates and times.
Every reader takes the text from where its token starts and gives what it read
and the text that follows.
-/

import EstreeScopes.Json.Double
import EstreeScopes.Toml.Value

namespace EstreeScopes.Toml

/-! ### Characters -/

/-- A blank inside a line. -/
def isBlank (char : Char) : Bool := char == ' ' || char == '\t'

/-- A character that may stand in a comment, a literal string or, apart from quotes and
backslashes, in any string: a tab, or no control character. -/
def isTextChar (char : Char) : Bool :=
  char == '\t' || (0x20 ≤ char.toNat && char.toNat != 0x7F)

/-- A text without the blanks that open it. -/
def skipBlanks (text : List Char) : List Char := text.dropWhile isBlank

/-- The line end that opens a text. -/
def newline? : List Char → Option (List Char)
  | '\n' :: rest => some rest
  | '\r' :: '\n' :: rest => some rest
  | _ => none

/-- The value of a digit in a base of at most sixteen. -/
def digit? (base : Nat) (char : Char) : Option Nat :=
  let value :=
    if '0' ≤ char ∧ char ≤ '9' then char.toNat - '0'.toNat
    else if 'a' ≤ char ∧ char ≤ 'f' then char.toNat - 'a'.toNat + 10
    else if 'A' ≤ char ∧ char ≤ 'F' then char.toNat - 'A'.toNat + 10
    else 16
  if value < base then some value else none

/-! ### Strings -/

/-- The characters that a backslash and one more character stand for. -/
def escaped? : Char → Option Char
  | 'b' => some '\x08'
  | 'f' => some '\x0c'
  | 'n' => some '\n'
  | 'r' => some '\r'
  | 't' => some '\t'
  | '"' => some '"'
  | '\\' => some '\\'
  | _ => none

/-- The character whose code the hexadecimal digits write. -/
def codeChar? (digits : List Char) : Option Char := do
  let values ← digits.mapM (digit? 16)
  let code := values.foldl (fun total value => total * 16 + value) 0
  if code.isValidChar then return Char.ofNat code else none

/-- The character of an escape, once the backslash has been read, and how many characters the
escape takes. -/
def escape? : List Char → Option (Char × Nat)
  | 'u' :: rest =>
    if 4 ≤ rest.length then (codeChar? (rest.take 4)).map fun char => (char, 5) else none
  | 'U' :: rest =>
    if 8 ≤ rest.length then (codeChar? (rest.take 8)).map fun char => (char, 9) else none
  | char :: _ => (escaped? char).map fun plain => (plain, 1)
  | [] => none

/-- The rest of a string in double quotes on one line. The first argument counts the characters of
an escape that have been read already. -/
def basicString? : Nat → List Char → Option (List Char × List Char)
  | _, [] => none
  | skip + 1, _ :: rest => basicString? skip rest
  | 0, '"' :: rest => some ([], rest)
  | 0, '\\' :: rest =>
    match escape? rest with
    | none => none
    | some (char, length) =>
      (basicString? length rest).map fun (chars, rest) => (char :: chars, rest)
  | 0, char :: rest =>
    if isTextChar char then (basicString? 0 rest).map fun (chars, rest) => (char :: chars, rest)
    else none

/-- The rest of a string in single quotes on one line. -/
def literalString? : List Char → Option (List Char × List Char)
  | [] => none
  | '\x27' :: rest => some ([], rest)
  | char :: rest =>
    if isTextChar char then (literalString? rest).map fun (chars, rest) => (char :: chars, rest)
    else none

/-- Up to two more quotes after the three that close a string belong to the string. -/
def closingQuotes (quote : Char) : List Char → List Char × List Char
  | first :: second :: rest =>
    if first = quote then
      if second = quote then ([quote, quote], rest) else ([quote], second :: rest)
    else ([], first :: second :: rest)
  | [first] => if first = quote then ([quote], []) else ([], [first])
  | [] => ([], [])

/-- The rest of a string of several lines in single quotes. -/
def multilineLiteral? : List Char → Option (List Char × List Char)
  | [] => none
  | '\x27' :: '\x27' :: '\x27' :: rest => some (closingQuotes '\x27' rest)
  | '\r' :: '\n' :: rest =>
    (multilineLiteral? rest).map fun (chars, rest) => ('\n' :: chars, rest)
  | char :: rest =>
    if isTextChar char || char == '\n' then
      (multilineLiteral? rest).map fun (chars, rest) => (char :: chars, rest)
    else none

/-- A text without the blanks and line ends that open it. -/
def skipLines : List Char → List Char
  | '\r' :: '\n' :: rest => skipLines rest
  | char :: rest => if isBlank char || char == '\n' then skipLines rest else char :: rest
  | [] => []

/-- The rest of a string of several lines in double quotes. A backslash at the end of a line hides
the line end and all blanks and line ends that follow. The first argument counts the characters
that belong to an escape or are hidden. -/
def multilineBasic? : Nat → List Char → Option (List Char × List Char)
  | _, [] => none
  | skip + 1, _ :: rest => multilineBasic? skip rest
  | 0, '"' :: '"' :: '"' :: rest => some (closingQuotes '"' rest)
  | 0, '\\' :: rest =>
    match newline? (skipBlanks rest) with
    | some following => multilineBasic? (rest.length - (skipLines following).length) rest
    | none =>
      match escape? rest with
      | none => none
      | some (char, length) =>
        (multilineBasic? length rest).map fun (chars, rest) => (char :: chars, rest)
  | 0, '\r' :: '\n' :: rest =>
    (multilineBasic? 0 rest).map fun (chars, rest) => ('\n' :: chars, rest)
  | 0, char :: rest =>
    if isTextChar char || char == '\n' then
      (multilineBasic? 0 rest).map fun (chars, rest) => (char :: chars, rest)
    else none

/-- A string of several lines loses a line end right after its opening quotes. -/
def dropNewline (text : List Char) : List Char := (newline? text).getD text

/-- The string that opens a text. -/
def string? : List Char → Option (String × List Char)
  | '"' :: '"' :: '"' :: rest =>
    (multilineBasic? 0 (dropNewline rest)).map fun (chars, rest) => (String.ofList chars, rest)
  | '"' :: rest => (basicString? 0 rest).map fun (chars, rest) => (String.ofList chars, rest)
  | '\x27' :: '\x27' :: '\x27' :: rest =>
    (multilineLiteral? (dropNewline rest)).map fun (chars, rest) => (String.ofList chars, rest)
  | '\x27' :: rest => (literalString? rest).map fun (chars, rest) => (String.ofList chars, rest)
  | _ => none

/-! ### Numbers -/

/-- Digits with single underscores between them, once the first digit has been read. An underscore
that no digit follows is an error. -/
def moreDigits? (base : Nat) : List Char → Option (List Char × List Char)
  | [] => some ([], [])
  | ['_'] => none
  | '_' :: char :: rest =>
    if (digit? base char).isSome then
      (moreDigits? base rest).map fun (digits, rest) => (char :: digits, rest)
    else none
  | char :: rest =>
    if (digit? base char).isSome then
      (moreDigits? base rest).map fun (digits, rest) => (char :: digits, rest)
    else some ([], char :: rest)

/-- One or more digits with single underscores between them. -/
def digits? (base : Nat) : List Char → Option (List Char × List Char)
  | char :: rest =>
    if (digit? base char).isSome then
      (moreDigits? base rest).map fun (digits, rest) => (char :: digits, rest)
    else none
  | [] => none

/-- The number that digits write. -/
def digitsValue (base : Nat) (digits : List Char) : Nat :=
  digits.foldl (fun total char => total * base + (digit? base char).getD 0) 0

/-- The sign that may open a number. -/
def sign : List Char → Bool × List Char
  | '-' :: rest => (true, rest)
  | '+' :: rest => (false, rest)
  | text => (false, text)

/-- Digits before a point: a zero stands alone. -/
def wholeDigits? : List Char → Option (List Char × List Char)
  | '0' :: rest => some (['0'], rest)
  | text => digits? 10 text

/-- An integer within 64 bits with a sign. -/
def integerValue? (value : Int) : Option Value :=
  if -9223372036854775808 ≤ value ∧ value < 9223372036854775808 then some (.integer value)
  else none

/-- An integer with a base mark, once the mark has been read. -/
def basedInteger? (base : Nat) (text : List Char) : Option (Value × List Char) := do
  let (digits, rest) ← digits? base text
  return (← integerValue? (digitsValue base digits), rest)

/-- The fraction that may follow the whole digits. -/
def fraction? : List Char → Option (List Char × List Char)
  | '.' :: rest => digits? 10 rest
  | text => some ([], text)

/-- The exponent that may follow the digits. -/
def exponent? : List Char → Option (Option Int × List Char)
  | 'e' :: rest | 'E' :: rest => do
    let (negative, text) := sign rest
    let (digits, rest) ← digits? 10 text
    let magnitude : Int := digitsValue 10 digits
    return (some (if negative then -magnitude else magnitude), rest)
  | text => some (none, text)

/-- What was read, given the texts before and after reading. -/
def consumed (text rest : List Char) : String :=
  String.ofList (text.take (text.length - rest.length))

/-- An integer or a float in base ten. A float must not lie above the largest double. -/
def decimal? (text : List Char) : Option (Value × List Char) := do
  let (negative, body) := sign text
  let (whole, afterWhole) ← wholeDigits? body
  let (fraction, afterFraction) ← fraction? afterWhole
  let (power, rest) ← exponent? afterFraction
  if fraction.isEmpty && power.isNone then
    let magnitude : Int := digitsValue 10 whole
    return (← integerValue? (if negative then -magnitude else magnitude), rest)
  else
    let double := Json.Double.ofDecimal? negative (digitsValue 10 (whole ++ fraction))
      (power.getD 0 - fraction.length)
    if negative || double.isSome then return (.float (consumed text rest), rest) else none

/-- A number: with a base mark, in base ten, or one of the special floats with a sign. -/
def number? : List Char → Option (Value × List Char)
  | '0' :: 'x' :: rest => basedInteger? 16 rest
  | '0' :: 'o' :: rest => basedInteger? 8 rest
  | '0' :: 'b' :: rest => basedInteger? 2 rest
  | text =>
    match (sign text).2 with
    | 'i' :: 'n' :: 'f' :: rest | 'n' :: 'a' :: 'n' :: rest =>
      some (.float (consumed text rest), rest)
    | _ => decimal? text

/-! ### Dates and times -/

/-- A number of exactly so many digits that lies within bounds. -/
def fixed? (count least most : Nat) (text : List Char) : Option (Nat × List Char) :=
  let digits := text.take count
  let value := digitsValue 10 digits
  if digits.length = count ∧ digits.all Char.isDigit ∧ least ≤ value ∧ value ≤ most then
    some (value, text.drop count)
  else none

/-- How many days a month has. -/
def daysIn (year month : Nat) : Nat :=
  if month = 2 then
    if year % 4 = 0 ∧ (year % 100 ≠ 0 ∨ year % 400 = 0) then 29 else 28
  else if month = 4 ∨ month = 6 ∨ month = 9 ∨ month = 11 then 30
  else 31

/-- A given character. -/
def char? (char : Char) : List Char → Option (List Char)
  | first :: rest => if first = char then some rest else none
  | [] => none

/-- A day: year, month and day of the month. -/
def date? (text : List Char) : Option (List Char) := do
  let (year, text) ← fixed? 4 0 9999 text
  let (month, text) ← fixed? 2 1 12 (← char? '-' text)
  let (_, text) ← fixed? 2 1 (daysIn year month) (← char? '-' text)
  return text

/-- A fraction of a second. -/
def secondFraction? (text : List Char) : Option (List Char) := do
  let digits ← char? '.' text
  if (digits.takeWhile Char.isDigit).isEmpty then none else return digits.dropWhile Char.isDigit

/-- A time of day: hour, minute and second. -/
def time? (text : List Char) : Option (List Char) := do
  let (_, text) ← fixed? 2 0 23 text
  let (_, text) ← fixed? 2 0 59 (← char? ':' text)
  let (_, text) ← fixed? 2 0 60 (← char? ':' text)
  return (secondFraction? text).getD text

/-- The distance of a time from universal time. -/
def offset? : List Char → Option (List Char)
  | 'Z' :: rest | 'z' :: rest => some rest
  | '+' :: rest | '-' :: rest => do
    let (_, text) ← fixed? 2 0 23 rest
    let (_, text) ← fixed? 2 0 59 (← char? ':' text)
    return text
  | _ => none

/-- The time that may follow a day, with or without its distance from universal time. -/
def dayTime? : List Char → Option (List Char)
  | 'T' :: rest | 't' :: rest | ' ' :: rest => do
    let text ← time? rest
    return (offset? text).getD text
  | _ => none

/-- A date, a time or both. -/
def dateTime? (text : List Char) : Option (Value × List Char) := do
  let rest ←
    match date? text with
    | some afterDate => some ((dayTime? afterDate).getD afterDate)
    | none => time? text
  return (.dateTime (consumed text rest), rest)

/-- The value without inner values that opens a text. -/
def scalar? (text : List Char) : Option (Value × List Char) :=
  match text with
  | '"' :: _ | '\x27' :: _ => (string? text).map fun (string, rest) => (.string string, rest)
  | 't' :: 'r' :: 'u' :: 'e' :: rest => some (.boolean true, rest)
  | 'f' :: 'a' :: 'l' :: 's' :: 'e' :: rest => some (.boolean false, rest)
  | _ => (dateTime? text).or (number? text)

end EstreeScopes.Toml
