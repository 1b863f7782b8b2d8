/-
This file reads configuration documents: keys, values with their inner values,
and the lines of a document. Arrays and inline tables nest only so deep, and a
dotted key has only so many parts. The lines are taken in order: a header says
which table the entries after it belong to.
-/

import EstreeScopes.Toml.Scalar

namespace EstreeScopes.Toml

/-! ### Blanks and comments -/

/-- What may stand after the content of a line: blanks, a comment, and the end of the line or of
the text. -/
def lineEnd? (text : List Char) : Option (List Char) :=
  let afterComment :=
    match skipBlanks text with
    | '#' :: rest => rest.dropWhile isTextChar
    | rest => rest
  if afterComment.isEmpty then some [] else newline? afterComment

/-- A text without the blanks, line ends and comments that open it. A comment goes on to the end of
its line, and the line must end. The first argument says whether a comment is open. -/
def skipFiller? : Bool → List Char → Option (List Char)
  | inComment, '\r' :: rest =>
    match rest with
    | '\n' :: rest => skipFiller? false rest
    | _ => if inComment then none else some ('\r' :: rest)
  | _, '\n' :: rest => skipFiller? false rest
  | true, char :: rest => if isTextChar char then skipFiller? true rest else none
  | true, [] => none
  | false, char :: rest =>
    if isBlank char then skipFiller? false rest
    else if char = '#' then skipFiller? true rest
    else some (char :: rest)
  | false, [] => some []

/-! ### Keys -/

/-- A character of a key without quotes. -/
def isBareChar (char : Char) : Bool :=
  char.isAlphanum || char == '_' || char == '-'

/-- One part of a key. -/
def keyPart? : List Char → Option (String × List Char)
  | '"' :: rest => (basicString? 0 rest).map fun (chars, rest) => (String.ofList chars, rest)
  | '\x27' :: rest => (literalString? rest).map fun (chars, rest) => (String.ofList chars, rest)
  | text =>
    match text.takeWhile isBareChar with
    | [] => none
    | chars => some (String.ofList chars, text.dropWhile isBareChar)

/-- The parts of a key, with points between them and blanks around each. The bound is on the number
of parts. -/
def keyParts? : Nat → List Char → Option (List String × List Char)
  | 0, _ => none
  | bound + 1, text => do
    let (part, rest) ← keyPart? (skipBlanks text)
    match skipBlanks rest with
    | '.' :: rest => do
      let (parts, rest) ← keyParts? bound rest
      return (part :: parts, rest)
    | rest => return ([part], rest)

/-- The most parts that a key may have. -/
def keyLimit : Nat := 79

/-- The key that opens a text. -/
def key? (text : List Char) : Option (List String × List Char) := keyParts? keyLimit text

/-! ### Values -/

/-- Values of an array, with commas between them and a comma allowed after the last, up to the
closing bracket. The bound is on the number of values. -/
def arrayItems? (value? : List Char → Option (Value × List Char)) :
    Nat → List Char → Option (List Value × List Char)
  | 0, _ => none
  | bound + 1, text => do
    match ← skipFiller? false text with
    | ']' :: rest => return ([], rest)
    | text => do
      let (first, rest) ← value? text
      match ← skipFiller? false rest with
      | ',' :: rest => do
        let (others, rest) ← arrayItems? value? bound rest
        return (first :: others, rest)
      | ']' :: rest => return ([first], rest)
      | _ => none

/-- The key and the value of an entry. -/
def entry? (value? : List Char → Option (Value × List Char)) (text : List Char) :
    Option ((List String × Value) × List Char) := do
  match ← key? text with
  | (key, '=' :: rest) => do
    let (value, rest) ← value? (skipBlanks rest)
    return ((key, value), rest)
  | _ => none

/-- Puts a value under a key into a table. -/
def assignKey? (items : Items) (value : Value) : List String → Option Items
  | [] => none
  | first :: rest => items.assign? value true first rest

/-- Entries of an inline table, with commas between them, up to the closing brace. The bound is on
the number of entries. -/
def inlineEntries? (value? : List Char → Option (Value × List Char)) :
    Nat → Items → List Char → Option (Items × List Char)
  | 0, _, _ => none
  | bound + 1, items, text => do
    let ((key, value), rest) ← entry? value? text
    let items ← assignKey? items value key
    match skipBlanks rest with
    | ',' :: rest => inlineEntries? value? bound items rest
    | '\x7d' :: rest => return (items, rest)
    | _ => none

/-- The value that opens a text, with at most `depth` arrays and inline tables nested in each
other. -/
def value? (depth : Nat) (text : List Char) : Option (Value × List Char) :=
  match text with
  | '[' :: rest =>
    match depth with
    | 0 => none
    | inner + 1 =>
      (arrayItems? (fun text => value? inner text) (rest.length + 1) rest).map
        fun (items, rest) => (.array items, rest)
  | '\x7b' :: rest =>
    match depth with
    | 0 => none
    | inner + 1 =>
      match skipBlanks rest with
      | '\x7d' :: rest => some (.table [], rest)
      | _ =>
        (inlineEntries? (fun text => value? inner text) (rest.length + 1) [] rest).map
          fun (items, rest) => (.table (finishEntries items), rest)
  | _ => scalar? text

/-- How many arrays and inline tables may be nested in each other. -/
def nestingLimit : Nat := 79

/-! ### Documents -/

/-- The tables read so far, and the header that the next entries stand under. -/
structure Progress where
  items : Items
  header : List String

/-- Reads a header, once the brackets before it have been read, and opens its table. -/
def header? (progress : Progress) (opens : String → Items → Option Items)
    (close : List Char → Option (List Char)) (text : List Char) :
    Option (Progress × List Char) := do
  let (header, rest) ← key? text
  let rest ← lineEnd? (← close rest)
  let key ← header.getLast?
  let items ← Items.within? (opens key) progress.items header.dropLast
  return ({ items, header }, rest)

/-- Reads one line that is not blank. -/
def line? (progress : Progress) : List Char → Option (Progress × List Char)
  | '[' :: '[' :: rest =>
    header? progress Items.openTables? (fun text => (char? ']' text).bind (char? ']')) rest
  | '[' :: rest => header? progress Items.openTable? (char? ']') rest
  | '#' :: rest => (lineEnd? ('#' :: rest)).map fun rest => (progress, rest)
  | text => do
    let ((key, value), rest) ← entry? (value? nestingLimit) text
    let rest ← lineEnd? rest
    let items ←
      Items.within? (fun items => assignKey? items value key) progress.items progress.header
    return ({ progress with items }, rest)

/-- Reads lines up to the end of the text. The bound is on the number of lines. -/
def lines? : Nat → Progress → List Char → Option Progress
  | 0, _, _ => none
  | bound + 1, progress, text =>
    match skipBlanks text with
    | [] => some progress
    | text =>
      match newline? text with
      | some rest => lines? bound progress rest
      | none =>
        match line? progress text with
        | some (progress, rest) => lines? bound progress rest
        | none => none

/-- The table that a document writes. A byte order mark may open the text. -/
def Table.ofText? (text : String) : Option Table :=
  let chars :=
    match text.toList with
    | '\ufeff' :: rest => rest
    | chars => chars
  (lines? (chars.length + 1) { items := [], header := [] } chars).map
    fun progress => finishEntries progress.items

end EstreeScopes.Toml
