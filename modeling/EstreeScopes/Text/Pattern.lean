/-
This file says which texts are patterns. A pattern is made of characters, places,
classes in brackets and groups in parentheses, with bars between alternatives and
marks of repetition behind what is repeated. A group may have a name, or modes in
which it is read.

A pattern stands for itself only as far as no table of characters is needed: the
families of digits, blanks and words, and characters in any case, are refused
unless the pattern is read in bytes. Counted repetitions are refused too.
-/

import EstreeScopes.Text.Alphanumeric

namespace EstreeScopes.Text

/-- Why a text is no pattern. -/
inductive PatternError where
  | malformed
  | wordBoundary
deriving DecidableEq

namespace Pattern

/-! ### Escapes -/

/-- What a character behind a backslash stands for: a character, a family of characters or its
complement, a place in a text, or the boundary of a word. -/
inductive Escape where
  | char (char : Char)
  | family (isComplement : Bool)
  | place
  | boundary
deriving DecidableEq

/-- The value of a hexadecimal digit. -/
def hexDigit? (char : Char) : Option Nat :=
  if char.isDigit then some (char.toNat - '0'.toNat)
  else if 'a' ≤ char ∧ char ≤ 'f' then some (char.toNat - 'a'.toNat + 10)
  else if 'A' ≤ char ∧ char ≤ 'F' then some (char.toNat - 'A'.toNat + 10)
  else none

/-- Reads a character from a fixed number of hexadecimal digits. -/
def coded? (count : Nat) (text : List Char) : Option (Escape × List Char) := do
  let digits ← (text.take count).mapM hexDigit?
  let code := digits.foldl (fun total digit => total * 16 + digit) 0
  if digits.length = count ∧ code.isValidChar then
    return (.char (Char.ofNat code), text.drop count)
  else none

/-- Reads what stands behind a backslash. -/
def escape? : List Char → Option (Escape × List Char)
  | [] => none
  | char :: rest =>
    match char with
    | 'd' | 's' | 'w' => some (.family false, rest)
    | 'D' | 'S' | 'W' => some (.family true, rest)
    | 'A' | 'z' => some (.place, rest)
    | 'b' | 'B' | '<' | '>' => some (.boundary, rest)
    | 'x' => coded? 2 rest
    | 'u' => coded? 4 rest
    | 'U' => coded? 8 rest
    | 'a' => some (.char '\x07', rest)
    | 'f' => some (.char '\x0c', rest)
    | 'n' => some (.char '\n', rest)
    | 'r' => some (.char '\r', rest)
    | 't' => some (.char '\t', rest)
    | 'v' => some (.char '\x0b', rest)
    | _ => if char.toNat < 0x80 && !char.isAlphanum then some (.char char, rest) else none

/-! ### Modes -/

/-- How a part of a pattern is read: in any case or not, in characters or in bytes. -/
structure Modes where
  foldsCase : Bool := false
  isUnicode : Bool := true
deriving DecidableEq

/-- Whether every character needs a table. -/
def Modes.needTables (modes : Modes) : Bool := modes.foldsCase && modes.isUnicode

/-- The modes after a letter switches one of them on or off. -/
def Modes.switch (modes : Modes) (letter : Char) (on : Bool) : Modes :=
  match letter with
  | 'i' => { modes with foldsCase := on }
  | 'u' => { modes with isUnicode := on }
  | _ => modes

/-- Reads the letters of modes up to a colon or a parenthesis, which stays. Letters behind a dash
switch modes off. No letter comes twice, and something follows the dash. -/
def modes? (seen : List Char) (modes : Modes) : List Char → Option (Modes × List Char)
  | [] => none
  | char :: rest =>
    if char = ':' ∨ char = ')' then
      if seen.head? = some '-' then none else some (modes, char :: rest)
    else if seen.contains char then none
    else if ['i', 'm', 's', 'U', 'u', 'R', 'x', '-'].contains char then
      modes? (char :: seen) (modes.switch char (!seen.contains '-')) rest
    else none

/-! ### Classes -/

/-- The names of classes in colons. -/
def classNames : List String :=
  ["alnum", "alpha", "ascii", "blank", "cntrl", "digit", "graph", "lower", "print", "punct",
    "space", "upper", "word", "xdigit"]

/-- Reads a class in colons, behind its bracket. -/
def namedClass? : List Char → Option (List Char)
  | ':' :: rest =>
    let rest :=
      match rest with
      | '^' :: rest => rest
      | _ => rest
    let name := rest.takeWhile (· != ':')
    match rest.drop name.length with
    | ':' :: ']' :: rest => if classNames.contains (String.ofList name) then some rest else none
    | _ => none
  | _ => none

/-- What follows the opening of a class: a complement mark, then dashes or else a bracket that stand
for themselves. -/
def afterOpening (text : List Char) : List Char :=
  let text :=
    match text with
    | '^' :: rest => rest
    | _ => text
  match text with
  | ']' :: rest => rest
  | _ => text.dropWhile (· == '-')

/-- Reads one item of a class. -/
def classItem? : List Char → Option (Escape × List Char)
  | '\\' :: rest => escape? rest
  | char :: rest => some (.char char, rest)
  | [] => none

/-- Whether an item stands in a class by itself. -/
def Escape.isMember (modes : Modes) : Escape → Bool
  | .char _ => true
  | .family isComplement => !modes.isUnicode && !isComplement
  | .place | .boundary => false

/-- Reads an item of a class, or two characters in order with a dash between them. -/
def classRange? (modes : Modes) (text : List Char) : Option (List Char) := do
  let (first, rest) ← classItem? text
  match rest with
  | '-' :: ']' :: _ | '-' :: '-' :: _ => if first.isMember modes then return rest else none
  | '-' :: rest =>
    let (last, rest) ← classItem? rest
    match first, last with
    | .char first, .char last => if first ≤ last then return rest else none
    | _, _ => none
  | _ => if first.isMember modes then return rest else none

/-- Reads the rest of a class, in which some more classes are open. Every round reads a character,
so the length of the text bounds the rounds. -/
def class? (modes : Modes) : Nat → Nat → List Char → Option (List Char)
  | 0, _, _ => none
  | _ + 1, _, [] => none
  | _ + 1, 0, ']' :: rest => some rest
  | rounds + 1, inner + 1, ']' :: rest => class? modes rounds inner rest
  | rounds + 1, inner, '[' :: rest =>
    match namedClass? rest with
    | some rest => class? modes rounds inner rest
    | none => class? modes rounds (inner + 1) (afterOpening rest)
  | rounds + 1, inner, '&' :: '&' :: rest => class? modes rounds inner rest
  | rounds + 1, inner, '-' :: '-' :: rest => class? modes rounds inner rest
  | rounds + 1, inner, '~' :: '~' :: rest => class? modes rounds inner rest
  | rounds + 1, inner, text => (classRange? modes text).bind (class? modes rounds inner)

/-! ### Patterns -/

/-- What has been read of a pattern: the modes of the open groups, innermost first, the names of
groups, whether a repetition may follow, and whether the boundary of a word was met. -/
structure State where
  modes : Modes := {}
  outer : List Modes := []
  names : List (List Char) := []
  isRepeatable : Bool := false
  meetsBoundary : Bool := false

/-- The state behind something that can be repeated. -/
def State.behindItem (state : State) : State := { state with isRepeatable := true }

/-- The state in a new group with its modes. -/
def State.inGroup (state : State) (modes : Modes) : State :=
  { state with modes, outer := state.modes :: state.outer, isRepeatable := false }

/-- Whether a text names a group. -/
def isGroupName : List Char → Bool
  | [] => false
  | first :: rest =>
    (first == '_' || (isAlphanumeric first && !first.isDigit)) &&
      rest.all fun char => ['_', '.', '[', ']'].contains char || isAlphanumeric char

/-- Reads the name of a group up to its angle. -/
def namedGroup? (state : State) (text : List Char) : Option (State × List Char) :=
  let name := text.takeWhile (· != '>')
  match text.drop name.length with
  | '>' :: rest =>
    if isGroupName name && !state.names.contains name then
      some ({ state.inGroup state.modes with names := name :: state.names }, rest)
    else none
  | _ => none

/-- Reads what stands behind the parenthesis that opens a group. Modes that are closed at once hold
for the rest of the group around them. -/
def group? (state : State) : List Char → Option (State × List Char)
  | '?' :: 'P' :: '<' :: rest => namedGroup? state rest
  | '?' :: '<' :: rest => namedGroup? state rest
  | '?' :: rest =>
    match modes? [] state.modes rest with
    | some (modes, ':' :: behind) => some (state.inGroup modes, behind)
    | some (modes, ')' :: behind) =>
      if rest.head? = some ')' then none
      else some ({ state with modes, isRepeatable := false }, behind)
    | _ => none
  | rest => some (state.inGroup state.modes, rest)

/-- The state behind an escape. -/
def State.behindEscape? (state : State) : Escape → Option State
  | .char _ => if state.modes.needTables then none else some state.behindItem
  | .family isComplement =>
    if state.modes.isUnicode || isComplement then none else some state.behindItem
  | .place => some state.behindItem
  | .boundary =>
    some { state.behindItem with meetsBoundary := state.meetsBoundary || state.modes.isUnicode }

/-- Reads one item of a pattern. -/
def item? (state : State) : List Char → Option (State × List Char)
  | [] => none
  | '(' :: rest => group? state rest
  | ')' :: rest =>
    match state.outer with
    | [] => none
    | modes :: outer => some ({ state with modes, outer, isRepeatable := true }, rest)
  | '|' :: rest => some ({ state with isRepeatable := false }, rest)
  | '[' :: rest =>
    if state.modes.needTables then none
    else (class? state.modes (rest.length + 1) 0 (afterOpening rest)).map (state.behindItem, ·)
  | '\x7b' :: _ => none
  | '\\' :: rest => do
    let (escape, rest) ← escape? rest
    return (← state.behindEscape? escape, rest)
  | '^' :: rest | '$' :: rest => some (state.behindItem, rest)
  | '.' :: rest => if state.modes.isUnicode then some (state.behindItem, rest) else none
  | char :: rest =>
    if ['?', '*', '+'].contains char then
      if state.isRepeatable then some (state, if rest.head? = some '?' then rest.tail else rest)
      else none
    else if state.modes.needTables then none
    else some (state.behindItem, rest)

/-- Reads items to the end of a text. Every round reads a character, so the length of the text
bounds the rounds. -/
def items? : Nat → State → List Char → Option State
  | _, state, [] => if state.outer.isEmpty then some state else none
  | 0, _, _ => none
  | rounds + 1, state, text => (item? state text).bind fun (state, rest) => items? rounds state rest

end Pattern

/-- What is wrong with a text as a pattern. -/
def patternError? (text : List Char) : Option PatternError :=
  match Pattern.items? text.length {} text with
  | none => some .malformed
  | some state => if state.meetsBoundary then some .wordBoundary else none

end EstreeScopes.Text
