/-
This file says which events are logged. A filter is a list of directives, each of
which sets how much is logged of the events it is about: those whose source
starts with a text and that have certain details. Of the directives about an
event the most specific one decides.

Directives are written with commas between them: a level, a source, or a source
and a level with an equals sign between them. After the source, brackets may hold
the name of a span and, in braces, a detail; nothing is logged inside a span, so
a directive about a named span, or about the value of a detail, decides nothing.
-/

import EstreeScopes.Command.Log
import EstreeScopes.Text.Alphanumeric
import EstreeScopes.Text.Blank
import EstreeScopes.Text.Bytes
import EstreeScopes.Text.Pattern
import EstreeScopes.Text.Pieces

namespace EstreeScopes.Command

/-! ### Directives -/

/-- How much is logged: nothing, or everything from a level on. -/
inductive Verbosity where
  | off
  | least (level : Level)
deriving DecidableEq

/-- Whether an event of that level is logged. -/
def Verbosity.admits : Verbosity → Level → Bool
  | .off, _ => false
  | .least bound, level => bound.rank ≤ level.rank

/-- How much is logged of certain events. -/
structure Directive where
  source : Option String
  details : List String
  verbosity : Verbosity
deriving DecidableEq

namespace Directive

/-- The directive about every event. -/
def general (level : Level) : Directive :=
  { source := none, details := [], verbosity := .least level }

/-- Whether a directive is about an event. The message counts as a detail that every event has. -/
def isAbout (directive : Directive) (event : Event) : Bool :=
  directive.source.all (fun opening => opening.toList.isPrefixOf event.source.toList) &&
    directive.details.all fun name =>
      name == "message" || event.details.any fun detail => detail.1 == name

/-- How specific a directive is: how long its source is, if it has one, and then how many details it
asks for. -/
def specificity (directive : Directive) : Nat × Nat :=
  ((directive.source.map fun opening => opening.utf8ByteSize + 1).getD 0, directive.details.length)

/-- Whether the second of two directives about an event comes before the first: it is more specific,
or asks for a later detail, or else is the later directive. -/
def yields (first second : Directive) : Bool :=
  if first.specificity = second.specificity then ¬ second.details < first.details
  else
    first.specificity.1 < second.specificity.1 ||
      (first.specificity.1 == second.specificity.1 && first.specificity.2 < second.specificity.2)

end Directive

/-- Directives in the order in which they were given. -/
abbrev Filter := List Directive

/-- The directive that decides about an event: of those about it, the one to which the others
yield. -/
def Filter.decisive? (filter : Filter) (event : Event) : Option Directive :=
  match filter.filter fun directive => directive.isAbout event with
  | [] => none
  | first :: rest =>
    let better (best directive : Directive) := if best.yields directive then directive else best
    some (rest.foldl better first)

/-- Whether an event is logged. -/
def Filter.admits (filter : Filter) (event : Event) : Bool :=
  (filter.decisive? event).any fun directive => directive.verbosity.admits event.level

/-! ### Directives as they are written -/

/-- Why a text is no directive. -/
inductive DirectiveError where
  | malformed
  | badLevel
  | badValue (cause : Text.PatternError)
deriving DecidableEq

/-- What a person is told. -/
def DirectiveError.message : DirectiveError → String
  | .malformed => "invalid filter directive"
  | .badLevel =>
    "error parsing level filter: expected one of \"off\", \"error\", \"warn\", \"info\", " ++
      "\"debug\", \"trace\", or a number 0-5"
  | .badValue .malformed => "invalid field filter: error building NFA"
  | .badValue .wordBoundary =>
    "invalid field filter: unsupported regex feature for DFAs: cannot build DFAs for regexes " ++
      "with Unicode word boundaries; switch to ASCII word boundaries, or heuristically enable " ++
      "Unicode word boundaries or use a different regex engine"

/-- How much a number asks for. -/
def Verbosity.ofNat? : Nat → Option Verbosity
  | 0 => some .off
  | 1 => some (.least .error)
  | 2 => some (.least .warn)
  | 3 => some (.least .info)
  | 4 => some (.least .debug)
  | 5 => some (.least .trace)
  | _ => none

/-- How much a text asks for: a number, perhaps with a plus sign, or a name in letters of any
case. -/
def Verbosity.ofText? (text : List Char) : Option Verbosity :=
  let digits :=
    match text with
    | '+' :: rest => rest
    | _ => text
  if !digits.isEmpty && digits.all Char.isDigit then
    Verbosity.ofNat? (digits.foldl (fun total digit => total * 10 + (digit.toNat - '0'.toNat)) 0)
  else
    let name := String.ofList (text.map Char.toLower)
    if name = "off" then some .off else (Level.ofName? name).map .least

namespace Directive

/-- What has been read of a directive. A named span or the value of a detail makes it idle. -/
structure Draft where
  source : Option (List Char) := none
  details : List String := []
  isIdle : Bool := false

/-- The directive of a draft; an idle one gives none. -/
def Draft.directive? (draft : Draft) (verbosity : Verbosity) : Option Directive :=
  if draft.isIdle then none
  else some { source := draft.source.map String.ofList, details := draft.details, verbosity }

/-- What a source may start with. -/
def opensSource (char : Char) : Bool :=
  char == '-' || char == ':' || char == '_' || Text.isAlphanumeric char

/-- Reads the level from a place on; without a text there everything is logged. -/
def readLevel (text : List Char) (draft : Draft) (position : Nat) :
    Except DirectiveError (Option Directive) :=
  match Text.dropBytes position text with
  | [] => .ok (draft.directive? (.least .trace))
  | level =>
    match Verbosity.ofText? level with
    | some verbosity => .ok (draft.directive? verbosity)
    | none => .error .badLevel

/-- Reads what stands behind the brackets: nothing, or an equals sign and a level. -/
def readEnd (text : List Char) (draft : Draft) (position : Nat) :
    List Char → Except DirectiveError (Option Directive)
  | [] => .ok (draft.directive? (.least .trace))
  | '=' :: _ => readLevel text draft (position + 1)
  | _ => .error .malformed

/-- Whether a text is a decimal number, perhaps with a point and an exponent. -/
def isDecimal (text : List Char) : Bool :=
  let whole := text.takeWhile Char.isDigit
  let (fraction, rest) :=
    match text.drop whole.length with
    | '.' :: rest => (rest.takeWhile Char.isDigit, rest.dropWhile Char.isDigit)
    | rest => ([], rest)
  let isExponent (digits : List Char) := !digits.isEmpty && digits.all Char.isDigit
  !(whole ++ fraction).isEmpty &&
    match rest with
    | [] => true
    | mark :: '+' :: digits | mark :: '-' :: digits => mark.toLower == 'e' && isExponent digits
    | mark :: digits => mark.toLower == 'e' && isExponent digits

/-- Whether a text is a number with a plus sign. It is a value although it is no pattern; numbers
without the sign are both. -/
def isPlusNumber : List Char → Bool
  | '+' :: rest =>
    isDecimal rest ||
      ["inf", "infinity", "nan"].contains (String.ofList (rest.map Char.toLower))
  | _ => false

/-- Reads a detail: its name, and perhaps an equals sign and a number or a pattern for its value,
which makes the directive idle. What follows a second equals sign does not count. -/
def readDetail (draft : Draft) (written : List Char) : Except DirectiveError Draft :=
  match Text.pieces '=' written with
  | [] | [[]] => .error .malformed
  | [name] => .ok { draft with details := [String.ofList name] }
  | name :: value :: _ =>
    match Text.patternError? value with
    | some cause =>
      if isPlusNumber value then .ok { draft with details := [String.ofList name], isIdle := true }
      else .error (.badValue cause)
    | none => .ok { draft with details := [String.ofList name], isIdle := true }

/-- Reads what is in the brackets, from a place on: the name of a span, and perhaps a detail in
braces. -/
def readSpan (text : List Char) (draft : Draft) (position : Nat) (rest : List Char) :
    Except DirectiveError (Option Directive) :=
  let name := rest.takeWhile fun char => char != ']' && char != '\x7b'
  let stop := position + Text.byteLength name
  match rest.drop name.length with
  | ']' :: rest => readEnd text { draft with isIdle := true } (stop + 1) rest
  | '\x7b' :: rest =>
    let field := rest.takeWhile (· != '\x7d')
    let close := stop + 1 + Text.byteLength field
    let isIdle := !(Text.slice text position stop).isEmpty
    match rest.drop field.length with
    | '\x7d' :: rest => do
      let draft ← readDetail { draft with isIdle } (Text.slice text (stop + 1) close)
      match rest with
      | ']' :: rest => readEnd text draft (close + 2) rest
      | _ => .error .malformed
    | _ => .error .malformed
  | _ => .error .malformed

/-- Reads a directive. The blanks around it are left out when the marks in it are looked for, but
the parts between the marks are taken from the text with its blanks, at the same places in bytes. -/
def read (text : List Char) : Except DirectiveError (Option Directive) :=
  let body := Text.trimmed text
  match body with
  | [] => .error .malformed
  | '[' :: rest => readSpan text {} 1 rest
  | first :: _ =>
    if opensSource first then
      let name := body.takeWhile fun char => char != '=' && char != '['
      let stop := Text.byteLength name
      let draft : Draft := { source := some (Text.slice text 0 stop) }
      match body.drop name.length with
      | '=' :: _ => readLevel text draft (stop + 1)
      | '[' :: rest => readSpan text draft (stop + 1) rest
      | _ =>
        match Verbosity.ofText? text with
        | some verbosity => .ok (some { source := none, details := [], verbosity })
        | none =>
          let source := some (String.ofList text)
          .ok (some { source, details := [], verbosity := .least .trace })
    else .error .malformed

end Directive

/-! ### Filters as they are written -/

/-- The texts between the commas of a text, without the empty ones. -/
def directiveTexts (text : String) : List (List Char) :=
  (Text.pieces ',' text.toList).filter fun piece => !piece.isEmpty

/-- The filter that a text writes. Texts that are no directives are left out. -/
def Filter.ofText (text : String) : Filter :=
  (directiveTexts text).filterMap fun written =>
    match Directive.read written with
    | .ok directive => directive
    | .error _ => none

/-- What a person is told about the texts that are no directives. -/
def Filter.complaints (text : String) : List String :=
  (directiveTexts text).filterMap fun written =>
    match Directive.read written with
    | .ok _ => none
    | .error cause => some ("ignoring `" ++ String.ofList written ++ "`: " ++ cause.message)

end EstreeScopes.Command
