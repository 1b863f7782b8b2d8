/-
This file reads the arguments of a run. Options may stand anywhere; those about
the log may stand before the command or after it, once in each place, and what
stands after it counts. Two dashes end the options. An argument that is no
option is the command, and after it the path. Arguments are taken from left to
right, so a question for the version is answered when it is reached, whatever
follows.
-/

namespace EstreeScopes.Command

/-- How much is logged, from the most to the least. -/
inductive Level where
  | trace
  | debug
  | info
  | warn
  | error
deriving DecidableEq

/-- How a report is written. -/
inductive Format where
  | pretty
  | json
deriving DecidableEq

/-- What is asked for. -/
inductive Action where
  | scopes
  | free
deriving DecidableEq

/-- The options of a run. -/
structure Options where
  action : Action
  path : String
  format : Format
  globals : List String
  failOnFree : Bool
  noColor : Bool
  logLevel : Level
  logFile : Option String
  logJson : Bool
deriving DecidableEq

/-- What the arguments ask for: the version, an explanation, or a run. -/
inductive Request where
  | version
  | help
  | run (options : Options)
deriving DecidableEq

/-! ### Options as they are met -/

/-- The options met so far at one place: before the command, or after it. -/
structure Draft where
  path : Option String := none
  format : Option Format := none
  globals : List String := []
  failOnFree : Bool := false
  noColor : Bool := false
  logLevel : Option Level := none
  logFile : Option String := none
  logJson : Bool := false

/-- The level of a name. -/
def Level.ofName? : String → Option Level
  | "trace" => some .trace
  | "debug" => some .debug
  | "info" => some .info
  | "warn" => some .warn
  | "error" => some .error
  | _ => none

/-- The format of a name. -/
def Format.ofName? : String → Option Format
  | "pretty" => some .pretty
  | "json" => some .json
  | _ => none

/-- The command of a name. -/
def Action.ofName? : String → Option Action
  | "scopes" => some .scopes
  | "free" => some .free
  | _ => none

/-- What an option does: it asks for the version or an explanation, it stands alone, or it takes a
value. An option that may be given once fails the second time, and a value may not fit. -/
inductive Switch where
  | version
  | help
  | alone (mark : Draft → Option Draft)
  | valued (store : String → Draft → Option Draft)

namespace Switch

/-- The level of the log. -/
def logLevel : Switch := .valued fun value draft => do
  let level ← Level.ofName? value
  if draft.logLevel.isSome then none else return { draft with logLevel := level }

/-- The file of the log. -/
def logFile : Switch := .valued fun value draft =>
  if value = "" || draft.logFile.isSome then none else some { draft with logFile := value }

/-- The log as documents. -/
def logJson : Switch := .alone fun draft =>
  if draft.logJson then none else some { draft with logJson := true }

/-- The format of the report. -/
def format : Switch := .valued fun value draft => do
  let format ← Format.ofName? value
  if draft.format.isSome then none else return { draft with format := format }

/-- No colours. -/
def noColor : Switch := .alone fun draft =>
  if draft.noColor then none else some { draft with noColor := true }

/-- One more name that counts as declared. -/
def globalName : Switch := .valued fun value draft =>
  some { draft with globals := draft.globals ++ [value] }

/-- Free references fail the run. -/
def fail : Switch := .alone fun draft =>
  if draft.failOnFree then none else some { draft with failOnFree := true }

end Switch

/-- The option of a long name, before the command or after it. -/
def longSwitch? (action : Option Action) (name : String) : Option Switch :=
  match name, action with
  | "log-level", _ => some .logLevel
  | "log-file", _ => some .logFile
  | "log-json", _ => some .logJson
  | "help", _ => some .help
  | "version", none => some .version
  | "format", some _ => some .format
  | "no-color", some _ => some .noColor
  | "global", some .free => some .globalName
  | "fail", some .free => some .fail
  | _, _ => none

/-- The option of a short name, before the command or after it. -/
def shortSwitch? (action : Option Action) (name : Char) : Option Switch :=
  match name, action with
  | 'h', _ => some .help
  | 'V', none => some .version
  | 'f', some _ => some .format
  | _, _ => none

/-! ### Arguments -/

/-- An argument: the end of the options, an option with the value that is attached to it, or a
word. -/
inductive Argument where
  | endOfOptions
  | long (name : String) (value : Option String)
  | short (name : Char) (value : Option String)
  | word (text : String)
deriving DecidableEq

/-- The value behind an equals sign. -/
def afterEquals : List Char → Option String
  | '=' :: rest => some (String.ofList rest)
  | _ => none

/-- The argument that a text is. A single dash is a word. -/
def Argument.ofText (text : String) : Argument :=
  match text.toList with
  | ['-', '-'] => .endOfOptions
  | '-' :: '-' :: rest =>
    .long (String.ofList (rest.takeWhile (· != '='))) (afterEquals (rest.dropWhile (· != '=')))
  | ['-', name] => .short name none
  | '-' :: name :: rest => .short name (some ((afterEquals rest).getD (String.ofList rest)))
  | _ => .word text

/-- The value of an option: the one attached to it, or the next argument if that is a word. -/
def takeValue? (attached : Option String) (rest : List String) : Option (String × Bool) :=
  match attached, rest with
  | some value, _ => some (value, false)
  | none, next :: _ =>
    match Argument.ofText next with
    | .word value => some (value, true)
    | _ => none
  | none, [] => none

/-- The path that a word gives; there is one path, and it is not empty. -/
def Draft.withPath? (draft : Draft) (word : String) : Option Draft :=
  if word = "" || draft.path.isSome then none else some { draft with path := word }

/-- The command that asks for an explanation. -/
def helpName : String := "help"

/-- What an explanation can be asked for: everything, or one command. -/
def isHelpTopic : List String → Bool
  | [] => true
  | [name] => name == helpName || (Action.ofName? name).isSome
  | _ => false

/-- What was met at one place: a question, or the options and, before the command, what follows
it. -/
inductive Met where
  | version
  | help
  | command (draft : Draft) (action : Action) (rest : List String)
  | done (draft : Draft)

/-- Takes arguments from left to right: before the command up to it, after it up to the end. The
flag says that the next text has been taken as a value. A question by its long name takes no value;
by its short name it is answered before what is attached to it is looked at. -/
def meet? (action : Option Action) : Bool → Draft → List String → Option Met
  | _, draft, [] => some (.done draft)
  | true, draft, _ :: rest => meet? action false draft rest
  | false, draft, text :: rest =>
    let apply (switch : Option Switch) (attached : Option String) (question : Bool) : Option Met :=
      match switch with
      | none => none
      | some .version => if question then some .version else none
      | some .help => if question then some .help else none
      | some (.alone mark) =>
        if attached.isSome then none
        else (mark draft).bind fun draft => meet? action false draft rest
      | some (.valued store) =>
        (takeValue? attached rest).bind fun (value, taken) =>
          (store value draft).bind fun draft => meet? action taken draft rest
    match Argument.ofText text with
    | .long name value => apply (longSwitch? action name) value value.isNone
    | .short name value => apply (shortSwitch? action name) value true
    | .endOfOptions =>
      match action with
      | none => none
      | some _ => (rest.foldlM Draft.withPath? draft).map .done
    | .word word =>
      match action with
      | some _ => (draft.withPath? word).bind fun draft => meet? action false draft rest
      | none =>
        if word = helpName then if isHelpTopic rest then some .help else none
        else (Action.ofName? word).map fun action => .command draft action rest

/-- The request that the arguments make. There is none if they are not understood. -/
def Request.ofArguments? (arguments : List String) : Option Request :=
  match meet? none false {} arguments with
  | none | some (.done _) => none
  | some .version => some .version
  | some .help => some .help
  | some (.command before action rest) =>
    match meet? (some action) false {} rest with
    | none | some (.command _ _ _) => none
    | some .version => some .version
    | some .help => some .help
    | some (.done draft) =>
      draft.path.map fun path =>
        .run
          { action, path,
            format := draft.format.getD .pretty,
            globals := draft.globals,
            failOnFree := draft.failOnFree,
            noColor := draft.noColor,
            logLevel := (draft.logLevel.or before.logLevel).getD .warn,
            logFile := draft.logFile.or before.logFile,
            logJson := draft.logJson || before.logJson }

end EstreeScopes.Command
