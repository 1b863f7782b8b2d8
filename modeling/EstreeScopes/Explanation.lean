/-
This file gives the explanations in messages about texts that are refused. The
reader of documents and the reader of configurations tell in words of their own
why they refuse a text. These words come from outside, and need not be known.
-/

namespace EstreeScopes

/-- What the readers tell about texts that they refuse, where their words are known. -/
structure Explanations where
  ofDocument : String → Option String := fun _ => none
  ofConfig : String → Option String := fun _ => none

/-- A message with the explanation behind it. -/
def explained (message : String) (explanation : Option String) : String :=
  match explanation with
  | some words => message ++ ": " ++ words
  | none => message

end EstreeScopes
