/-
This file says what a walk leaves behind: a log of its steps and an outcome. The
log is kept when the walk fails, and ends with the last step before the fault. A
run is a monad: a second run follows a first one that succeeded, and its steps
are added to the log.
-/

import EstreeScopes.Env
import EstreeScopes.Node
import EstreeScopes.Rule

namespace EstreeScopes

/-- Why a walk fails: a slot does not hold what the rule of its node asks for, a transform refused
its node, or the visits nested beyond the budget of the walk. -/
inductive Fault where
  | malformed (kind : Kind) (slot : Slot)
  | refused (reason : String)
  | exhausted
deriving DecidableEq

namespace Fault

/-- What a person is told. -/
def message : Fault → String
  | .malformed kind slot =>
    let expected :=
      match slot.arity with
      | .node => "a node or null"
      | .list => "a list of nodes"
    "Malformed `" ++ kind.name ++ "` node: slot '" ++ slot.name ++ "' should hold " ++ expected
  | .refused reason => reason
  | .exhausted => "the walk nests too deeply"

end Fault

/-- A step of a walk: a node is handed to a transform under an environment, or the body of a scope
is entered with the names its frame then holds. -/
inductive Step where
  | intercepted (env : Env) (node : Node)
  | entered (kind : Kind) (names : List String)

/-- The steps of a walk and how it ended. -/
structure Run (α : Type) where
  log : List Step
  outcome : Except Fault α

namespace Run

variable {α β γ : Type}

/-- A run without steps that gives a value. -/
def done (value : α) : Run α := { log := [], outcome := .ok value }

/-- A run without steps that fails. -/
def fail (fault : Fault) : Run α := { log := [], outcome := .error fault }

/-- A run of one step. -/
def record (step : Step) : Run Unit := { log := [step], outcome := .ok () }

/-- A run, and after it, unless it failed, a run that depends on its value. -/
def andThen (first : Run α) (next : α → Run β) : Run β :=
  match first.outcome with
  | .ok value => { log := first.log ++ (next value).log, outcome := (next value).outcome }
  | .error fault => { log := first.log, outcome := .error fault }

instance : Monad Run where
  pure := done
  bind := andThen

theorem pure_def (value : α) : (pure value : Run α) = done value := rfl

theorem bind_def (first : Run α) (next : α → Run β) : first >>= next = andThen first next := rfl

theorem done_andThen (value : α) (next : α → Run β) : (done value).andThen next = next value := by
  simp [done, andThen]

theorem andThen_done (run : Run α) : run.andThen done = run := by
  obtain ⟨log, outcome⟩ := run
  cases outcome <;> simp [done, andThen]

theorem fail_andThen (fault : Fault) (next : α → Run β) :
    (fail fault).andThen next = fail fault := by
  simp [fail, andThen]

theorem andThen_assoc (first : Run α) (second : α → Run β) (third : β → Run γ) :
    (first.andThen second).andThen third =
      first.andThen fun value => (second value).andThen third := by
  obtain ⟨log, outcome⟩ := first
  cases outcome with
  | error fault => rfl
  | ok value =>
    simp only [andThen]
    cases (second value).outcome <;> simp [List.append_assoc]

instance : LawfulMonad Run :=
  LawfulMonad.mk' Run andThen_done done_andThen andThen_assoc

end Run

end EstreeScopes
