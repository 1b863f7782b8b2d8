/-
This file gives the lexical environments: a chain of frames, each with the names
that one scope declares. A frame keeps a name once, at its first declaration, and
a look-up goes on to the enclosing frames. Environments are values, so declaring
a name in a frame leaves every enclosing frame as it was.
-/

namespace EstreeScopes

/-- A list of names with one more, unless it is there already. -/
def addName (names : List String) (name : String) : List String :=
  if name ∈ names then names else names ++ [name]

/-- A list of names with more names, each kept at its first occurrence. -/
def addNames (names more : List String) : List String :=
  more.foldl addName names

/-- A chain of frames: the names of the innermost one, and those of the enclosing frames from the
inside out. -/
structure Env where
  names : List String
  outer : List (List String)
deriving DecidableEq

namespace Env

/-- One empty frame. -/
def root : Env := { names := [], outer := [] }

/-- A new empty frame inside this one. -/
def child (env : Env) : Env := { names := [], outer := env.names :: env.outer }

/-- Declares a name in the innermost frame. -/
def declare (env : Env) (name : String) : Env :=
  { env with names := addName env.names name }

/-- Declares names in the innermost frame, in order. -/
def declareAll (env : Env) (names : List String) : Env :=
  { env with names := addNames env.names names }

/-- One frame with the given names. -/
def ofNames (names : List String) : Env := root.declareAll names

/-- The frames, from the inside out. -/
def frames (env : Env) : List (List String) := env.names :: env.outer

/-- Whether the innermost frame declares a name. -/
def declares (env : Env) (name : String) : Bool := env.names.contains name

/-- Whether a name is visible: some frame declares it. -/
def contains (env : Env) (name : String) : Bool :=
  env.frames.any fun frame => frame.contains name

/-- The environment without its innermost frame. -/
def parent? (env : Env) : Option Env :=
  match env.outer with
  | [] => none
  | names :: outer => some { names, outer }

/-- How many frames enclose the innermost one. -/
def depth (env : Env) : Nat := env.outer.length

/-- Every visible name once, those of inner frames first. -/
def visible (env : Env) : List String := addNames [] env.frames.flatten

/-- The environment of the given frames, from the outside in; no frames are one empty frame. -/
def ofFrames : List (List String) → Env
  | [] => root
  | first :: rest => rest.foldl (fun env names => env.child.declareAll names) (ofNames first)

/-! ### The view as frames -/

@[simp]
theorem declare_outer (env : Env) (name : String) : (env.declare name).outer = env.outer := rfl

@[simp]
theorem declareAll_outer (env : Env) (names : List String) :
    (env.declareAll names).outer = env.outer := rfl

@[simp]
theorem parent?_child (env : Env) : env.child.parent? = some env := rfl

theorem declareAll_append (env : Env) (first second : List String) :
    env.declareAll (first ++ second) = (env.declareAll first).declareAll second := by
  simp [declareAll, addNames, List.foldl_append]

end Env

end EstreeScopes
