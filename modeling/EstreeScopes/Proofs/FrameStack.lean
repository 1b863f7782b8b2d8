/-
This file says what a chain of frames is after any run of operations on it: a stack
of the lists of names that were declared in each frame, every name at its first
declaration. One operation keeps this, and so does a run.

Frames that are opened and closed leave no trace. As long as a frame is open, the
frames around it are exactly those that it was opened in, so the frame that is
innermost after it is closed is the one that was innermost before it was opened.
-/

import EstreeScopes.Proofs.Environment

namespace EstreeScopes

namespace Env

/-- What can be done to a chain of frames: open a frame inside the innermost one, close the
innermost one, or declare names in it. -/
inductive Operation where
  | push
  | pop
  | declare (name : String)
  | declareAll (names : List String)
deriving DecidableEq

/-- The chain after one operation. The outermost frame is never closed. -/
def step (env : Env) : Operation → Env
  | .push => env.child
  | .pop => env.parent?.getD env
  | .declare name => env.declare name
  | .declareAll names => env.declareAll names

/-- One frame to start from: an empty one, or one with the given names. -/
def opening : Option (List String) → Env
  | none => root
  | some names => ofNames names

/-- The chain after operations one after the other. -/
def run (env : Env) (operations : List Operation) : Env := operations.foldl step env

namespace Operation

/-- The names declared in each open frame, as they were declared and from the inside out, after one
more operation. -/
def record (declared : List (List String)) : Operation → List (List String)
  | .push => [] :: declared
  | .pop =>
    match declared with
    | _ :: outer :: rest => outer :: rest
    | last => last
  | .declare name => declared.modifyHead (· ++ [name])
  | .declareAll names => declared.modifyHead (· ++ names)

/-- How many frames are open inside the outermost one after one more operation. -/
def count (opened : Nat) : Operation → Nat
  | .push => opened + 1
  | .pop => opened - 1
  | .declare _ | .declareAll _ => opened

/-- The names declared in each open frame after operations on one frame with the given names. -/
def declared (names : List String) (operations : List Operation) : List (List String) :=
  operations.foldl record [names]

/-- How many of the frames that operations open are still open at their end. -/
def unpopped (operations : List Operation) : Nat := operations.foldl count 0

end Operation

/-! ### One operation -/

theorem run_append (env : Env) (first second : List Operation) :
    env.run (first ++ second) = (env.run first).run second := List.foldl_append

theorem depth_step (env : Env) (operation : Operation) :
    (env.step operation).depth = operation.count env.depth := by
  obtain ⟨names, outer⟩ := env
  cases operation with
  | pop => cases outer <;> rfl
  | _ => rfl

/-- If the frames hold what was declared in them, they do so after one more operation. -/
theorem frames_step {env : Env} {declared : List (List String)}
    (tracked : env.frames = declared.map List.eraseDups) (operation : Operation) :
    (env.step operation).frames = (operation.record declared).map List.eraseDups := by
  obtain ⟨names, outer⟩ := env
  match declared, tracked with
  | first :: rest, tracked =>
    obtain ⟨rfl, rfl⟩ := List.cons.inj tracked
    cases operation with
    | push => rfl
    | pop => cases rest <;> rfl
    | declare name => exact congrArg (· :: _) (addNames_eraseDups first [name])
    | declareAll more => exact congrArg (· :: _) (addNames_eraseDups first more)

/-- While a frame is open, an operation leaves the frames around it as they were. -/
theorem outer_step {env around : Env} (inside : around.frames <:+ env.outer) {operation : Operation}
    (stays : around.depth < (env.step operation).depth) :
    around.frames <:+ (env.step operation).outer := by
  obtain ⟨names, outer⟩ := env
  cases operation with
  | push => exact inside.trans (List.suffix_cons names outer)
  | declare name => exact inside
  | declareAll more => exact inside
  | pop =>
    cases outer with
    | nil => exact inside
    | cons enclosing rest =>
      refine (List.suffix_cons_iff.mp inside).resolve_left fun whole => ?_
      -- Otherwise the frame that is closed stands directly inside, and no frame is left there.
      have length : around.outer.length + 1 = rest.length + 1 := congrArg List.length whole
      exact absurd stays (by simp [step, parent?, depth]; omega)

/-! ### Runs -/

theorem frames_run {env : Env} {declared : List (List String)}
    (tracked : env.frames = declared.map List.eraseDups) (operations : List Operation) :
    (env.run operations).frames =
      (operations.foldl Operation.record declared).map List.eraseDups := by
  induction operations generalizing env declared with
  | nil => exact tracked
  | cons operation rest inductionHypothesis =>
    exact inductionHypothesis (frames_step tracked operation)

theorem depth_run (env : Env) (operations : List Operation) :
    (env.run operations).depth = operations.foldl Operation.count env.depth := by
  induction operations generalizing env with
  | nil => rfl
  | cons operation rest inductionHypothesis =>
    rw [run, List.foldl_cons, ← run, inductionHypothesis, depth_step, List.foldl_cons]

/-- As long as no operation closes a frame, the frames around it are those that it was opened in. -/
theorem outer_run {env around : Env} (inside : around.frames <:+ env.outer)
    (operations : List Operation)
    (stays : ∀ early, early <+: operations → around.depth < (env.run early).depth) :
    around.frames <:+ (env.run operations).outer := by
  induction operations generalizing env with
  | nil => exact inside
  | cons operation rest inductionHypothesis =>
    refine inductionHypothesis (outer_step inside ?_) fun early leads => ?_
    · exact stays [operation] (List.prefix_append [operation] rest)
    · exact stays (operation :: early) (List.cons_prefix_cons.mpr ⟨rfl, leads⟩)

/-- A chain with one frame more than another, and with the frames of the other around its own, is a
frame inside the other. -/
theorem parent?_of_suffix {env around : Env} (inside : around.frames <:+ env.outer)
    (deeper : env.depth = around.depth + 1) : env.parent? = some around := by
  obtain ⟨names, outer⟩ := env
  have same : around.frames = outer := inside.eq_of_length deeper.symm
  obtain ⟨enclosing, rest⟩ := around
  subst same
  rfl

theorem visible_eq (env : Env) : env.visible = env.frames.flatten.eraseDups :=
  addNames_eq_eraseDups List.nodup_nil _

theorem mem_visible {env : Env} {name : String} :
    name ∈ env.visible ↔ ∃ frame ∈ env.frames, name ∈ frame := by
  rw [visible, mem_addNames, List.mem_flatten]
  exact or_iff_right List.not_mem_nil

/-- After any operations on one frame, which is empty or has names of its own, a chain is a stack of
lists of names. The frames that are open hold what was declared in them, each name once and at its
first declaration; the depth counts the frames that were opened and are not yet closed; the visible
names are those of all frames, the innermost first, each at its first occurrence; and a name is
visible if and only if some frame declares it. If a frame is then opened, the frames around it stay
as they are until it is closed, and closing it leads back to the very same chain. -/
theorem chain_is_stack_of_names (start : Option (List String)) (operations : List Operation) :
    let env := (opening start).run operations
    env.frames = (Operation.declared (start.getD []) operations).map List.eraseDups ∧
      (∀ frame ∈ env.frames, frame.Nodup) ∧
      env.depth = Operation.unpopped operations ∧
      env.visible.Nodup ∧
      env.visible = env.frames.flatten.eraseDups ∧
      (∀ name, env.contains name = true ↔ name ∈ env.visible) ∧
      (∀ name, env.contains name = true ↔ ∃ frame ∈ env.frames, name ∈ frame) ∧
      ∀ inner : List Operation,
        (∀ early, early <+: inner → env.depth < (env.child.run early).depth) →
          env.frames <:+ (env.child.run inner).outer ∧
          ((env.child.run inner).depth = env.depth + 1 →
            env.run (.push :: inner ++ [.pop]) = env) := by
  intro env
  have first : (opening start).frames = [start.getD []].map List.eraseDups := by
    cases start with
    | none => rfl
    | some names =>
      exact congrArg (fun frame => [frame]) (addNames_eq_eraseDups List.nodup_nil names)
  have frames : env.frames = (Operation.declared (start.getD []) operations).map List.eraseDups :=
    frames_run first operations
  have opened : (opening start).depth = 0 := by cases start <;> rfl
  have contained (name : String) :
      env.contains name = true ↔ ∃ frame ∈ env.frames, name ∈ frame := by
    simp [contains]
  refine ⟨frames, ?_, ?_, nodup_addNames List.nodup_nil _, visible_eq env,
    fun name => (contained name).trans mem_visible.symm, contained, fun inner stays => ?_⟩
  · intro frame member
    rw [frames] at member
    obtain ⟨names, _, rfl⟩ := List.mem_map.mp member
    rw [← List.nil_append names, ← addNames_eq_eraseDups List.nodup_nil]
    exact nodup_addNames List.nodup_nil names
  · rw [Operation.unpopped, ← opened]
    exact depth_run _ operations
  · have inside : env.frames <:+ (env.child.run inner).outer :=
      outer_run (List.suffix_refl _) inner stays
    refine ⟨inside, fun deeper => ?_⟩
    rw [run_append]
    show ((env.child.run inner).parent?).getD (env.child.run inner) = env
    rw [parent?_of_suffix inside deeper, Option.getD_some]

/-- A chain with repeats in one frame and across frames, in which a frame was closed. -/
def shadowing : List Operation :=
  [ .push, .declare "w", .pop, .push, .declareAll ["y", "z", "y"], .declare "x", .push,
    .declare "z" ]

/-- What is done in one more frame: two names are declared, one of them in a frame of its own. -/
def visit : List Operation := [.declare "v", .push, .declare "x", .pop]

theorem shadowing_is_stack_of_names :
    let env := (opening (some ["x", "y", "x"])).run shadowing
    env.frames = [["z"], ["y", "z", "x"], ["x", "y"]] ∧ env.depth = 2 ∧
      env.visible = ["z", "y", "x"] ∧ env.contains "w" = false ∧
      env.run (.push :: visit ++ [.pop]) = env := by
  intro env
  obtain ⟨frames, _, depth, _, visible, contained, _, closing⟩ :=
    chain_is_stack_of_names (some ["x", "y", "x"]) shadowing
  have stacked : env.frames = [["z"], ["y", "z", "x"], ["x", "y"]] := by
    rw [frames]
    decide
  have listed : env.visible = ["z", "y", "x"] := by
    rw [visible, stacked]
    decide
  refine ⟨stacked, depth, listed, ?_, ?_⟩
  · rw [Bool.eq_false_iff, ne_eq, contained, listed]
    decide
  · have stays : ∀ early ∈ visit.inits, env.depth < (env.child.run early).depth := by decide
    have inside := closing visit fun early leads => stays early ((List.mem_inits _ _).mpr leads)
    exact inside.2 (by decide)

end Env

end EstreeScopes
