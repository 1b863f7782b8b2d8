/-
This file has the laws of names and frames that statements about walks rest on.
Adding names to a list keeps it free of repeats and adds nothing that is there
already: the new names come last, each at its first occurrence. A name is visible
in an environment after names are declared in it if it was visible before or is
one of them. Frames that are opened one inside the other are all there, each with
its own names.
-/

import EstreeScopes.Env
import Mathlib

namespace EstreeScopes

/-! ### Adding names -/

theorem mem_addName {names : List String} {name other : String} :
    other ∈ addName names name ↔ other ∈ names ∨ other = name := by
  rw [addName]
  split
  · rename_i present
    exact ⟨Or.inl, fun either => either.elim id fun equal => equal ▸ present⟩
  · rw [List.mem_append, List.mem_singleton]

theorem mem_addNames {names more : List String} {name : String} :
    name ∈ addNames names more ↔ name ∈ names ∨ name ∈ more := by
  induction more generalizing names with
  | nil => exact ⟨Or.inl, fun either => either.elim id fun absent => absurd absent List.not_mem_nil⟩
  | cons first rest inductionHypothesis =>
    rw [addNames, List.foldl_cons, ← addNames, inductionHypothesis, mem_addName, List.mem_cons,
      or_assoc]

theorem addNames_append (names first second : List String) :
    addNames names (first ++ second) = addNames (addNames names first) second :=
  List.foldl_append

/-- Adding names leaves no repeats. -/
theorem nodup_addNames {names : List String} (distinct : names.Nodup) (more : List String) :
    (addNames names more).Nodup := by
  induction more generalizing names with
  | nil => exact distinct
  | cons first rest inductionHypothesis =>
    rw [addNames, List.foldl_cons]
    refine inductionHypothesis ?_
    rw [addName]
    split
    · exact distinct
    · rename_i fresh
      exact distinct.append (List.nodup_singleton first) (List.disjoint_singleton.mpr fresh)

/-- Adding names that are all there changes nothing. -/
theorem addNames_of_subset {names more : List String} (present : more ⊆ names) :
    addNames names more = names := by
  induction more with
  | nil => rfl
  | cons first rest inductionHypothesis =>
    obtain ⟨head, tail⟩ := List.cons_subset.mp present
    rw [addNames, List.foldl_cons, addName, if_pos head]
    exact inductionHypothesis tail

/-- A list without repeats loses nothing when repeats are dropped. -/
theorem eraseDups_of_nodup {names : List String} (distinct : names.Nodup) :
    names.eraseDups = names := by
  induction distinct with
  | nil => rfl
  | @cons first rest fresh _ inductionHypothesis =>
    have kept : rest.filter (fun other => !other == first) = rest :=
      List.filter_eq_self.mpr fun other member => by simpa using (fresh other member).symm
    rw [List.eraseDups_cons, kept, inductionHypothesis]

/-- Adding names puts those that are new behind the names that are there, each at its first
occurrence. -/
theorem addNames_eq_append (names more : List String) :
    addNames names more = names ++ (more.removeAll names).eraseDups := by
  induction more generalizing names with
  | nil => simp [addNames, List.removeAll]
  | cons first rest inductionHypothesis =>
    rw [addNames, List.foldl_cons, ← addNames, inductionHypothesis, addName]
    by_cases present : first ∈ names
    · rw [if_pos present, List.cons_removeAll]
      simp [present]
    · have remaining : rest.removeAll (names ++ [first]) =
          (rest.removeAll names).filter fun other => !other == first := by
        rw [List.removeAll, List.removeAll, List.filter_filter]
        congr 1
        funext other
        simp [beq_eq_decide, Bool.and_comm]
      rw [if_neg present, List.cons_removeAll, remaining]
      simp [present, List.eraseDups_cons]

/-- Adding names to a list without repeats drops the later occurrences of a name. -/
theorem addNames_eq_eraseDups {names : List String} (distinct : names.Nodup) (more : List String) :
    addNames names more = (names ++ more).eraseDups := by
  rw [addNames_eq_append, List.eraseDups_append, eraseDups_of_nodup distinct]

/-- Names that are added to names without repeats are as if all had been declared in turn. -/
theorem addNames_eraseDups (names more : List String) :
    addNames names.eraseDups more = (names ++ more).eraseDups := by
  have declared (all : List String) : all.eraseDups = addNames [] all :=
    (addNames_eq_eraseDups List.nodup_nil all).symm
  rw [declared, declared, addNames_append]

theorem nodup_eraseDups (names : List String) : names.eraseDups.Nodup := by
  rw [← List.nil_append names, ← addNames_eq_eraseDups List.nodup_nil]
  exact nodup_addNames List.nodup_nil names

/-! ### Visible names -/

namespace Env

@[simp]
theorem declareAll_nil (env : Env) : env.declareAll [] = env := rfl

/-- Declaring names that the frame has already changes nothing. -/
theorem declareAll_of_subset {env : Env} {names : List String} (present : names ⊆ env.names) :
    env.declareAll names = env := by
  rw [declareAll, addNames_of_subset present]

theorem contains_iff {env : Env} {name : String} :
    env.contains name = true ↔ name ∈ env.names ∨ ∃ frame ∈ env.outer, name ∈ frame := by
  simp [contains, frames]

theorem contains_declareAll {env : Env} {names : List String} {name : String} :
    (env.declareAll names).contains name = true ↔ env.contains name = true ∨ name ∈ names := by
  rw [contains_iff, contains_iff, declareAll_outer, declareAll, mem_addNames, or_right_comm]

/-! ### Frames inside one another -/

/-- An environment with more frames inside, given from the outside in. -/
def extend (env : Env) (frames : List (List String)) : Env :=
  frames.foldl (fun env names => env.child.declareAll names) env

/-- The frames of an extended environment are the new ones, from the inside out, and then those that
were there. -/
theorem frames_extend (env : Env) (inner : List (List String)) :
    (env.extend inner).frames = (inner.map (addNames [])).reverse ++ env.frames := by
  induction inner generalizing env with
  | nil => rfl
  | cons names rest inductionHypothesis =>
    rw [extend, List.foldl_cons, ← extend, inductionHypothesis, List.map_cons, List.reverse_cons,
      List.append_assoc]
    rfl

end Env

end EstreeScopes
