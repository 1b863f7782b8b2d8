/-
This file gives the components of paths. A path that starts at the root has the
empty component first; a point counts only where it opens the path. Going to the
parent drops the last component and keeps a piece of the text from its start, and
putting a name below a path adds a component. So a path has only so many parents.
-/

import EstreeScopes.Files.Path
import Mathlib

namespace EstreeScopes.Path

/-! ### Void segments -/

/-- Whether a segment is a component wherever it stands. -/
def isSolid (segment : FileName) : Bool := !isVoid segment

theorem trimEnd_concat (segments : List FileName) {name : FileName} (solid : isSolid name = true) :
    trimEnd (segments ++ [name]) = segments ++ [name] := by
  have stops : ¬ isVoid name = true := by simpa [isSolid] using solid
  rw [trimEnd, List.reverse_concat, List.dropWhile_cons_of_neg stops, ← List.reverse_concat,
    List.reverse_reverse]

/-- What is trimmed off is void. -/
theorem trimEnd_append (segments : List FileName) :
    ∃ voids, trimEnd segments ++ voids = segments ∧ ∀ segment ∈ voids, isVoid segment = true := by
  refine ⟨(segments.reverse.takeWhile isVoid).reverse, ?_, fun segment member => ?_⟩
  · rw [trimEnd, ← List.reverse_append, List.takeWhile_append_dropWhile, List.reverse_reverse]
  · exact List.mem_takeWhile_imp (List.mem_reverse.mp member)

theorem trimEnd_isPrefix (segments : List FileName) : trimEnd segments <+: segments :=
  (trimEnd_append segments).imp fun _ parts => parts.1

theorem filter_trimEnd (segments : List FileName) :
    (trimEnd segments).filter isSolid = segments.filter isSolid := by
  obtain ⟨voids, parts, void⟩ := trimEnd_append segments
  have none : voids.filter isSolid = [] :=
    List.filter_eq_nil_iff.mpr fun segment member => by simp [isSolid, void segment member]
  nth_rewrite 2 [← parts]
  rw [List.filter_append, none, List.append_nil]

/-- A trimmed list that is not empty ends in a component. -/
theorem trimEnd_eq_concat {segments : List FileName} (some : trimEnd segments ≠ []) :
    ∃ front last, trimEnd segments = front ++ [last] ∧ isSolid last = true := by
  have stops := List.head?_dropWhile_not isVoid segments.reverse
  rw [trimEnd] at some ⊢
  match segments.reverse.dropWhile isVoid, some, stops with
  | last :: front, _, stops => 
    exact ⟨front.reverse, last, List.reverse_cons, by simpa [isSolid] using stops⟩

/-! ### Components -/

/-- The components of a path. The empty path has none. -/
def components (path : Path) : List FileName :=
  match path.segments with
  | [] => []
  | head :: body => if head = .empty ∧ body = [] then [] else head :: body.filter isSolid

theorem components_cons {head : FileName} {body : List FileName}
    (some : ¬ (head = .empty ∧ body = [])) :
    components { segments := head :: body } = head :: body.filter isSolid := if_neg some

theorem length_components_le (path : Path) :
    path.components.length ≤ path.segments.length := by
  obtain ⟨segments⟩ := path
  cases segments with
  | nil => exact Nat.zero_le _
  | cons head body =>
    by_cases nothing : head = .empty ∧ body = []
    · rw [show components { segments := head :: body } = [] from if_pos nothing]
      exact Nat.zero_le _
    · rw [components_cons nothing]
      exact Nat.succ_le_succ (List.length_filter_le _ _)

/-- The parent has all components but the last. -/
theorem components_of_parent? {path parent : Path} (up : path.parent? = some parent) :
    ∃ last, path.components = parent.components ++ [last] ∧ path.components ≠ [.empty] := by
  obtain ⟨segments⟩ := path
  cases segments with
  | nil => cases up
  | cons head body =>
    rw [parent?] at up
    dsimp only at up
    have solid := filter_trimEnd body
    split at up
    · rename_i none
      split at up
      · cases up
      · rename_i given
        cases up
        rw [components_cons fun equal => given equal.1, ← solid, none]
        exact ⟨head, rfl, by simpa using given⟩
    · rename_i some
      obtain ⟨front, last, parts, lastSolid⟩ := trimEnd_eq_concat some
      have bodied : body ≠ [] := by
        rintro rfl
        exact some rfl
      have trimmed := filter_trimEnd front
      rw [components_cons fun equal => bodied equal.2, ← solid, parts, List.filter_append,
        List.filter_singleton, lastSolid, ← trimmed]
      rw [parts, List.dropLast_concat] at up
      refine ⟨last, ?_, by simp⟩
      split_ifs at up with rooted
      · cases up
        obtain ⟨rfl, alone⟩ := rooted
        rw [alone]
        rfl
      · cases up
        rw [components_cons rooted]
        rfl

/-- The empty path and the root have no parent, however they are written. -/
theorem parent?_eq_none_iff {path : Path} :
    path.parent? = none ↔ path.components = [] ∨ path.components = [.empty] := by
  constructor
  · intro top
    obtain ⟨segments⟩ := path
    cases segments with
    | nil => exact Or.inl rfl
    | cons head body =>
      rw [parent?] at top
      dsimp only at top
      split at top
      · rename_i none
        split at top
        · rename_i rooted
          by_cases nothing : head = .empty ∧ body = []
          · exact Or.inl (if_pos nothing)
          · rw [components_cons nothing, ← filter_trimEnd, none, rooted]
            exact Or.inr rfl
        · cases top
      · split at top <;> cases top
  · intro few
    cases up : path.parent? with
    | none => rfl
    | some parent =>
      obtain ⟨last, parts, notRoot⟩ := components_of_parent? up
      rcases few with none | root
      · exact absurd (parts.symm.trans none) (List.concat_ne_nil last _)
      · exact absurd root notRoot

/-! ### Names below a path -/

/-- The segments of a path in front of what is put below it: an empty last segment does not
count. -/
def lead (path : Path) : List FileName :=
  if path.segments.getLast? = some .empty then path.segments.dropLast else path.segments

theorem child_eq (path : Path) (name : FileName) :
    path.child name = { segments := path.lead ++ [name] } := by
  rw [child, lead]
  split <;> rfl

theorem lead_child (path : Path) {name : FileName} (given : name ≠ .empty) :
    (path.child name).lead = path.lead ++ [name] := by
  rw [child_eq, lead, List.getLast?_concat, if_neg fun equal => given (Option.some.inj equal)]

theorem lead_concat (front : List FileName) (last : FileName) :
    lead { segments := front ++ [last] } = if last = .empty then front else front ++ [last] := by
  simp only [lead, List.getLast?_concat, List.dropLast_concat, Option.some.injEq]

theorem components_concat (head : FileName) (body : List FileName) {name : FileName}
    (solid : isSolid name = true) :
    components { segments := head :: (body ++ [name]) } =
      head :: (body.filter isSolid ++ [name]) := by
  rw [components_cons (by simp), List.filter_append, List.filter_singleton, solid]
  rfl

theorem components_child (path : Path) {name : FileName} (solid : isSolid name = true) :
    (path.child name).components = path.components ++ [name] := by
  have given : name ≠ .empty := by
    rintro rfl
    cases solid
  have alone : components { segments := [name] } = [name] :=
    components_cons fun equal => given equal.1
  obtain ⟨segments⟩ := path
  rw [child_eq]
  cases segments using List.reverseRecOn with
  | nil => exact alone
  | append_singleton front last =>
    rw [lead_concat]
    by_cases closed : last = .empty
    · rw [if_pos closed, closed]
      cases front with
      | nil => exact alone
      | cons head body =>
        rw [List.cons_append, components_concat head body solid, List.cons_append,
          components_cons (by simp), List.filter_append]
        simp [isSolid, isVoid]
    · rw [if_neg closed]
      cases front with
      | nil => simp [components, closed, solid]
      | cons head body =>
        rw [List.cons_append, List.cons_append, components_concat head _ solid,
          components_cons (by simp), List.cons_append]

/-! ### Texts -/

theorem intercalate_prefix {separator : List Char} {first second : List (List Char)}
    (leads : first <+: second) (some : first ≠ []) :
    separator.intercalate first <+: separator.intercalate second := by
  induction first generalizing second with
  | nil => exact absurd rfl some
  | cons piece rest inductionHypothesis =>
    obtain ⟨more, rfl⟩ := leads
    cases rest with
    | nil =>
      cases more with
      | nil => exact List.prefix_refl _
      | cons next others =>
        rw [List.cons_append, List.nil_append, List.intercalate_cons_cons, List.append_assoc]
        simp
    | cons next others =>
      rw [List.cons_append, List.cons_append, List.intercalate_cons_cons,
        List.intercalate_cons_cons, List.prefix_append_right_inj]
      exact inductionHypothesis (List.prefix_append _ _) (List.cons_ne_nil _ _)

theorem text_prefix {first second : Path} (leads : first.segments <+: second.segments)
    (some : first.segments ≠ []) : first.text.toList <+: second.text.toList := by
  rw [text, text, String.toList_intercalate, String.toList_intercalate]
  exact intercalate_prefix ((leads.map _).map _) (by simpa using some)

theorem text_cons_cons (head first : FileName) (rest : List FileName) :
    ({ segments := head :: first :: rest } : Path).text =
      head.shown ++ "/" ++ ({ segments := first :: rest } : Path).text :=
  String.intercalate_cons_cons

/-- The text of the parent is a piece of the text of a path, from its start. -/
theorem text_of_parent? {path parent : Path} (up : path.parent? = some parent) :
    parent.text.toList <+: path.text.toList := by
  obtain ⟨segments⟩ := path
  cases segments with
  | nil => cases up
  | cons head body =>
    rw [parent?] at up
    dsimp only at up
    split at up
    · split at up
      · cases up
      · cases up
        exact List.nil_prefix
    · rename_i some
      have kept : trimEnd (trimEnd body).dropLast <+: body :=
        (trimEnd_isPrefix _).trans ((List.dropLast_prefix _).trans (trimEnd_isPrefix _))
      split at up
      · cases up
        have bodied : body ≠ [] := by
          rintro rfl
          exact some rfl
        obtain ⟨first, rest, rfl⟩ := List.exists_cons_of_ne_nil bodied
        rename_i top
        have slashed : root.text = "/" := by
          rw [root, text_cons_cons, FileName.shown_empty]
          simp [text]
        rw [slashed, top.1, text_cons_cons, FileName.shown_empty, String.empty_append,
          String.toList_append]
        exact List.prefix_append _ _
      · cases up
        exact text_prefix (List.cons_prefix_cons.mpr ⟨rfl, kept⟩) (List.cons_ne_nil _ _)

end EstreeScopes.Path
