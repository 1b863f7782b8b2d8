/-
This file gives the ordered maps of the library: lists of named entries. A name
is looked up at its first entry, and a value put under a name that is already
there replaces the value in its place, so the order is that of first insertion.
The members of a document object and the fields of a tree node are such maps.
-/

namespace EstreeScopes

/-- A list of named entries, read as a map in order of insertion. Names are texts where nothing else
is said. -/
abbrev Entries (α : Type) (Name : Type := String) := List (Name × α)

namespace Entries

variable {α Name : Type} [DecidableEq Name]

/-- The value of the first entry of that name. -/
def find? (entries : Entries α Name) (name : Name) : Option α :=
  match entries with
  | [] => none
  | (key, value) :: rest => if key = name then some value else find? rest name

/-- The names, in order. -/
def names {Name : Type} (entries : Entries α Name) : List Name :=
  entries.map Prod.fst

/-- Puts a value under a name: in place of the old one, or at the end. -/
def put (entries : Entries α Name) (name : Name) (value : α) : Entries α Name :=
  match entries with
  | [] => [(name, value)]
  | (key, old) :: rest =>
    if key = name then (key, value) :: rest else (key, old) :: put rest name value

/-- The entries without the first one of that name. -/
def erase (entries : Entries α Name) (name : Name) : Entries α Name :=
  match entries with
  | [] => []
  | (key, value) :: rest => if key = name then rest else (key, value) :: erase rest name

/-- The map that results from putting all the pairs, one after the other: the last value of a
name stands where the name was first seen. -/
def ofPairs (pairs : List (Name × α)) : Entries α Name :=
  pairs.foldl (fun entries (name, value) => put entries name value) []

/-! ### What putting does to the map -/

@[simp]
theorem find?_put_self (entries : Entries α Name) (name : Name) (value : α) :
    find? (put entries name value) name = some value := by
  induction entries with
  | nil => simp [put, find?]
  | cons entry rest inductionHypothesis =>
    obtain ⟨key, old⟩ := entry
    by_cases equal : key = name
    · simp [put, find?, equal]
    · simp [put, find?, equal, inductionHypothesis]

theorem find?_put_other (entries : Entries α Name) (name other : Name) (value : α)
    (different : other ≠ name) :
    find? (put entries name value) other = find? entries other := by
  induction entries with
  | nil => simp [put, find?, different.symm]
  | cons entry rest inductionHypothesis =>
    obtain ⟨key, old⟩ := entry
    by_cases equal : key = name
    · subst equal
      simp [put, find?, different.symm]
    · simp [put, find?, equal, inductionHypothesis]

/-- A name that is present keeps its place; a new one comes last. -/
theorem names_put (entries : Entries α Name) (name : Name) (value : α) :
    names (put entries name value) =
      if name ∈ names entries then names entries else names entries ++ [name] := by
  induction entries with
  | nil => simp [put, names]
  | cons entry rest inductionHypothesis =>
    obtain ⟨key, old⟩ := entry
    unfold names at inductionHypothesis ⊢
    by_cases equal : key = name
    · simp [put, equal]
    · simp only [put, equal, if_false, List.map_cons, inductionHypothesis, List.mem_cons,
        Ne.symm equal, false_or]
      split <;> simp

/-- A found value belongs to an entry. -/
theorem mem_of_find? {entries : Entries α Name} {name : Name} {value : α}
    (found : find? entries name = some value) : (name, value) ∈ entries := by
  induction entries with
  | nil => simp [find?] at found
  | cons entry rest inductionHypothesis =>
    obtain ⟨key, old⟩ := entry
    by_cases equal : key = name
    · simp only [find?, equal, if_true, Option.some.injEq] at found
      simp [equal, found]
    · simp only [find?, equal, if_false] at found
      exact List.mem_cons_of_mem _ (inductionHypothesis found)

end Entries

end EstreeScopes
