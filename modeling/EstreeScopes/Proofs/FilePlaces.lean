/-
This file gives the places of the files in a directory tree. A place below a
directory is given by the names on the way to it. The places of all files are
listed in the order of the names on the way, compared byte by byte, so what stands
in a directory comes where the name of the directory comes. The path of a place
takes its name and its extension from the last name on the way.
-/

import EstreeScopes.Files.Discovery
import EstreeScopes.Proofs.ByteOrder
import EstreeScopes.Proofs.PathComponents
import EstreeScopes.Proofs.WellFormed

namespace EstreeScopes

/-! ### Directory trees -/

namespace FileEntry

/-- Whether a name can be that of an entry of a directory. -/
def isName (name : FileName) : Bool :=
  name != .empty && name != "." && name != ".." && !name.bytes.contains Path.slash &&
    !name.bytes.contains 0

/-- A tree of directories and files: the entries of every directory have names, and no two have the
same. -/
inductive WellFormed : FileEntry → Prop where
  | file (content : ByteArray) : WellFormed (.file content)
  | directory {entries : List (FileName × FileEntry)} (distinct : (Entries.names entries).Nodup)
      (named : ∀ entry ∈ entries, isName entry.1 = true)
      (below : ∀ entry ∈ entries, WellFormed entry.2) : WellFormed (.directory entries)

theorem wellFormed_directory {entries : List (FileName × FileEntry)} :
    (directory entries).WellFormed ↔ (Entries.names entries).Nodup ∧
      (∀ entry ∈ entries, isName entry.1 = true) ∧ ∀ entry ∈ entries, entry.2.WellFormed :=
  ⟨fun | .directory distinct named below => ⟨distinct, named, below⟩,
    fun ⟨distinct, named, below⟩ => .directory distinct named below⟩

mutual

/-- Whether a tree is well-formed, entry by entry. -/
def decideWellFormed : (tree : FileEntry) → Decidable tree.WellFormed
  | .file content => .isTrue (.file content)
  | .directory entries =>
    letI := decideEntries entries
    decidable_of_iff' _ wellFormed_directory

/-- Whether the entries of a directory are well-formed trees. -/
def decideEntries : (entries : List (FileName × FileEntry)) →
    Decidable (∀ entry ∈ entries, entry.2.WellFormed)
  | [] => .isTrue fun _ member => nomatch member
  | (_, entry) :: rest =>
    letI := decideWellFormed entry
    letI := decideEntries rest
    decidable_of_iff' _ List.forall_mem_cons

end

instance (tree : FileEntry) : Decidable tree.WellFormed := tree.decideWellFormed

/-- Induction over directory trees, with the hypothesis for each entry of a directory. -/
@[elab_as_elim]
theorem inductionOn {motive : FileEntry → Prop} (entry : FileEntry)
    (file : ∀ content, motive (.file content))
    (directory : ∀ entries, (∀ inner ∈ entries, motive inner.2) → motive (.directory entries)) :
    motive entry :=
  @FileEntry.rec motive (fun entries => ∀ inner ∈ entries, motive inner.2)
    (fun inner => motive inner.2) file directory (fun _ member => nomatch member)
    (fun _ _ first others => List.forall_mem_cons.mpr ⟨first, others⟩) (fun _ _ held => held) entry

mutual

/-- The places of all files of a tree, in the order of the names on the way. -/
def filePlaces : FileEntry → List (List FileName)
  | .file _ => [[]]
  | .directory entries =>
    (inNameOrder (filePlacesIn entries)).flatMap fun (name, places) => places.map (name :: ·)

/-- The places of the files of each entry of a directory, under the name of the entry. -/
def filePlacesIn : List (FileName × FileEntry) → List (FileName × List (List FileName))
  | [] => []
  | (name, entry) :: rest => (name, entry.filePlaces) :: filePlacesIn rest

end

theorem filePlacesIn_eq_map (entries : List (FileName × FileEntry)) :
    filePlacesIn entries = entries.map fun entry => (entry.1, entry.2.filePlaces) := by
  induction entries with
  | nil => rfl
  | cons entry rest inductionHypothesis => rw [filePlacesIn, inductionHypothesis, List.map_cons]

end FileEntry

/-! ### The order of names -/

/-- What is sorted by name can be computed after the sorting. -/
theorem inNameOrder_map {α β : Type} (compute : FileName × α → β) (entries : List (FileName × α)) :
    inNameOrder (entries.map fun entry => (entry.1, compute entry)) =
      (inNameOrder entries).map fun entry => (entry.1, compute entry) := by
  refine (List.map_mergeSort ?_).symm
  exact fun _ _ _ _ => rfl

theorem mem_inNameOrder {α : Type} {entries : List (FileName × α)} {entry : FileName × α} :
    entry ∈ inNameOrder entries ↔ entry ∈ entries :=
  (List.mergeSort_perm entries _).mem_iff

/-- Entries with distinct names have increasing names when they are sorted. -/
theorem inNameOrder_pairwise {α : Type} {entries : List (FileName × α)}
    (distinct : (Entries.names entries).Nodup) :
    (inNameOrder entries).Pairwise fun first second => first.1.bytes < second.1.bytes := by
  have apart : (entries.map fun entry => entry.1.bytes).Nodup := by
    have injective : Function.Injective FileName.bytes := fun ⟨_⟩ ⟨_⟩ equal =>
      congrArg FileName.mk equal
    have bytes := List.Nodup.map injective distinct
    rwa [Entries.names, List.map_map] at bytes
  exact Text.pairwise_mergeSort (fun entry : FileName × α => entry.1.bytes) apart

namespace FileEntry

theorem filePlaces_directory (entries : List (FileName × FileEntry)) :
    (directory entries).filePlaces =
      (inNameOrder entries).flatMap fun entry => entry.2.filePlaces.map (entry.1 :: ·) := by
  rw [filePlaces, filePlacesIn_eq_map, inNameOrder_map, List.flatMap_map]

theorem at?_cons_of_mem {entries : List (FileName × FileEntry)}
    (distinct : (Entries.names entries).Nodup) {name : FileName} {entry : FileEntry}
    (member : (name, entry) ∈ entries) (rest : List FileName) :
    (directory entries).at? (name :: rest) = entry.at? rest := by
  rw [at?, Entries.find?_of_mem distinct member, Option.bind_some]

/-- The places that are listed are those of the files. -/
theorem mem_filePlaces {tree : FileEntry} (wellFormed : tree.WellFormed) {names : List FileName} :
    names ∈ tree.filePlaces ↔ ∃ content, tree.at? names = some (.file content) := by
  induction wellFormed generalizing names with
  | file content =>
    rw [filePlaces, List.mem_singleton]
    cases names with
    | nil => exact iff_of_true rfl ⟨content, rfl⟩
    | cons name rest => exact iff_of_false (List.cons_ne_nil _ _) fun ⟨_, found⟩ => nomatch found
  | @directory entries distinct _ _ inductionHypothesis =>
    rw [filePlaces_directory, List.mem_flatMap]
    constructor
    · rintro ⟨⟨name, entry⟩, member, listed⟩
      obtain ⟨rest, restListed, rfl⟩ := List.mem_map.mp listed
      have held := mem_inNameOrder.mp member
      rw [at?_cons_of_mem distinct held]
      exact (inductionHypothesis _ held).mp restListed
    · rintro ⟨content, found⟩
      match names, found with
      | name :: rest, found =>
        obtain ⟨entry, step, inner⟩ := Option.bind_eq_some_iff.mp found
        have held := Entries.mem_of_find? step
        exact ⟨(name, entry), mem_inNameOrder.mpr held, List.mem_map.mpr
          ⟨rest, (inductionHypothesis _ held).mpr ⟨content, inner⟩, rfl⟩⟩

/-- The places are listed in the order of the bytes of the names on the way. -/
theorem filePlaces_pairwise {tree : FileEntry} (wellFormed : tree.WellFormed) :
    tree.filePlaces.Pairwise fun first second =>
      first.map FileName.bytes < second.map FileName.bytes := by
  induction wellFormed with
  | file content =>
    rw [filePlaces]
    exact List.pairwise_singleton _ _
  | @directory entries distinct _ _ inductionHypothesis =>
    rw [filePlaces_directory, List.pairwise_flatMap]
    constructor
    · intro entry member
      refine List.pairwise_map.mpr ((inductionHypothesis _ (mem_inNameOrder.mp member)).imp ?_)
      exact fun before => List.cons_lt_cons_iff.mpr (Or.inr ⟨rfl, before⟩)
    · refine (inNameOrder_pairwise distinct).imp fun before first listed second otherListed => ?_
      obtain ⟨rest, _, rfl⟩ := List.mem_map.mp listed
      obtain ⟨otherRest, _, rfl⟩ := List.mem_map.mp otherListed
      exact List.cons_lt_cons_iff.mpr (Or.inl before)

/-- Names that lead somewhere are names of entries. -/
theorem isName_of_at? {tree : FileEntry} (wellFormed : tree.WellFormed) {names : List FileName}
    {entry : FileEntry} (found : tree.at? names = some entry) :
    ∀ name ∈ names, isName name = true := by
  induction names generalizing tree with
  | nil => exact fun _ member => nomatch member
  | cons name rest inductionHypothesis =>
    cases wellFormed with
    | file content => cases found
    | directory distinct named below =>
      obtain ⟨inner, step, innerFound⟩ := Option.bind_eq_some_iff.mp found
      have held := Entries.mem_of_find? step
      exact List.forall_mem_cons.mpr
        ⟨named _ held, inductionHypothesis (below _ held) innerFound⟩

end FileEntry

/-! ### Paths below a path -/

namespace Path

/-- The path of a place below a path. -/
def below (path : Path) (names : List FileName) : Path := names.foldl child path

theorem segments_below (path : Path) {names : List FileName} (given : ∀ name ∈ names, name ≠ "")
    (some : names ≠ []) : (path.below names).segments = path.lead ++ names := by
  induction names generalizing path with
  | nil => exact absurd rfl some
  | cons name rest inductionHypothesis =>
    obtain ⟨first, others⟩ := List.forall_mem_cons.mp given
    rw [below, List.foldl_cons, ← below]
    cases rest with
    | nil => rw [below, List.foldl_nil, child_eq]
    | cons next more =>
      rw [inductionHypothesis _ others (List.cons_ne_nil _ _), lead_child path first,
        List.append_assoc, List.singleton_append]

/-- The last name on the way to a place is the name of its path. -/
theorem fileName?_child (path : Path) {name : FileName} (named : FileEntry.isName name = true) :
    (path.child name).fileName? = some name := by
  simp only [FileEntry.isName, Bool.and_eq_true, bne_iff_ne] at named
  obtain ⟨⟨⟨⟨notEmpty, notPoint⟩, notPoints⟩, _⟩, _⟩ := named
  have void : isVoid name = false := by simp [isVoid, notEmpty, notPoint]
  have solid : isSolid name = true := by rw [isSolid, void]; rfl
  rw [child_eq, fileName?]
  cases path.lead with
  | nil => simp [trimEnd, void, notPoints]
  | cons head body => simp [trimEnd_concat _ solid, void, notPoints]

/-- What stands behind the last point of a name, if something stands before the point. -/
theorem extension?_child (path : Path) {name kind : FileName} (named : FileEntry.isName name = true)
    (pointless : FileName.point ∉ kind.bytes) :
    (path.child name).extension? = some kind ↔
      ∃ stem, stem ≠ [] ∧ name.bytes = stem ++ FileName.point :: kind.bytes := by
  obtain ⟨ending⟩ := kind
  rw [extension?, fileName?_child path named, Option.bind_some, FileName.extension?]
  dsimp only at pointless ⊢
  constructor
  · intro extended
    split at extended
    · rename_i point last stem rest
      have stops : point = FileName.point := by
        simpa [rest] using List.head?_dropWhile_not (· != FileName.point) name.bytes.reverse
      have parts := List.takeWhile_append_dropWhile (p := (· != FileName.point))
        (l := name.bytes.reverse)
      rw [rest, stops, ← List.reverse_inj, List.reverse_reverse] at parts
      refine ⟨(last :: stem).reverse, by simp, ?_⟩
      rw [← parts, ← FileName.mk.inj (Option.some.inj extended)]
      simp
    · cases extended
  · rintro ⟨stem, given, parted⟩
    have parts : name.bytes.reverse = ending.reverse ++ FileName.point :: stem.reverse := by
      rw [parted]
      simp
    have before : ∀ byte ∈ ending.reverse, (byte != FileName.point) = true := fun byte member =>
      bne_iff_ne.mpr fun equal => pointless (equal ▸ List.mem_reverse.mp member)
    obtain ⟨last, more, stemmed⟩ : ∃ last more, stem.reverse = last :: more :=
      List.exists_cons_of_ne_nil (by simpa using given)
    rw [parts, List.dropWhile_append_of_pos before, List.takeWhile_append_of_pos before, stemmed]
    simp

/-- A name has the extension of tree files if it ends in it behind something else. -/
theorem isTree_child (path : Path) {name : FileName} (named : FileEntry.isName name = true) :
    (path.child name).isTree = true ↔
      ∃ stem, stem ≠ [] ∧ name.bytes = stem ++ Text.bytes ".json" := by
  rw [isTree, beq_iff_eq, extension?_child path named (by decide)]
  rfl

theorem below_cons (path : Path) (name : FileName) (rest : List FileName) :
    path.below (name :: rest) = (path.child name).below rest := rfl

end Path

end EstreeScopes
