/-
This file says which files are found below a directory, and in which order. The
places of all files are a list that knows nothing of what is wanted; the files that
are found are those of its places that are wanted, pass no name that is passed over
and lie in directories that list their entries. So entries that are not entered are
as good as left out afterwards.

Only names that are texts are passed over, and a directory whose path is too long
does not list its entries. So a file with a hidden name can be found, and a file
that nothing hides can be missed.
-/

import EstreeScopes.Config
import EstreeScopes.Proofs.FilePlaces
import EstreeScopes.Proofs.NearestConfig

namespace EstreeScopes

/-! ### What is found -/

theorem filesIn_eq_map (isListed wanted : Path → Bool) (path : Path)
    (entries : List (FileName × FileEntry)) :
    filesIn isListed wanted path entries = entries.map fun entry =>
      (entry.1, if isPassedOver entry.1 then [] else
        filesAt isListed wanted (path.child entry.1) entry.2) := by
  induction entries with
  | nil => rfl
  | cons entry rest inductionHypothesis => rw [filesIn, inductionHypothesis, List.map_cons]

/-- Whether a place is found: every directory on the way lists its entries, no name on the way is
passed over, and the path of the place is wanted. -/
def isFoundAt (isListed wanted : Path → Bool) (path : Path) : List FileName → Bool
  | [] => wanted path
  | name :: rest =>
    isListed path && !isPassedOver name && isFoundAt isListed wanted (path.child name) rest

theorem isFoundAt_iff {isListed wanted : Path → Bool} {path : Path} {names : List FileName} :
    isFoundAt isListed wanted path names = true ↔
      (∀ above name rest, names = above ++ name :: rest → isListed (path.below above) = true) ∧
        (∀ name ∈ names, isPassedOver name = false) ∧ wanted (path.below names) = true := by
  induction names generalizing path with
  | nil => simp [isFoundAt, Path.below]
  | cons name rest inductionHypothesis =>
    rw [isFoundAt, Bool.and_eq_true, Bool.and_eq_true, inductionHypothesis, Bool.not_eq_true',
      List.forall_mem_cons, Path.below_cons]
    constructor
    · rintro ⟨⟨here, entered⟩, below, others, kept⟩
      refine ⟨fun above next more parts => ?_, ⟨entered, others⟩, kept⟩
      rcases List.cons_eq_append_iff.mp parts with ⟨rfl, _⟩ | ⟨between, rfl, restParts⟩
      · exact here
      · exact below between next more restParts
    · rintro ⟨listed, ⟨entered, others⟩, kept⟩
      refine ⟨⟨listed [] name rest rfl, entered⟩, fun above next more parts => ?_, others, kept⟩
      exact listed (name :: above) next more (congrArg (name :: ·) parts)

/-- Not entering what is passed over is the same as leaving it out of all files afterwards. -/
theorem filesAt_eq (isListed wanted : Path → Bool) (path : Path) (tree : FileEntry) :
    filesAt isListed wanted path tree =
      (tree.filePlaces.filter (isFoundAt isListed wanted path)).map path.below := by
  induction tree using FileEntry.inductionOn generalizing path with
  | file content =>
    rw [filesAt, FileEntry.filePlaces, List.filter_singleton, isFoundAt]
    show _ = List.map path.below (bif wanted path then [[]] else [])
    cases wanted path <;> rfl
  | directory entries inductionHypothesis =>
    rw [filesAt, filesIn_eq_map, inNameOrder_map, List.flatMap_map, FileEntry.filePlaces_directory,
      List.filter_flatMap, List.map_flatMap]
    cases listed : isListed path with
    | false =>
      symm
      simp [List.filter_map, List.flatMap_eq_nil_iff, isFoundAt, listed]
    | true =>
      rw [if_pos rfl]
      refine List.flatMap_congr fun entry member => ?_
      have found := inductionHypothesis entry (mem_inNameOrder.mp member) (path.child entry.1)
      rw [List.filter_map, List.map_map]
      show (if isPassedOver entry.1 then [] else _) =
        List.map (path.child entry.1).below (entry.2.filePlaces.filter fun rest =>
          isFoundAt isListed wanted path (entry.1 :: rest))
      simp only [isFoundAt, listed, found]
      cases isPassedOver entry.1 with
      | true => simp
      | false => simp

theorem Config.holds_iff {text part : List Char} : holds text part = true ↔ part <:+: text := by
  induction text with
  | nil => simp [holds]
  | cons char rest inductionHypothesis =>
    rw [holds, Bool.or_eq_true, List.isPrefixOf_iff_prefix, inductionHypothesis,
      List.infix_cons_iff]

/-- A place below a directory is that of a tree file that counts: a file with the extension of tree
files, below directories that list their entries, with no text among the names on the way that is
passed over, and with no excluded text in the text of its path. -/
structure FileSystem.Eligible (files : FileSystem) (config : Config) (root : Path)
    (tree : FileEntry) (names : List FileName) : Prop where
  file : ∃ content, tree.at? names = some (.file content)
  extended : ∃ last, names.getLast? = some last ∧
    ∃ stem, stem ≠ [] ∧ last.bytes = stem ++ Text.bytes ".json"
  listed : ∀ above name rest, names = above ++ name :: rest →
    files.isListed (root.below above) = true
  entered : ∀ text, FileName.ofText text ∈ names → ¬ ['.'] <+: text.toList ∧ text ≠ "node_modules"
  kept : ∀ part ∈ config.exclude, ¬ part.toList <:+: (root.below names).text.toList

/-- Which paths are wanted under a configuration. -/
def Config.wants (config : Config) (path : Path) : Bool :=
  path.isTree && !config.isExcluded path.text

theorem FileName.text?_eq_some_iff {name : FileName} {text : String} :
    name.text? = some text ↔ name = ofText text := by
  constructor
  · intro valid
    obtain ⟨bytes⟩ := name
    rw [text?, Text.ofBytes?, String.fromUTF8?] at valid
    split at valid
    · rw [ofText, Text.bytes, ← Option.some.inj valid]
      rfl
    · cases valid
  · rintro rfl
    exact text?_ofText text

theorem FileName.ofText_injective : Function.Injective ofText := fun first _ equal =>
  Option.some.inj ((text?_ofText first).symm.trans (text?_eq_some_iff.mpr equal))

/-- Only texts are passed over. -/
theorem isPassedOver_eq_false_iff {name : FileName} :
    isPassedOver name = false ↔
      ∀ text, name = .ofText text → ¬ ['.'] <+: text.toList ∧ text ≠ "node_modules" := by
  simp only [← FileName.text?_eq_some_iff]
  rw [isPassedOver]
  cases name.text? with
  | none => exact iff_of_true rfl nofun
  | some text =>
    dsimp only
    rw [Bool.or_eq_false_iff, ← Bool.not_eq_true, String.startsWith_string_iff,
      beq_eq_false_iff_ne]
    simp only [Option.some.injEq, forall_eq']
    rfl

theorem Config.isExcluded_eq_false_iff {config : Config} {text : String} :
    config.isExcluded text = false ↔ ∀ part ∈ config.exclude, ¬ part.toList <:+: text.toList := by
  simp [isExcluded, holds_iff]

/-- The places of files that are found are those that count. -/
theorem FileSystem.eligible_iff (files : FileSystem) (config : Config) (root : Path)
    {entries : List (FileName × FileEntry)} (wellFormed : (FileEntry.directory entries).WellFormed)
    {names : List FileName} :
    files.Eligible config root (.directory entries) names ↔
      names ∈ (FileEntry.directory entries).filePlaces ∧
        isFoundAt files.isListed config.wants root names = true := by
  have placed : names ∈ (FileEntry.directory entries).filePlaces ↔ _ :=
    FileEntry.mem_filePlaces wellFormed
  rw [placed, isFoundAt_iff]
  -- The way to a file below a directory has a last name, and the extension is that of this name.
  have extended (content : ByteArray)
      (file : (FileEntry.directory entries).at? names = some (.file content)) :
      (root.below names).isTree = true ↔ ∃ last, names.getLast? = some last ∧
        ∃ stem, stem ≠ [] ∧ last.bytes = stem ++ Text.bytes ".json" := by
    have named := FileEntry.isName_of_at? wellFormed file
    cases names using List.reverseRecOn with
    | nil => cases file
    | append_singleton front last =>
      rw [Path.below, List.foldl_concat, Path.isTree_child _ (named last (by simp)),
        List.getLast?_concat]
      simp only [Option.some.injEq, exists_eq_left']
  have wanted : config.wants (root.below names) = true ↔
      (root.below names).isTree = true ∧ config.isExcluded (root.below names).text = false := by
    simp [Config.wants]
  have entered : (∀ name ∈ names, isPassedOver name = false) ↔
      ∀ text, FileName.ofText text ∈ names → ¬ ['.'] <+: text.toList ∧ text ≠ "node_modules" := by
    simp only [isPassedOver_eq_false_iff]
    exact ⟨fun each text member => each _ member text rfl,
      fun each _ member text equal => each text (equal ▸ member)⟩
  rw [wanted, entered, Config.isExcluded_eq_false_iff]
  constructor
  · rintro ⟨⟨content, file⟩, ending, listed, apart, kept⟩
    exact ⟨⟨content, file⟩, listed, apart, (extended content file).mpr ending, kept⟩
  · rintro ⟨⟨content, file⟩, listed, apart, tree, kept⟩
    exact ⟨⟨content, file⟩, (extended content file).mp tree, listed, apart, kept⟩

/-- Different places of files have different paths. -/
theorem Path.below_injective {entries : List (FileName × FileEntry)} (root : Path)
    (wellFormed : (FileEntry.directory entries).WellFormed) {names others : List FileName}
    (listed : names ∈ (FileEntry.directory entries).filePlaces)
    (otherListed : others ∈ (FileEntry.directory entries).filePlaces)
    (same : root.below names = root.below others) : names = others := by
  have segments {names : List FileName}
      (listed : names ∈ (FileEntry.directory entries).filePlaces) :
      (root.below names).segments = root.lead ++ names := by
    obtain ⟨content, file⟩ := (FileEntry.mem_filePlaces wellFormed).mp listed
    refine root.segments_below (fun name member equal => ?_) ?_
    · have named := FileEntry.isName_of_at? wellFormed file name member
      rw [equal] at named
      exact absurd named (by decide)
    · rintro rfl
      cases file
  have equal := congrArg Path.segments same
  rw [segments listed, segments otherListed] at equal
  exact List.append_cancel_left equal

/-- The search of a directory finds the tree files that count: each of them once, nothing else, and
in increasing order of the names on the way to them, compared by their bytes. -/
theorem discover_lists_eligible_files {files : FileSystem} {root : Path}
    {entries : List (FileName × FileEntry)} (config : Config)
    (searched : files.entry root = .ok (.directory entries))
    (wellFormed : (FileEntry.directory entries).WellFormed) :
    let paths := files.discover (fun path => config.isExcluded path.text) root
    paths.Nodup ∧ ∃ places : List (List FileName),
      paths = places.map root.below ∧
      places.Pairwise (fun first second => first.map FileName.bytes < second.map FileName.bytes) ∧
      ∀ names, names ∈ places ↔ files.Eligible config root (.directory entries) names := by
  intro paths
  have found : paths = ((FileEntry.directory entries).filePlaces.filter
      (isFoundAt files.isListed config.wants root)).map root.below := by
    rw [← filesAt_eq]
    show files.discover (fun path => config.isExcluded path.text) root = _
    rw [FileSystem.discover, searched]
    rfl
  have ordered := (FileEntry.filePlaces_pairwise wellFormed).filter
    (isFoundAt files.isListed config.wants root)
  refine ⟨?_, _, found, ordered, fun names => ?_⟩
  · have once : ((FileEntry.directory entries).filePlaces.filter
        (isFoundAt files.isListed config.wants root)).Nodup :=
      ordered.imp fun before equal => absurd (equal ▸ before) (List.lt_irrefl _)
    rw [found]
    refine once.map_on fun names listed others otherListed same => ?_
    exact root.below_injective wellFormed (List.mem_filter.mp listed).1
      (List.mem_filter.mp otherListed).1 same
  · rw [List.mem_filter, files.eligible_iff config root wellFormed]

/-- A name that begins with a point and ends like that of a tree file, but is no text. -/
def oddName : FileName := { bytes := FileName.point :: 0xff :: Text.bytes ".json" }

/-- A directory with a directory `a` beside a file `a-b.json`, with a file whose name is no text,
and with files that do not count: one below `node_modules`, one with a hidden name, one that is
excluded, one that is no tree file, and one in a directory that does not list its entries. -/
def mixedEntries : List (FileName × FileEntry) :=
  [ ("notes.md", .file .empty),
    ("a-b.json", .file .empty),
    (oddName, .file .empty),
    ("locked", .directory [("l.json", .file .empty)]),
    ("node_modules", .directory [("m.json", .file .empty)]),
    ("skip", .directory [("s.json", .file .empty)]),
    ("a", .directory [(".h.json", .file .empty), ("x.json", .file .empty)]) ]

/-- A file system that holds the directory under the name `t`. -/
def mixedFiles : FileSystem :=
  { root := .directory [("t", .directory mixedEntries)], workingDirectory := [],
    denied := [["t", "locked"]] }

theorem mixedFiles_search :
    let config : Config := { Config.default with exclude := ["t/skip"] }
    let root := Path.ofText "t"
    let paths := mixedFiles.discover (fun path => config.isExcluded path.text) root
    let place (names : List String) : List FileName := names.map FileName.ofText
    paths.Nodup ∧ ∃ places : List (List FileName),
      paths = places.map root.below ∧
      places.Pairwise (fun first second => first.map FileName.bytes < second.map FileName.bytes) ∧
      (place ["a", "x.json"] ∈ places ∧ place ["a-b.json"] ∈ places ∧
        (place ["a", "x.json"]).map FileName.bytes < (place ["a-b.json"]).map FileName.bytes) ∧
      [oddName] ∈ places ∧ place ["node_modules", "m.json"] ∉ places ∧
      place ["a", ".h.json"] ∉ places ∧ place ["skip", "s.json"] ∉ places ∧
      place ["notes.md"] ∉ places ∧ place ["locked", "l.json"] ∉ places := by
  intro config root paths place
  have searched : mixedFiles.entry root = .ok (.directory mixedEntries) := by cbv
  obtain ⟨once, places, found, ordered, listed⟩ :=
    discover_lists_eligible_files config searched (by decide)
  have onWay (names : List FileName)
      (each : ∀ above ∈ names.inits, above = names ∨ mixedFiles.isListed (root.below above) = true)
      (above : List FileName) (name : FileName) (rest : List FileName)
      (parts : names = above ++ name :: rest) : mixedFiles.isListed (root.below above) = true := by
    refine (each above ((List.mem_inits _ _).mpr ⟨_, parts.symm⟩)).resolve_left ?_
    rintro rfl
    simp at parts
  have texts (names : List String)
      (each : ∀ text ∈ names, ¬ ['.'] <+: text.toList ∧ text ≠ "node_modules") (text : String)
      (member : FileName.ofText text ∈ place names) :
      ¬ ['.'] <+: text.toList ∧ text ≠ "node_modules" :=
    each text ((List.mem_map_of_injective FileName.ofText_injective).mp member)
  refine ⟨once, places, found, ordered, ⟨?_, ?_, by decide⟩, ?_, ?_, ?_, ?_, ?_, ?_⟩
  · exact (listed _).mpr ⟨⟨.empty, rfl⟩, ⟨"x.json", rfl, Text.bytes "x",
      by decide, by decide⟩, onWay _ (by decide),
      texts _ (by decide), by decide⟩
  · exact (listed _).mpr ⟨⟨.empty, rfl⟩, ⟨"a-b.json", rfl, Text.bytes "a-b",
      by decide, by decide⟩, onWay _ (by decide),
      texts _ (by decide), by decide⟩
  · refine (listed _).mpr ⟨⟨.empty, rfl⟩, ⟨oddName, rfl, [FileName.point, 0xff],
      by decide, by decide⟩, onWay _ (by decide), fun text member => ?_,
      by decide⟩
    have odd : oddName.text? = none := by decide
    have valid := FileName.text?_eq_some_iff.mpr (List.mem_singleton.mp member).symm
    rw [odd] at valid
    cases valid
  · exact fun member => (((listed _).mp member).entered "node_modules" (by decide)).2 rfl
  · exact fun member =>
      (((listed _).mp member).entered ".h.json" (by decide)).1 (by decide)
  · exact fun member => ((listed _).mp member).kept "t/skip" (by decide) (by decide)
  · intro member
    obtain ⟨last, isLast, stem, _, equal⟩ := ((listed _).mp member).extended
    have named : FileName.ofText "notes.md" = last := Option.some.inj isLast
    have ending : Text.bytes ".json" <:+ (FileName.ofText "notes.md").bytes :=
      ⟨stem, by rw [named, equal]⟩
    exact absurd ending (by decide)
  · intro member
    have isListed := ((listed _).mp member).listed ["locked"] "l.json" [] rfl
    exact absurd isListed (by decide)

/-! ### A path that is too long -/

/-- A directory whose path cannot be looked up does not list its entries. -/
theorem FileSystem.isUsable_of_isListed {files : FileSystem} {path : Path}
    (listed : files.isListed path = true) : path.isUsable = true := by
  cases led : files.resolve path with
  | error cause =>
    rw [isListed, opened, led] at listed
    cases listed
  | ok place => exact isUsable_of_resolve led

namespace Path

/-- So many points. -/
def points (count : Nat) : List FileName := List.replicate count "."

theorem points_succ_append (count : Nat) (names : List FileName) :
    points (count + 1) ++ names = .ofText "." :: (points count ++ names) := rfl

theorem bytes_cons_cons (head first : FileName) (rest : List FileName) :
    ({ segments := head :: first :: rest } : Path).bytes =
      head.bytes ++ slash :: ({ segments := first :: rest } : Path).bytes := by
  rw [bytes, List.map_cons, List.map_cons, List.intercalate_cons_cons, List.append_assoc]
  rfl

/-- Every point takes two bytes, with the slash behind it. -/
theorem bytes_points (count : Nat) {names : List FileName} (some : names ≠ []) :
    ({ segments := points count ++ names } : Path).bytes =
      (List.replicate count [FileName.point, slash]).flatten ++
        ({ segments := names } : Path).bytes := by
  induction count with
  | zero => rfl
  | succ count inductionHypothesis =>
    obtain ⟨first, rest, parts⟩ := List.exists_cons_of_ne_nil
      (List.append_ne_nil_of_right_ne_nil (points count) some)
    rw [points_succ_append, List.replicate_succ, List.flatten_cons, List.append_assoc,
      ← inductionHypothesis, parts, bytes_cons_cons]
    rfl

theorem isUsable_points (count : Nat) {names : List FileName} (some : names ≠ []) :
    ({ segments := points count ++ names } : Path).isUsable = true ↔
      0 ∉ ({ segments := names } : Path).bytes ∧
        2 * count + ({ segments := names } : Path).bytes.length ≤ FileSystem.pathLimit := by
  have apart : 0 ∉ (List.replicate count [FileName.point, slash]).flatten := by
    rw [List.mem_flatten]
    rintro ⟨pair, member, zero⟩
    rw [List.eq_of_mem_replicate member] at zero
    revert zero
    decide
  have twice : (List.replicate count [FileName.point, slash]).flatten.length = 2 * count := by
    simp [Nat.mul_comm]
  rw [isUsable, bytes_points count some, Bool.and_eq_true, Bool.not_eq_true', decide_eq_true_iff,
    ← Bool.not_eq_true, List.contains_iff_mem, List.mem_append, List.length_append, twice]
  exact and_congr_left fun _ => not_congr (or_iff_right apart)

end Path

theorem FileSystem.follow_points (files : FileSystem) (place : List FileName) (count : Nat)
    {names : List FileName} (some : names ≠ []) :
    files.follow place (Path.points count ++ names) = files.follow place names := by
  induction count with
  | zero => rfl
  | succ count inductionHypothesis =>
    obtain ⟨first, rest, parts⟩ := List.exists_cons_of_ne_nil
      (List.append_ne_nil_of_right_ne_nil (Path.points count) some)
    rw [Path.points_succ_append, parts, files.follow_void place rfl, ← parts, inductionHypothesis]

/-- A path behind points leads where it leads without them, if it is not too long. -/
theorem FileSystem.resolve_points (files : FileSystem) (count : Nat) {names : List FileName}
    (some : names ≠ [])
    (usable : ({ segments := Path.points (count + 1) ++ names } : Path).isUsable = true) :
    files.resolve { segments := Path.points (count + 1) ++ names } =
      files.follow files.workingDirectory names := by
  rw [Path.points_succ_append] at usable ⊢
  rw [files.resolve_cons usable fun nothing => absurd nothing.1 (by decide), if_neg (by decide),
    ← Path.points_succ_append, files.follow_points _ _ some]

/-- A directory with a tree file one directory further down. -/
def longEntries : List (FileName × FileEntry) :=
  [("sub", .directory [("x.json", .file "\x7b\"type\":\"Program\"\x7d".toUTF8)])]

/-- A file system that holds this directory, and one with a file whose name begins with a point and
is no text. -/
def strangeFiles : FileSystem :=
  { root := .directory
      [("d", .directory longEntries), ("t", .directory [(oddName, .file .empty)])],
    workingDirectory := [] }

/-- A path to the first directory, behind so many points. -/
def pointed (count : Nat) : Path := { segments := Path.points count ++ [.ofText "d"] }

theorem pointed_entry (count : Nat) (short : 2 * (count + 1) + 1 ≤ FileSystem.pathLimit) :
    strangeFiles.entry (pointed (count + 1)) = .ok (.directory longEntries) := by
  have usable : (pointed (count + 1)).isUsable = true :=
    (Path.isUsable_points _ (List.cons_ne_nil _ _)).mpr ⟨by decide, short⟩
  have led : strangeFiles.resolve (pointed (count + 1)) = _ :=
    strangeFiles.resolve_points count (List.cons_ne_nil _ _) usable
  rw [FileSystem.entry, led]
  rfl

/-- Behind too many points the path of the inner directory is too long. -/
theorem pointed_sub_unlisted {count : Nat} (long : FileSystem.pathLimit < 2 * count + 5) :
    strangeFiles.isListed ((pointed count).child "sub") = false := by
  refine Bool.eq_false_iff.mpr fun listed => ?_
  have usable := FileSystem.isUsable_of_isListed listed
  rw [Path.child_eq, pointed, Path.lead_concat, if_neg (by decide), List.append_assoc] at usable
  have short := ((Path.isUsable_points count (List.cons_ne_nil _ _)).mp usable).2
  exact absurd (show 2 * count + 5 ≤ FileSystem.pathLimit from short) (not_le.mpr long)

theorem pointed_discover (count : Nat) (short : 2 * (count + 1) + 1 ≤ FileSystem.pathLimit)
    (long : FileSystem.pathLimit < 2 * (count + 1) + 5) (isExcluded : Path → Bool) :
    strangeFiles.discover isExcluded (pointed (count + 1)) = [] := by
  rw [FileSystem.discover, pointed_entry count short]
  simp [longEntries, filesAt, filesIn, inNameOrder, pointed_sub_unlisted long]

theorem longFile_extension (root : Path) :
    (root.below ["sub", "x.json"]).extension? = some (.ofText "json") := by
  have named : (root.below ["sub", "x.json"]).fileName? = some (.ofText "x.json") :=
    (root.child "sub").fileName?_child (by decide)
  rw [Path.extension?, named]
  decide

/-- A file that nothing hides is missed below a directory whose path is too long, and a file whose
name begins with a point is found. -/
theorem long_path_missed_and_odd_name_found :
    let found (root : Path) : List Path :=
      strangeFiles.discover (fun path => Config.default.isExcluded path.text) root
    let root := pointed 2046
    let file := root.below ["sub", "x.json"]
    (strangeFiles.entry root = .ok (.directory longEntries) ∧
      (∃ content, (FileEntry.directory longEntries).at? ["sub", "x.json"] =
        some (.file content)) ∧
      file.extension? = some (.ofText "json") ∧
      (∀ name ∈ [FileName.ofText "sub", .ofText "x.json"],
        name.bytes.head? ≠ some FileName.point ∧ name ≠ "node_modules") ∧
      Config.default.exclude = [] ∧ file ∉ found root) ∧
    strangeFiles.entry (.ofText "t") = .ok (.directory [(oddName, .file .empty)]) ∧
      oddName.bytes.head? = some FileName.point ∧
      (Path.ofText "t").below [oddName] ∈ found (.ofText "t") := by
  intro found root file
  have entered : strangeFiles.entry root = .ok (.directory longEntries) :=
    pointed_entry 2045 (by decide)
  have extended : file.extension? = some (.ofText "json") := longFile_extension root
  have none : found root = [] :=
    pointed_discover 2045 (by decide) (by decide) _
  have oddEntry :
      strangeFiles.entry (.ofText "t") = .ok (.directory [(oddName, .file .empty)]) := by
    cbv
  have oddFound : found (.ofText "t") = [(Path.ofText "t").below [oddName]] := by
    have listed : strangeFiles.isListed (.ofText "t") = true := by decide
    have kept : isPassedOver oddName = false := by decide
    have wanted : ((Path.ofText "t").child oddName).isTree = true := by decide
    simp only [found, FileSystem.discover, oddEntry]
    simp [filesAt, filesIn, inNameOrder, listed, kept, wanted, Config.isExcluded, Config.default,
      Path.below]
  exact ⟨⟨entered, ⟨_, rfl⟩, extended, by decide, rfl, none ▸ List.not_mem_nil⟩,
    oddEntry, rfl, oddFound ▸ List.mem_singleton.mpr rfl⟩

end EstreeScopes
